import SegmentPlacement.Toml.Number
import SegmentPlacement.Toml.Quoted

/-! Settings files: lines of `key = value`, comments, and tables with a header of
their own. Values are texts, numbers and truth values; a key may be set once. -/

namespace SegmentPlacement.Toml

inductive Line where
  | blank
  | header (name : String)
  | pair (key : String) (value : Json)

def isKeyChar (char : Char) : Bool := char.isAlphanum || char == '_' || char == '-'

/-- The text behind a comment, if there is one. -/
def skipComment (chars : List Char) : List Char :=
  match chars with
  | '#' :: rest => rest.dropWhile isPlain
  | _ => chars

/-- The text of the next line, when only blanks and a comment are left on this one. -/
def endLine? (chars : List Char) : Option (List Char) :=
  match skipComment (chars.dropWhile isBlank) with
  | [] => some []
  | rest => lineEnd? rest

/-- A value that is no text. -/
def bare? (chars : List Char) : Option Json :=
  if chars = "true".toList then some (.bool true)
  else if chars = "false".toList then some (.bool false)
  else number? chars

/-- Whether a character ends a value that is no text. -/
def endsBare (char : Char) : Bool :=
  isBlank char || char == '#' || char == '\n' || char == '\r'

def readValue? (chars : List Char) : Option (Json × List Char) :=
  if chars.head? = some '"' ∨ chars.head? = some '\'' then
    (readText? chars).map fun (text, after) => (.str text, after)
  else
    (bare? (chars.takeWhile fun char => !endsBare char)).map fun value =>
      (value, chars.dropWhile fun char => !endsBare char)

/-- A key, bare or in quotes. -/
def readKey? (chars : List Char) : Option (String × List Char) :=
  if chars.head? = some '"' ∨ chars.head? = some '\'' then readShort? chars
  else
    let key := chars.takeWhile isKeyChar
    if key.isEmpty then none else some (String.ofList key, chars.dropWhile isKeyChar)

/-- The header of a table behind its bracket. -/
def readHeader? (chars : List Char) : Option (Line × List Char) := do
  let (name, rest) ← readKey? (chars.dropWhile isBlank)
  match rest.dropWhile isBlank with
  | ']' :: after => return (.header name, ← endLine? after)
  | _ => none

def readPair? (chars : List Char) : Option (Line × List Char) := do
  let (key, rest) ← readKey? chars
  match rest.dropWhile isBlank with
  | '=' :: afterSign =>
    let (value, after) ← readValue? (afterSign.dropWhile isBlank)
    return (.pair key value, ← endLine? after)
  | _ => none

/-- What one line says, and the text behind it. -/
def readLine? (chars : List Char) : Option (Line × List Char) :=
  match chars.dropWhile isBlank with
  | '[' :: rest => readHeader? rest
  | start =>
    match endLine? start with
    | some after => some (.blank, after)
    | none => readPair? start

/-- What all lines say. -/
def readLines? : Nat → List Char → Option (List Line)
  | _, [] => some []
  | 0, _ => none
  | fuel + 1, chars => do
    let (line, rest) ← readLine? chars
    return line :: (← readLines? fuel rest)

abbrev Members := List (String × Json)

def defines (members : Members) (key : String) : Bool := (members.lookup key).isSome

/-- The members of the table that is being read, and those of the whole file without it. -/
structure Sheet where
  whole : Members := []
  /-- The open table, by its header. -/
  header : Option String := none
  table : Members := []

namespace Sheet

/-- The file's members with the open table closed. -/
def close (sheet : Sheet) : Members :=
  match sheet.header with
  | some name => sheet.whole ++ [(name, .obj sheet.table)]
  | none => sheet.whole ++ sheet.table

/-- Takes one more line. No key and no header may come twice. -/
def add? (sheet : Sheet) : Line → Option Sheet
  | .blank => some sheet
  | .header name =>
    if defines sheet.close name then none
    else some { whole := sheet.close, header := some name, table := [] }
  | .pair key value =>
    if defines sheet.table key then none
    else some { sheet with table := sheet.table ++ [(key, value)] }

end Sheet

/-- The text behind a mark of byte order. -/
def afterMark (chars : List Char) : List Char :=
  match chars with
  | '\uFEFF' :: rest => rest
  | _ => chars

/-- The settings of a file as one object. -/
def read? (text : String) : Option Json := do
  let chars := afterMark text.toList
  let lines ← readLines? (chars.length + 1) chars
  let sheet ← lines.foldlM Sheet.add? {}
  return .obj sheet.close

end SegmentPlacement.Toml

import SegmentPlacement.Json.Reader

/-! Texts between quotes in settings files. Double quotes allow escapes, single
quotes do not; between three quotes of either kind a text may run over several
lines. -/

namespace SegmentPlacement.Toml

def isBlank (char : Char) : Bool := char == ' ' || char == '\t'

/-- The characters that may stand in a comment and, unless they mean something there, in a text. -/
def isPlain (char : Char) : Bool := char == '\t' || (0x20 ≤ char.toNat && char.toNat ≠ 0x7F)

/-- The text behind the end of a line; a carriage return counts only before a line feed. -/
def lineEnd? : List Char → Option (List Char)
  | '\n' :: rest => some rest
  | '\r' :: '\n' :: rest => some rest
  | _ => none

/-- The code point behind a count of hexadecimal digits. -/
def codePoint? (code : Nat) : Option Char :=
  if code < 0xD800 ∨ (0xDFFF < code ∧ code < 0x110000) then some (Char.ofNat code) else none

/-- A character written with four hexadecimal digits. -/
def readShortCode? (chars : List Char) : Option (Char × List Char) := do
  let (code, rest) ← Json.readUnit? chars
  return (← codePoint? code, rest)

/-- A character written with eight hexadecimal digits. -/
def readLongCode? (chars : List Char) : Option (Char × List Char) := do
  let (high, afterHigh) ← Json.readUnit? chars
  let (low, rest) ← Json.readUnit? afterHigh
  return (← codePoint? (high * 0x10000 + low), rest)

/-- A character behind a backslash. -/
def readEscape? (chars : List Char) : Option (Char × List Char) :=
  match chars with
  | 'u' :: rest => readShortCode? rest
  | 'U' :: rest => readLongCode? rest
  | '/' :: _ => none
  | letter :: rest => (Json.escaped? letter).map fun char => (char, rest)
  | [] => none

/-- The characters behind a double quote up to the next one, collected in reverse. -/
def readQuoted? : Nat → List Char → List Char → Option (String × List Char)
  | 0, _, _ => none
  | _ + 1, _, [] => none
  | fuel + 1, collected, char :: rest =>
    if char = '"' then some (String.ofList collected.reverse, rest)
    else if char = '\\' then
      match readEscape? rest with
      | some (written, after) => readQuoted? fuel (written :: collected) after
      | none => none
    else if isPlain char then readQuoted? fuel (char :: collected) rest
    else none

/-- The characters behind a single quote up to the next one. -/
def readLiteral? (chars : List Char) : Option (String × List Char) :=
  let isInside (char : Char) : Bool := isPlain char && char != '\''
  match chars.dropWhile isInside with
  | '\'' :: rest => some (String.ofList (chars.takeWhile isInside), rest)
  | _ => none

/-- The text behind any blanks and line ends. -/
def skipLines : List Char → List Char
  | ' ' :: rest => skipLines rest
  | '\t' :: rest => skipLines rest
  | '\n' :: rest => skipLines rest
  | '\r' :: '\n' :: rest => skipLines rest
  | rest => rest

/-- The text behind a backslash that joins its line to the next text: all blanks go. -/
def joined? (chars : List Char) : Option (List Char) :=
  (lineEnd? (chars.dropWhile isBlank)).map skipLines

/-- The characters behind three quotes up to the next three, collected in reverse. One or two
quotes stand for themselves, and so do the first ones of up to five that end the text. -/
def readLong? (quote : Char) (escapes : Bool) :
    Nat → List Char → List Char → Option (String × List Char)
  | 0, _, _ => none
  | _ + 1, _, [] => none
  | fuel + 1, collected, char :: rest =>
    if char = quote then
      let run := (rest.takeWhile (· = quote)).length + 1
      let after := (char :: rest).drop run
      if run < 3 then readLong? quote escapes fuel (List.replicate run quote ++ collected) after
      else if run < 6 then
        some (String.ofList (List.replicate (run - 3) quote ++ collected).reverse, after)
      else none
    else if escapes ∧ char = '\\' then
      match joined? rest, readEscape? rest with
      | some after, _ => readLong? quote escapes fuel collected after
      | none, some (written, after) => readLong? quote escapes fuel (written :: collected) after
      | none, none => none
    else match lineEnd? (char :: rest) with
      | some after => readLong? quote escapes fuel ('\n' :: collected) after
      | none => if isPlain char then readLong? quote escapes fuel (char :: collected) rest else none

/-- A text of several lines behind its opening quotes. A line end right behind them is left out. -/
def openLong? (quote : Char) (escapes : Bool) (chars : List Char) : Option (String × List Char) :=
  readLong? quote escapes (chars.length + 1) [] ((lineEnd? chars).getD chars)

/-- A text on one line, in quotes of either kind. -/
def readShort? (chars : List Char) : Option (String × List Char) :=
  match chars with
  | '"' :: rest => readQuoted? (rest.length + 1) [] rest
  | '\'' :: rest => readLiteral? rest
  | _ => none

/-- A text in quotes of any kind. -/
def readText? (chars : List Char) : Option (String × List Char) :=
  match chars with
  | '"' :: '"' :: '"' :: rest => openLong? '"' true rest
  | '\'' :: '\'' :: '\'' :: rest => openLong? '\'' false rest
  | _ => readShort? chars

end SegmentPlacement.Toml

import SegmentPlacement.Json.Number

/-! JSON texts read as values. A text is one value between blanks; anything left
over or a bare control character refuses the whole text. Half a surrogate pair
and a value nested too deeply only make the value around them flawed. -/

namespace SegmentPlacement.Json

open Text

def isSpace (char : Char) : Bool := char == ' ' || char == '\n' || char == '\t' || char == '\r'

/-- The value of a hexadecimal digit. -/
def hexDigit? (char : Char) : Option Nat :=
  if let some value := digit? char then some value
  else if 'a'.toNat ≤ char.toNat ∧ char.toNat ≤ 'f'.toNat then some (char.toNat - 'a'.toNat + 10)
  else if 'A'.toNat ≤ char.toNat ∧ char.toNat ≤ 'F'.toNat then some (char.toNat - 'A'.toNat + 10)
  else none

/-- A code unit written with four hexadecimal digits. -/
def readUnit? : List Char → Option (Nat × List Char)
  | a :: b :: c :: d :: rest => do
    let first ← hexDigit? a
    let second ← hexDigit? b
    let third ← hexDigit? c
    let fourth ← hexDigit? d
    return (((first * 16 + second) * 16 + third) * 16 + fourth, rest)
  | _ => none

/-- The second half of a surrogate pair. -/
def readPartner? (chars : List Char) : Option (Nat × List Char) :=
  match chars with
  | '\\' :: 'u' :: rest =>
    (readUnit? rest).filter fun (unit, _) => 0xDC00 ≤ unit ∧ unit ≤ 0xDFFF
  | _ => none

/-- A character after its backslash and `u`. A surrogate needs its partner right behind it; alone
it is read as no character. -/
def readEscapedUnit? (chars : List Char) : Option (Option Char × List Char) := do
  let (unit, rest) ← readUnit? chars
  if unit < 0xD800 ∨ 0xDFFF < unit then return (some (Char.ofNat unit), rest)
  else if 0xDC00 ≤ unit then return (none, rest)
  else match readPartner? rest with
    | some (partner, after) =>
      return (some (Char.ofNat (0x10000 + (unit - 0xD800) * 0x400 + (partner - 0xDC00))), after)
    | none => return (none, rest)

/-- The character an escape letter stands for. -/
def escaped? : Char → Option Char
  | '"' => some '"'
  | '\\' => some '\\'
  | '/' => some '/'
  | 'b' => some '\x08'
  | 'f' => some '\x0c'
  | 'n' => some '\n'
  | 'r' => some '\r'
  | 't' => some '\t'
  | _ => none

/-- The characters of a string behind its opening quote, collected in reverse; there is no text
once a part of it was no character. -/
def readString? : Nat → Option (List Char) → List Char → Option (Option String × List Char)
  | 0, _, _ => none
  | _ + 1, _, [] => none
  | fuel + 1, collected, char :: rest =>
    if char = '"' then some (collected.map fun chars => String.ofList chars.reverse, rest)
    else if char = '\\' then
      match rest with
      | 'u' :: unit =>
        match readEscapedUnit? unit with
        | some (some written, after) => readString? fuel (collected.map (written :: ·)) after
        | some (none, after) => readString? fuel none after
        | none => none
      | letter :: after =>
        match escaped? letter with
        | some written => readString? fuel (collected.map (written :: ·)) after
        | none => none
      | [] => none
    else if char.toNat < 0x20 then none
    else readString? fuel (collected.map (char :: ·)) rest

/-- The string behind an opening quote. -/
def readText? (chars : List Char) : Option (Option String × List Char) :=
  readString? (chars.length + 1) (some []) chars

/-- Whether the string behind an opening quote is written with escapes. -/
def isEscaped (chars : List Char) : Bool := (chars.takeWhile (· ≠ '"')).contains '\\'

/-- The text behind `word`, when it starts with it. -/
def afterWord? (word : String) (chars : List Char) : Option (List Char) :=
  let letters := word.toList
  if letters.isPrefixOf chars then some (chars.drop letters.length) else none

/-- How many arrays and objects may stand inside each other. -/
def depthLimit : Nat := 127

/-- A value at a depth, which is flawed when it lies too deep or one of its names is. -/
def placed (depth : Nat) (value : Option Json) : Json :=
  if depth ≤ depthLimit then value.getD .flawed else .flawed

mutual

/-- A value at the front of a text inside `depth` arrays and objects, and the text behind it. -/
def readValue? : Nat → Nat → List Char → Option (Json × List Char)
  | 0, _, _ => none
  | fuel + 1, depth, chars =>
    match chars.dropWhile isSpace with
    | [] => none
    | '{' :: rest =>
      match rest.dropWhile isSpace with
      | '}' :: after => some (placed (depth + 1) (some (.obj [])), after)
      | start => readMembers? fuel (depth + 1) (some []) false start
    | '[' :: rest =>
      match rest.dropWhile isSpace with
      | ']' :: after => some (placed (depth + 1) (some (.arr [])), after)
      | start => readItems? fuel (depth + 1) [] start
    | '"' :: rest =>
      (readText? rest).map fun (text, after) => ((text.map Json.str).getD .flawed, after)
    | 'n' :: rest => (afterWord? "ull" rest).map fun after => (.null, after)
    | 't' :: rest => (afterWord? "rue" rest).map fun after => (.bool true, after)
    | 'f' :: rest => (afterWord? "alse" rest).map fun after => (.bool false, after)
    | start => readNumber? start

/-- The items of an array from the next one on, collected in reverse. -/
def readItems? : Nat → Nat → List Json → List Char → Option (Json × List Char)
  | 0, _, _, _ => none
  | fuel + 1, depth, collected, chars =>
    match readValue? fuel depth chars with
    | none => none
    | some (item, after) =>
      match after.dropWhile isSpace with
      | ',' :: rest => readItems? fuel depth (item :: collected) rest
      | ']' :: rest => some (placed depth (some (.arr (item :: collected).reverse)), rest)
      | _ => none

/-- The members of an object from the next one on, collected in reverse while their names are
texts, and whether a name so far was escaped. -/
def readMembers? : Nat → Nat → Option (List (String × Json)) → Bool → List Char →
    Option (Json × List Char)
  | 0, _, _, _, _ => none
  | fuel + 1, depth, collected, escaped, chars =>
    match chars.dropWhile isSpace with
    | '"' :: start =>
      match readText? start with
      | none => none
      | some (name, afterName) =>
        match afterName.dropWhile isSpace with
        | ':' :: valueText =>
          match readValue? fuel depth valueText with
          | none => none
          | some (value, after) =>
            let members := collected.bind fun earlier =>
              name.map fun known => (known, value) :: earlier
            let escapes := escaped || isEscaped start
            match after.dropWhile isSpace with
            | ',' :: rest => readMembers? fuel depth members escapes rest
            | '}' :: rest =>
              some (placed depth (members.map fun found => .obj found.reverse escapes), rest)
            | _ => none
        | _ => none
    | _ => none

end

/-- The value of a whole text. -/
def read? (text : String) : Option Json :=
  let chars := text.toList
  match readValue? (2 * chars.length + 4) 0 chars with
  | some (value, rest) => if rest.all isSpace then some value else none
  | none => none

end SegmentPlacement.Json

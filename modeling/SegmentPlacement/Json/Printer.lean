import SegmentPlacement.Decimal.Shortest
import SegmentPlacement.Json.Value

/-! JSON values written as texts: on one line, or with every item and member on
a line of its own, indented by two blanks a level. -/

namespace SegmentPlacement.Json

/-- A hexadecimal digit in lower case. -/
def hexText (value : Nat) : Char := Nat.digitChar (value % 16)

/-- A character as it stands inside quotes. -/
def quotedChar (char : Char) : List Char :=
  match char with
  | '"' => ['\\', '"']
  | '\\' => ['\\', '\\']
  | '\n' => ['\\', 'n']
  | '\r' => ['\\', 'r']
  | '\t' => ['\\', 't']
  | '\x08' => ['\\', 'b']
  | '\x0c' => ['\\', 'f']
  | _ =>
    if char.toNat < 0x20 then ['\\', 'u', '0', '0', hexText (char.toNat / 16), hexText char.toNat]
    else [char]

def quoted (text : String) : String :=
  "\"" ++ String.ofList (text.toList.flatMap quotedChar) ++ "\""

/-- A float always shows a point or an exponent; what is not finite is null. -/
def floatText (number : Float) : String :=
  if number.isFinite then
    let text := Decimal.shortest number
    if text.contains '.' then text else text ++ ".0"
  else "null"

def scalarText : Json → String
  | .null => "null"
  | .bool true => "true"
  | .bool false => "false"
  | .int value => toString value
  | .float number => floatText number.value
  | .str value => quoted value
  | .arr _ => "[]"
  | .obj .. => "\x7b\x7d"
  | .flawed => "null"

mutual

def compact : Json → String
  | .arr items => "[" ++ compactItems items ++ "]"
  | .obj members _ => "\x7b" ++ compactMembers members ++ "\x7d"
  | value => scalarText value

def compactItems : List Json → String
  | [] => ""
  | [item] => compact item
  | item :: rest => compact item ++ "," ++ compactItems rest

def compactMembers : List (String × Json) → String
  | [] => ""
  | [(name, value)] => quoted name ++ ":" ++ compact value
  | (name, value) :: rest => quoted name ++ ":" ++ compact value ++ "," ++ compactMembers rest

end

/-- A line break and the blanks that open a line. -/
def newline (level : Nat) : String := "\n" ++ String.ofList (List.replicate (2 * level) ' ')

mutual

/-- The value laid out over lines, with its first line already opened at `level`. -/
def indented (level : Nat) : Json → String
  | .arr (item :: rest) =>
    "[" ++ indentedItems (level + 1) (item :: rest) ++ newline level ++ "]"
  | .obj (member :: rest) _ =>
    "\x7b" ++ indentedMembers (level + 1) (member :: rest) ++ newline level ++ "\x7d"
  | value => scalarText value

def indentedItems (level : Nat) : List Json → String
  | [] => ""
  | [item] => newline level ++ indented level item
  | item :: rest => newline level ++ indented level item ++ "," ++ indentedItems level rest

def indentedMembers (level : Nat) : List (String × Json) → String
  | [] => ""
  | [(name, value)] => newline level ++ quoted name ++ ": " ++ indented level value
  | (name, value) :: rest =>
    newline level ++ quoted name ++ ": " ++ indented level value ++ "," ++ indentedMembers level rest

end

def pretty (value : Json) : String := indented 0 value

end SegmentPlacement.Json

import SegmentPlacement.Json.Value
import SegmentPlacement.OrderedMap
import SegmentPlacement.Text.Numeral

/-! Reading typed values out of JSON values. A record is an object whose known
members occur at most once, or the array of its members in their fixed order. -/

namespace SegmentPlacement.Json

/-- How one type is read from a JSON value; `none` refuses the value. -/
abbrev Decoder (α : Type) := Json → Option α

def bool? : Decoder Bool
  | .bool value => some value
  | _ => none

def str? : Decoder String
  | .str value => some value
  | _ => none

/-- A natural number of the given number of bits. -/
def word? (bits : Nat) : Decoder Nat
  | .int value => if 0 ≤ value ∧ value < wordCount bits then some value.toNat else none
  | _ => none

/-- A signed number of the given number of bits. -/
def signed? (bits : Nat) : Decoder Int
  | .int value => if -Int.ofNat (wordCount (bits - 1)) ≤ value ∧ value < wordCount (bits - 1) then some value else none
  | _ => none

/-- A float by sign and magnitude, for which a whole number may stand. -/
def signedFloat? : Decoder Decimal.Signed
  | .float value => some value
  | .int value => some { negative := value < 0, magnitude := Float.ofNat value.natAbs }
  | _ => none

def float? : Decoder Float := fun value => (signedFloat? value).map Decimal.Signed.value

def list? (item? : Decoder α) : Decoder (List α)
  | .arr items => items.mapM item?
  | _ => none

def option? (value? : Decoder α) : Decoder (Option α)
  | .null => some none
  | value => (value? value).map some

/-- One of several words, or an object with the word as its only member and null in it. -/
def oneOf? (meaning : String → Option α) : Decoder α
  | .str word => meaning word
  | .obj [(word, .null)] _ => meaning word
  | _ => none

/-- An object read as a map; the last of equal keys wins. -/
def map? (value? : Decoder α) : Decoder (OrderedMap String α)
  | .obj members _ => do
    let entries ← members.mapM fun member => (value? member.2).map fun value => (member.1, value)
    return OrderedMap.ofList entries
  | _ => none

/-- An object read as a map whose keys are words with a meaning. -/
def keyedMap? [Ord κ] [Std.TransOrd κ] [Std.LawfulEqOrd κ] (key? : String → Option κ)
    (value? : Decoder α) : Decoder (OrderedMap κ α)
  | .obj members _ => do
    let entries ← members.mapM fun member => do
      let key ← key? member.1
      let value ← value? member.2
      return (key, value)
    return OrderedMap.ofList entries
  | _ => none

/-- A number of the given number of bits as the name of a member, without needless zeros. -/
def wordName? (bits : Nat) (name : String) : Option Nat :=
  (Text.unsigned? (wordCount bits) name.toList).filter fun number => toString number = name

/-- An object read as a map whose keys are numbers; they are written without escapes. -/
def numberedMap? (bits : Nat) (value? : Decoder α) : Decoder (OrderedMap Nat α)
  | .obj _ true => none
  | value => keyedMap? (wordName? bits) value? value

/-- A set of names; repetitions count once. -/
def nameSet? (value : Json) : Option NameSet := (list? str? value).map OrderedMap.ofKeys

/-- The known members of a record. -/
abbrev Members := List (String × Json)

/-- The known members of an object, none of which may be repeated, or of an array of members. -/
def members? (names : List String) : Decoder Members
  | .obj members _ =>
    let known := members.filter fun member => names.contains member.1
    if (known.map Prod.fst).Nodup then some known else none
  | .arr items => if items.length ≤ names.length then some (names.zip items) else none
  | _ => none

def Members.required (members : Members) (name : String) (value? : Decoder α) : Option α :=
  match members.lookup name with
  | some value => value? value
  | none => none

/-- A member that has a value of its own when it is missing. -/
def Members.withDefault (members : Members) (name : String) (value? : Decoder α) (default : α) :
    Option α :=
  match members.lookup name with
  | some value => value? value
  | none => some default

/-- A member that may be missing or null. -/
def Members.optional (members : Members) (name : String) (value? : Decoder α) : Option (Option α) :=
  members.withDefault name (option? value?) none

/-- The kind of a tagged record and its other members, as an object or as an array led by the
kind. All of the record has to be sound, its unknown members included. -/
def tagged? (tag : String) (value : Json) : Option (String × Json) :=
  match value with
  | .obj members _ =>
    match members.filter fun member => member.1 == tag with
    | [(_, .str kind)] =>
      if value.isSound then some (kind, .obj (members.filter fun member => member.1 != tag))
      else none
    | _ => none
  | .arr (.str kind :: rest) => if value.isSound then some (kind, .arr rest) else none
  | _ => none

/-- A word for each possible value of an optional member. -/
def ofOption (encode : α → Json) : Option α → Json
  | some value => encode value
  | none => .null

def ofNat (value : Nat) : Json := .int value

def ofStrings (values : List String) : Json := .arr (values.map .str)

def ofMap (encode : α → Json) (map : OrderedMap String α) : Json :=
  .obj (map.entries.map fun entry => (entry.1, encode entry.2))

def ofKeyedMap [Ord κ] (keyText : κ → String) (encode : α → Json) (map : OrderedMap κ α) : Json :=
  .obj (map.entries.map fun entry => (keyText entry.1, encode entry.2))

def ofNameSet (names : NameSet) : Json := ofStrings names.keys

end SegmentPlacement.Json

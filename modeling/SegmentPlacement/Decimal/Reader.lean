import SegmentPlacement.Text.Numeral

/-! Floats written in decimal: an optional sign, digits with an optional point
and an optional exponent, or the words for infinity and for no number. The
nearest float is taken. -/

namespace SegmentPlacement.Decimal

open Text

/-- The digits before, and behind, the point and the exponent of a written number. -/
structure Parts where
  front : List Char
  back : List Char
  exponent : Int
  deriving DecidableEq, Repr

/-- The value of a list of digits. -/
def valueOf (digits : List Char) : Nat := (digits? digits).getD 0

/-- An exponent after its letter. -/
def exponent? (chars : List Char) : Option Int :=
  match chars with
  | '+' :: rest => (digits? rest).map Int.ofNat
  | '-' :: rest => (digits? rest).map fun magnitude => -Int.ofNat magnitude
  | _ => (digits? chars).map Int.ofNat

/-- Digits with at most one point, of which at least one digit, then an exponent. -/
def parts? (chars : List Char) : Option Parts :=
  let front := chars.takeWhile isDigit
  let afterFront := chars.dropWhile isDigit
  let (back, afterBack) := match afterFront with
    | '.' :: rest => (rest.takeWhile isDigit, rest.dropWhile isDigit)
    | rest => ([], rest)
  if front.isEmpty ∧ back.isEmpty then none
  else match afterBack with
    | [] => some ⟨front, back, 0⟩
    | letter :: rest =>
      if letter = 'e' ∨ letter = 'E' then (exponent? rest).map fun power => ⟨front, back, power⟩
      else none

/-- The float nearest to `digits * 10 ^ power`. -/
def nearest (digits : Nat) (power : Int) : Float :=
  if digits = 0 then 0.0
  else if 400 < power then 1.0 / 0.0
  else if power < -400 ∧ digits < Nat.pow 10 ((-400 - power).toNat.min 5000) then 0.0
  else if 0 ≤ power then Float.ofScientific digits false power.toNat
  else Float.ofScientific digits true (-power).toNat

def Parts.toFloat (parts : Parts) : Float :=
  nearest (valueOf (parts.front ++ parts.back)) (parts.exponent - parts.back.length)

/-- A text in lower case, as far as ASCII goes. -/
def lowered (chars : List Char) : String := String.ofList (chars.map Char.toLower)

def magnitude? (chars : List Char) : Option Float :=
  if lowered chars = "inf" ∨ lowered chars = "infinity" then some (1.0 / 0.0)
  else if lowered chars = "nan" then some (0.0 / 0.0)
  else (parts? chars).map Parts.toFloat

def read? (chars : List Char) : Option Float :=
  match chars with
  | '+' :: rest => magnitude? rest
  | '-' :: rest => (magnitude? rest).map fun magnitude => -magnitude
  | _ => magnitude? chars

end SegmentPlacement.Decimal

import SegmentPlacement.Decimal.Reader
import SegmentPlacement.Json.Reader

/-! Numbers in settings files: whole numbers of signed 64-bit words, in decimal
or behind the mark of another base, and floats. Underscores may part digits. -/

namespace SegmentPlacement.Toml

/-- Digits in which each underscore stands between two of them. -/
def plainDigits? (isDigit : Char → Bool) (chars : List Char) : Option (List Char) :=
  let groups := chars.splitOn '_'
  if groups.all fun group => ¬ group.isEmpty ∧ group.all isDigit then some groups.flatten
  else none

/-- A whole part in decimal has no needless zero in front. -/
def wholeDigits? (chars : List Char) : Option (List Char) := do
  let digits ← plainDigits? Text.isDigit chars
  if digits.head? = some '0' ∧ 1 < digits.length then none else return digits

/-- Whether a minus sign comes first, and what follows the sign. -/
def splitSign (chars : List Char) : Bool × List Char :=
  match chars with
  | '-' :: rest => (true, rest)
  | '+' :: rest => (false, rest)
  | _ => (false, chars)

/-- The digit of a base. -/
def digitOf? (base : Nat) (char : Char) : Option Nat := (Json.hexDigit? char).filter (· < base)

/-- The number that digits of a base write. -/
def based? (base : Nat) (chars : List Char) : Option Int := do
  let digits ← plainDigits? (fun char => (digitOf? base char).isSome) chars
  return digits.foldl (fun (value : Int) char => value * base + (digitOf? base char).getD 0) 0

def decimal? (chars : List Char) : Option Int := do
  let (negative, unsigned) := splitSign chars
  let magnitude : Int := Decimal.valueOf (← wholeDigits? unsigned)
  return if negative then -magnitude else magnitude

/-- A whole number, which has to fit a word. Other bases take no sign. -/
def whole? (chars : List Char) : Option Json := do
  let value ← match chars with
    | '0' :: 'x' :: digits => based? 16 digits
    | '0' :: 'o' :: digits => based? 8 digits
    | '0' :: 'b' :: digits => based? 2 digits
    | _ => decimal? chars
  if leastWord ≤ value ∧ value ≤ greatestWord then return .int value else none

def isExponentLetter (char : Char) : Bool := char == 'e' || char == 'E'

/-- An exponent behind its letter. -/
def exponent? (chars : List Char) : Option Int := do
  let (negative, unsigned) := splitSign chars
  let magnitude : Int := Decimal.valueOf (← plainDigits? Text.isDigit unsigned)
  return if negative then -magnitude else magnitude

/-- The parts of a number without its sign. -/
def parts? (chars : List Char) : Option Decimal.Parts := do
  let mantissa := chars.takeWhile fun char => !isExponentLetter char
  let front ← wholeDigits? (mantissa.takeWhile (· ≠ '.'))
  let back ← match mantissa.dropWhile (· ≠ '.') with
    | [] => some []
    | _ :: digits => plainDigits? Text.isDigit digits
  let exponent ← match chars.dropWhile fun char => !isExponentLetter char with
    | [] => some 0
    | _ :: digits => exponent? digits
  return { front, back, exponent }

/-- A float; digits may fall below all floats but not rise above them. -/
def float? (chars : List Char) : Option Json := do
  let (negative, unsigned) := splitSign chars
  let signed (magnitude : Float) : Json := .float { negative, magnitude }
  if unsigned = "inf".toList then return signed (1.0 / 0.0)
  if unsigned = "nan".toList then return signed (0.0 / 0.0)
  let magnitude := (← parts? unsigned).toFloat
  if magnitude.isInf ∧ ¬ negative then none else return signed magnitude

/-- A number; whatever shows a point or an exponent is a float. -/
def number? (chars : List Char) : Option Json :=
  match whole? chars, decimal? chars with
  | some value, _ => some value
  | none, some _ => none
  | none, none => float? chars

end SegmentPlacement.Toml

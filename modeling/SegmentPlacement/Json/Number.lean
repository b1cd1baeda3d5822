import SegmentPlacement.Json.Value
import SegmentPlacement.Text.Numeral

/-! Numbers in JSON texts. A whole number within range is kept exact; any other
number becomes the float of its leading digits, as many as 64 bits hold, scaled
by powers of ten of at most 308 places. -/

namespace SegmentPlacement.Json

open Text

/-- Reads digits into a significand until the next one would not fit into 64 bits. Answers the
significand, how many digits it took, and how many are left over. -/
def fillSignificand (significand taken : Nat) : List Char → Nat × Nat × Nat
  | [] => (significand, taken, 0)
  | char :: rest =>
    let next := 10 * significand + (digit? char).getD 0
    if next < wordCount 64 then fillSignificand next (taken + 1) rest
    else (significand, taken, rest.length + 1)

/-- The power of ten nearest to `10 ^ places`, for at most 308 places. -/
def powerOfTen (places : Nat) : Float := Float.ofScientific 1 false places

/-- The float of `significand * 10 ^ exponent`, unless it is too great for a float. -/
def scale? : Nat → Float → Int → Option Float
  | 0, _, _ => none
  | fuel + 1, significand, exponent =>
    if exponent.natAbs ≤ 308 then
      if 0 ≤ exponent then
        let scaled := significand * powerOfTen exponent.natAbs
        if scaled.isInf then none else some scaled
      else some (significand / powerOfTen exponent.natAbs)
    else if significand == 0.0 then some significand
    else if 0 ≤ exponent then none
    else scale? fuel (significand / powerOfTen 308) (exponent + 308)

/-- The parts of a number's text. -/
structure Lexeme where
  negative : Bool
  whole : List Char
  /-- The digits behind the point, when there is one. -/
  fraction : Option (List Char)
  /-- Whether the exponent is positive, and its digits, when there is one. -/
  exponent : Option (Bool × List Char)

/-- The exponent's value, held within the range of 32-bit words. -/
def saturate (exponent : Int) : Int := max (-0x80000000) (min 0x7FFFFFFF exponent)

def Lexeme.float? (lexeme : Lexeme) : Option Decimal.Signed := do
  let (high, _, dropped) := fillSignificand 0 0 lexeme.whole
  let (significand, places, _) := fillSignificand high 0 (lexeme.fraction.getD [])
  let start := Int.ofNat dropped - Int.ofNat places
  let magnitude ← match lexeme.exponent with
    | none => scale? 8 (Float.ofNat significand) start
    | some (positive, digits) =>
      let power := (digits? digits).getD 0
      if 0x80000000 ≤ power then (if positive ∧ significand ≠ 0 then none else some 0.0)
      else
        let signed : Int := if positive then power else -(power : Int)
        scale? 10000000 (Float.ofNat significand) (saturate (start + signed))
  return { negative := lexeme.negative, magnitude }

/-- A number without point and exponent is whole when it is in range and not a negative zero. -/
def Lexeme.value? (lexeme : Lexeme) : Option Json :=
  let magnitude := (digits? lexeme.whole).getD 0
  if lexeme.fraction.isNone ∧ lexeme.exponent.isNone ∧ ¬ lexeme.negative ∧ (magnitude : Int) ≤ greatestInt then
    some (.int magnitude)
  else if lexeme.fraction.isNone ∧ lexeme.exponent.isNone ∧ lexeme.negative
      ∧ 0 < magnitude ∧ leastInt ≤ -(magnitude : Int) then
    some (.int (-(magnitude : Int)))
  else lexeme.float?.map .float

/-- The digits at the front, of which there must be one. -/
def takeDigits? (chars : List Char) : Option (List Char × List Char) :=
  let digits := chars.takeWhile isDigit
  if digits.isEmpty then none else some (digits, chars.dropWhile isDigit)

/-- The whole part has no needless zero in front. -/
def takeWhole? (chars : List Char) : Option (List Char × List Char) :=
  match chars with
  | '0' :: rest => if (rest.head?.map isDigit).getD false then none else some (['0'], rest)
  | _ => takeDigits? chars

def takeFraction? (chars : List Char) : Option (Option (List Char) × List Char) :=
  match chars with
  | '.' :: rest => (takeDigits? rest).map fun (digits, after) => (some digits, after)
  | _ => some (none, chars)

def takeExponent? (chars : List Char) : Option (Option (Bool × List Char) × List Char) :=
  match chars with
  | letter :: rest =>
    if letter = 'e' ∨ letter = 'E' then
      let (positive, digits) := match rest with
        | '+' :: tail => (true, tail)
        | '-' :: tail => (false, tail)
        | _ => (true, rest)
      (takeDigits? digits).map fun (found, after) => (some (positive, found), after)
    else some (none, chars)
  | [] => some (none, chars)

/-- A number at the front of a text, and the text behind it. A number that is too great is
flawed. -/
def readNumber? (chars : List Char) : Option (Json × List Char) := do
  let (negative, unsigned) := match chars with
    | '-' :: rest => (true, rest)
    | _ => (false, chars)
  let (whole, afterWhole) ← takeWhole? unsigned
  let (fraction, afterFraction) ← takeFraction? afterWhole
  let (exponent, rest) ← takeExponent? afterFraction
  return ((Lexeme.value? ⟨negative, whole, fraction, exponent⟩).getD .flawed, rest)

end SegmentPlacement.Json

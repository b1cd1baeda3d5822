import SegmentPlacement.Decimal.Signed

/-! Finite floats as exact numbers, and quotients of natural numbers compared
and rounded without error. -/

namespace SegmentPlacement.Decimal

/-- The number `significand * 2 ^ exponent`, negated when `negative` is set. -/
structure Exact where
  negative : Bool
  significand : Nat
  exponent : Int
  deriving DecidableEq, Repr

/-- The exponent that all subnormal floats share with the smallest normal ones. -/
def leastExponent : Int := -1074

/-- The significand of a power of two, whose leading bit a normal float leaves out. -/
def hiddenBit : Nat := 0x10000000000000

/-- The exact value of a float, unless it is infinite or no number. -/
def Exact.ofFloat? (number : Float) : Option Exact :=
  let bits := number.toBits.toNat
  let fraction := bits % hiddenBit
  let biased := bits / hiddenBit % 0x800
  if biased = 0x7FF then none
  else if biased = 0 then some ⟨isNegative number, fraction, leastExponent⟩
  else some ⟨isNegative number, hiddenBit + fraction, leastExponent + Int.ofNat biased - 1⟩

/-- The numerator of the magnitude over `Exact.denominator`. -/
def Exact.numerator (number : Exact) : Nat := number.significand <<< number.exponent.toNat

def Exact.denominator (number : Exact) : Nat := 1 <<< (-number.exponent).toNat

/-- The integer nearest to `numerator / denominator`; a half goes to the even neighbour. -/
def roundToEven (numerator denominator : Nat) : Nat :=
  let floor := numerator / denominator
  let twice := 2 * (numerator % denominator)
  if twice < denominator then floor
  else if denominator < twice then floor + 1
  else if floor % 2 = 0 then floor else floor + 1

/-- The sign of a written number. -/
def signText (negative : Bool) : String := if negative then "-" else ""

/-- How infinities and non-numbers are written. -/
def nonFiniteText (number : Float) : String :=
  if number.isNaN then "NaN" else signText (isNegative number) ++ "inf"

/-- The float rounded to an integer, a half to the even neighbour. -/
def whole (number : Float) : String :=
  match Exact.ofFloat? number with
  | some exact =>
    signText exact.negative ++ toString (roundToEven exact.numerator exact.denominator)
  | none => nonFiniteText number

end SegmentPlacement.Decimal

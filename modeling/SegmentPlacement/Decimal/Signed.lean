/-! Floats split into sign and magnitude. The sign of zero survives, and so does
the sign of what is no number, which a float alone does not show. -/

namespace SegmentPlacement.Decimal

/-- Whether the sign bit is set, which tells `-0.0` from `0.0`. -/
def isNegative (number : Float) : Bool := 0x8000000000000000 ≤ number.toBits.toNat

/-- The float `magnitude`, negated when `negative` is set. -/
structure Signed where
  negative : Bool
  magnitude : Float
  deriving DecidableEq

namespace Signed

def ofFloat (number : Float) : Signed := ⟨isNegative number, number.abs⟩

def value (number : Signed) : Float :=
  if number.negative then -number.magnitude else number.magnitude

/-- The float's bits, the sign foremost. -/
def bits (number : Signed) : Nat :=
  (if number.negative then 0x8000000000000000 else 0) + number.magnitude.toBits.toNat

end Signed

end SegmentPlacement.Decimal

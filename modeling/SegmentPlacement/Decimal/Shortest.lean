import SegmentPlacement.Decimal.Exact

/-! The shortest decimal text of a float: of all decimals that read back as the
float it has the fewest digits, and of those it is the nearest. It is always
written positionally. -/

namespace SegmentPlacement.Decimal

/-- The number `digits * 10 ^ scale`. -/
structure Scaled where
  digits : Nat
  scale : Int
  deriving DecidableEq, Repr

/-- The power of ten with the given number of zeros. -/
def tenTo (zeros : Nat) : Nat := Nat.pow 10 zeros

/-- Compares a scaled decimal with `numerator / denominator`. -/
def Scaled.compareTo (number : Scaled) (numerator denominator : Nat) : Ordering :=
  compare (number.digits * tenTo number.scale.toNat * denominator)
    (numerator * tenTo (-number.scale).toNat)

/-- The distance to `numerator / denominator`, times a factor that depends on the scale alone. -/
def Scaled.distance (number : Scaled) (numerator denominator : Nat) : Nat :=
  let own := number.digits * tenTo number.scale.toNat * denominator
  let other := numerator * tenTo (-number.scale).toNat
  (own - other) + (other - own)

/-- The numbers that round to one float, as numerators over a common denominator. -/
structure Interval where
  least : Nat
  value : Nat
  greatest : Nat
  denominator : Nat
  /-- Whether the ends themselves round to the float. -/
  closed : Bool

/-- Halfway to both neighbours; below a power of two the lower neighbour is nearer. -/
def Exact.interval (number : Exact) : Interval :=
  let unit := 1 <<< number.exponent.toNat
  let atPower := decide (number.significand = hiddenBit ∧ leastExponent < number.exponent)
  { least := (4 * number.significand - (if atPower then 1 else 2)) * unit
    value := 4 * number.significand * unit
    greatest := (4 * number.significand + 2) * unit
    denominator := 4 * number.denominator
    closed := number.significand % 2 = 0 }

def Interval.holds (interval : Interval) (number : Scaled) : Bool :=
  let low := number.compareTo interval.least interval.denominator
  let high := number.compareTo interval.greatest interval.denominator
  if interval.closed then low != .lt && high != .gt else low == .gt && high == .lt

/-- The position of the leading digit: the value lies below `10 ^ p` and not below `10 ^ (p - 1)`. -/
def leadingPosition (numerator denominator : Nat) : Int :=
  if denominator ≤ numerator then (toString (numerator / denominator)).length
  else go 400 0 (numerator * 10)
where
  go : Nat → Int → Nat → Int
    | 0, position, _ => position
    | fuel + 1, position, scaled =>
      if denominator ≤ scaled then position else go fuel (position - 1) (scaled * 10)

/-- The decimals next to the value on the grid of step `10 ^ scale`. -/
def Interval.neighbours (interval : Interval) (scale : Int) : List Scaled :=
  let floor := interval.value * tenTo (-scale).toNat / (interval.denominator * tenTo scale.toNat)
  [⟨floor, scale⟩, ⟨floor + 1, scale⟩].filter interval.holds

/-- The nearest of the given decimals, the greater of two equally near ones. -/
def Interval.nearest? (interval : Interval) : List Scaled → Option Scaled
  | [] => none
  | [only] => some only
  | low :: high :: _ =>
    if low.distance interval.value interval.denominator
        < high.distance interval.value interval.denominator then some low else some high

/-- The first grid, from one digit up, with a decimal that reads back. -/
def Interval.shortest (interval : Interval) : Scaled :=
  let position := leadingPosition interval.value interval.denominator
  let grids := (List.range 17).map fun count => position - (Int.ofNat count + 1)
  (grids.findSome? fun scale => interval.nearest? (interval.neighbours scale)).getD
    ⟨interval.value / interval.denominator, 0⟩

/-- Without zeros after the last digit that counts behind the point. -/
def Scaled.trim : Nat → Scaled → Scaled
  | 0, number => number
  | fuel + 1, number =>
    if number.scale < 0 ∧ number.digits % 10 = 0 then
      Scaled.trim fuel ⟨number.digits / 10, number.scale + 1⟩
    else number

/-- All digits in their places, with a point only before a fraction. -/
def Scaled.text (number : Scaled) : String :=
  let trimmed := number.trim 20
  let digits := toString trimmed.digits
  let places := (-trimmed.scale).toNat
  if places = 0 then digits ++ String.ofList (List.replicate trimmed.scale.toNat '0')
  else
    let padded := String.ofList (List.replicate (places + 1 - digits.length) '0') ++ digits
    let front := padded.length - places
    String.ofList (padded.toList.take front) ++ "." ++ String.ofList (padded.toList.drop front)

def shortest (number : Float) : String :=
  match Exact.ofFloat? number with
  | none => nonFiniteText number
  | some exact =>
    let magnitude := if exact.significand = 0 then "0" else exact.interval.shortest.text
    signText exact.negative ++ magnitude

end SegmentPlacement.Decimal

import SegmentPlacement.Decimal.Signed

/-! How often an update is tried, and how long it pauses between two attempts. -/

namespace SegmentPlacement

inductive RetryPolicy where
  | fixed (attempts delayMs : Nat)
  | exponential (attempts initialMs : Nat) (multiplier : Decimal.Signed)
  | random (attempts leastMs greatestMs : Nat)
  deriving DecidableEq

namespace RetryPolicy

/-- For writes to the ideal state: 20 attempts, 100 to 200 ms apart. -/
def stateUpdate : RetryPolicy := .random 20 100 200

/-- Five attempts, the pauses doubling from one second. -/
def doubling : RetryPolicy := .exponential 5 1000 (.ofFloat 2.0)

/-- The number of attempts; there is always one. -/
def maxAttempts : RetryPolicy → Nat
  | .fixed attempts _ | .exponential attempts _ _ | .random attempts _ _ => max attempts 1

/-- `result * base ^ exponent` by repeated squaring, the low bits of the exponent first. -/
def power (result base : Float) (exponent : Nat) : Float :=
  let taken := if exponent % 2 = 1 then result * base else result
  if exponent < 2 then taken else power taken (base * base) (exponent / 2)
termination_by exponent

/-- The factor after a number of failed attempts: it never shrinks and stops growing after 32. -/
def growth (multiplier : Float) (failed : Nat) : Float :=
  power 1.0 (if 1.0 < multiplier then multiplier else 1.0) (min failed 32)

/-- The shortest and the longest pause, in milliseconds, after the attempt counted from 0. -/
def pause (policy : RetryPolicy) (attempt : Nat) : Nat × Nat :=
  match policy with
  | .fixed _ delay => (delay, delay)
  | .exponential _ initial multiplier =>
    let delay := (Float.ofNat initial * growth multiplier.value attempt).toUInt64.toNat
    (delay, delay)
  | .random _ least greatest => (min least greatest, max least greatest)

end RetryPolicy

end SegmentPlacement

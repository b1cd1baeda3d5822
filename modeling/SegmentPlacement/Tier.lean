import SegmentPlacement.Clock
import SegmentPlacement.Segment
import SegmentPlacement.Table

/-! Which tier a segment belongs to. Fixed tiers come first, in the order of the
configuration, then time tiers from the oldest age down; the first tier that
takes a segment wins. -/

namespace SegmentPlacement

/-- A tier with its age read. -/
structure Tier where
  config : TierConfig
  /-- Seconds; fixed tiers have none. -/
  age : Option Nat
  deriving DecidableEq, Repr

namespace Tier

/-- Whether the tier takes a segment at the time `now`. A segment without an end has no age. -/
def takes (tier : Tier) (segment : Segment) (now : Int) : Bool :=
  match tier.config.rule, tier.age with
  | .fixed segments, _ => segments.contains segment.name
  | .time _, some age =>
    match segment.endTimeMs with
    | some endTime => Clock.milliseconds age < Clock.since endTime now
    | none => false
  | .time _, none => false

/-- Whether the first tier may stand before the second. -/
def precedes (first second : Tier) : Bool :=
  match first.age, second.age with
  | none, _ => true
  | some _, none => false
  | some older, some younger => younger ≤ older

/-- The tiers in order of precedence; tiers of equal rank keep their order. -/
def sort (tiers : List TierConfig) : Except Error (List Tier) := do
  let read ← tiers.mapM fun config => config.ageSeconds.map fun age => ({ config, age } : Tier)
  return read.mergeSort precedes

/-- The first tier that takes a segment. -/
def select? (tiers : List Tier) (segment : Segment) (now : Int) : Option Tier :=
  tiers.find? fun tier => tier.takes segment now

end Tier

end SegmentPlacement

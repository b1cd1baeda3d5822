import SegmentPlacement.Move
import SegmentPlacement.Rebalance.Summary

/-! The consuming segments that a rebalance moves, and how far behind the stream
their new replicas begin. -/

namespace SegmentPlacement

/-- What a source of facts answers within its time. -/
inductive Answer (α : Type) where
  | given (value : α)
  | failed
  | late
  deriving DecidableEq, Repr

/-- The answer when there is one. -/
def Answer.value? : Answer α → Option α
  | .given value => some value
  | .failed | .late => none

/-- The latest offset of each stream partition, when it can be told. -/
abbrev OffsetSource := Nat → Answer (Option Int)

/-- A consuming segment that moves, and the servers that take it on. -/
structure MovingSegment where
  name : String
  added : List String
  deriving DecidableEq, Repr

namespace ConsumingSummary

/-- What moves of a segment that is still consuming, when the target changes its servers. -/
def movingSegment? (target : Assignment) (name : String) (held : Replicas) :
    Option MovingSegment :=
  if held.isConsuming then
    (target.get? name).bind fun wanted =>
      if held.keys = wanted.keys then none else some ⟨name, Move.gaining held wanted⟩
  else none

/-- The consuming segments of the target whose servers change. -/
def movingSegments (current target : Assignment) : List MovingSegment :=
  current.entries.filterMap fun entry => movingSegment? target entry.1 entry.2

/-- The latest offset of every stream partition of the moving segments, each asked for once. -/
def latestOffsets (moving : List MovingSegment) (segments : OrderedMap String Segment)
    (offsets : Option OffsetSource) : OrderedMap Nat (Option Int) :=
  match offsets with
  | some source =>
    let partitions := moving.filterMap fun segment =>
      (segments.get? segment.name).map Segment.partition
    (OrderedMap.ofKeys partitions).map fun partition _ => (source partition).value?.join
  | none => {}

/-- How many offsets a segment's new replicas have to catch up. -/
def catchUp (segments : OrderedMap String Segment) (latest : OrderedMap Nat (Option Int))
    (name : String) : Option Int := do
  let segment ← segments.get? name
  let start ← segment.startOffset
  let latest ← (latest.get? segment.partition).join
  return max (latest - start) 0

/-- The age of a segment in whole minutes. -/
def ageMinutes (segment : Segment) (now : Int) : Int := max (now - segment.creationTimeMs) 0 / 60000

/-- The ten greatest, greatest first; equal ones by name. -/
def top (ranked : List RankedSegment) : List RankedSegment :=
  (ranked.mergeSort fun first second =>
    second.value < first.value
      || (first.value = second.value && first.segment ≤ second.segment)).take 10

/-- One more segment for a server. A total with an unknown part stays unknown. -/
def takeOn (server : ConsumingServer) (offsets : Option Int) : ConsumingServer :=
  { added := server.added + 1
    offsetsToCatchUp := match offsets with
      | some value => if 0 ≤ server.offsetsToCatchUp then server.offsetsToCatchUp + value else -1
      | none => -1 }

def serverTotals (moving : List MovingSegment) (offsetsOf : String → Option Int) :
    OrderedMap String ConsumingServer :=
  moving.foldl (fun servers segment =>
    segment.added.foldl (fun servers id =>
      servers.insert id (takeOn ((servers.get? id).getD ⟨0, 0⟩) (offsetsOf segment.name)))
      servers) {}

def compute (current target : Assignment) (segments : OrderedMap String Segment)
    (offsets : Option OffsetSource) (now : Int) : ConsumingSummary :=
  let moving := movingSegments current target
  let offsetsOf := catchUp segments (latestOffsets moving segments offsets)
  let known := moving.filterMap fun segment =>
    (offsetsOf segment.name).map fun value => (⟨segment.name, value⟩ : RankedSegment)
  let ages := moving.filterMap fun segment =>
    (segments.get? segment.name).map fun found =>
      (⟨segment.name, ageMinutes found now⟩ : RankedSegment)
  { moving := moving.length
    mostOffsets := if known.length = moving.length then some (top known) else none
    oldestMinutes := top ages
    servers := serverTotals moving offsetsOf }

end ConsumingSummary

end SegmentPlacement

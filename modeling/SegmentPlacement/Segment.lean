/-! What is known about a segment apart from where it is. -/

namespace SegmentPlacement

inductive SegmentStatus where
  /-- Sealed, with all of its data. -/
  | done
  /-- Still consuming from the stream. -/
  | inProgress
  deriving DecidableEq, Repr, Inhabited

structure Segment where
  name : String
  partitionId : Option Nat := none
  startTimeMs : Option Int := none
  endTimeMs : Option Int := none
  creationTimeMs : Int := 0
  sizeBytes : Nat := 0
  totalDocs : Nat := 0
  status : SegmentStatus := .done
  /-- The stream offset at which the segment began to consume. -/
  startOffset : Option Int := none
  /-- The tier on which the segment was placed last. -/
  targetTier : Option String := none
  deriving DecidableEq, Repr

namespace Segment

def isConsuming (segment : Segment) : Bool := segment.status = .inProgress

/-- Segments without a partition count as partition 0. -/
def partition (segment : Segment) : Nat := segment.partitionId.getD 0

/-- The segment as it consumes from `offset` on. -/
def consumingFrom (segment : Segment) (offset : Int) : Segment :=
  { segment with status := .inProgress, startOffset := some offset }

end Segment

end SegmentPlacement

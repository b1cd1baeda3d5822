import SegmentPlacement.Assignment

/-! One step from the current assignment toward a target. A step keeps a floor of
replicas on servers that already hold a segment, and with batching it gives no
server more segments than the batch allows. -/

namespace SegmentPlacement.Move

/-- One step for one segment: the servers it has in common with its target, then current servers
up to the floor, then new servers up to the size of the target. The floor leaves room for one new
server, so a step is never empty. -/
def nextReplicas (current target : Replicas) (minAvailable : Nat) : Replicas :=
  let floor := min minAvailable (target.size - 1)
  let common := target.filter fun server _ => current.contains server
  let leaving := current.filter fun server _ => ¬ target.contains server
  let arriving := target.filter fun server _ => ¬ current.contains server
  let kept := leaving.entries.take (floor - common.size)
  let added := arriving.entries.take (target.size - (common.size + kept.length))
  (common.insertAll kept).insertAll added

/-- The servers of `next` that do not hold the segment yet. -/
def gaining (current next : Replicas) : List String :=
  next.keys.filter fun server => ¬ current.contains server

/-- The next replicas of a segment, with the numbers of segments that servers gained so far. A
segment is put off when a server that it would add has gained a full batch. -/
def nextSegment (target : Assignment) (minAvailable : Nat) (batch : Option Nat)
    (gained : OrderedMap String Nat) (segment : String) (current : Replicas) :
    Replicas × OrderedMap String Nat :=
  match target.get? segment with
  | none => (current, gained)
  | some wanted =>
    let next := nextReplicas current wanted minAvailable
    match batch with
    | none => (next, gained)
    | some size =>
      let added := gaining current next
      if added.any fun server => size ≤ (gained.get? server).getD 0 then (current, gained)
      else (next, added.foldl (fun gained server => gained.add server 1) gained)

/-- The assignment after the next step. Segments that the target does not mention stay as they
are, and segments that are gone are not created again. -/
def next (current target : Assignment) (minAvailable : Nat) (batch : Option Nat) : Assignment :=
  current.mapAccum (nextSegment target minAvailable batch) {}

/-- Whether every segment of the target that still exists is in place. -/
def reached (current target : Assignment) : Bool :=
  target.entries.all fun entry =>
    match current.get? entry.1 with
    | some replicas => replicas = entry.2
    | none => true

/-- The number of segments whose replicas differ from the earlier ones. -/
def changedSegments (before after : Assignment) : Nat :=
  after.entries.countP fun entry => before.get? entry.1 ≠ some entry.2

end SegmentPlacement.Move

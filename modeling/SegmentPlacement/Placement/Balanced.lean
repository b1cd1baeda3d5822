import SegmentPlacement.Assignment
import SegmentPlacement.Placement.Share

/-! Replicas spread evenly over one list of servers. Segments keep the servers
they are on while these stay within their share, missing replicas go to the
least loaded servers, and what is still uneven is moved one replica at a time. -/

namespace SegmentPlacement.Balanced

/-- The positions of the servers that hold a segment, in increasing order. -/
def heldPositions (servers : List String) (replicas : Replicas) : List Nat :=
  (List.range servers.length).filter fun position => replicas.contains (servers.getD position "")

/-- Keeps positions within their share, up to `replication` of them. -/
def keepReplicas (replication : Nat) (share : Share) (loads : Loads) (held : List Nat) :
    List Nat × Share × Loads :=
  held.foldl (fun (kept, share, loads) position =>
    if kept.length < replication then
      match share.keep? (loads.carried position) with
      | some left => (kept ++ [position], left, Loads.add loads position)
      | none => (kept, share, loads)
    else (kept, share, loads)) ([], share, loads)

/-- Keeps what every segment may keep, one segment after the other. -/
def keepAll (replication : Nat) : Share → Loads → List (List Nat) → List (List Nat) × Loads
  | _, loads, [] => ([], loads)
  | share, loads, held :: rest =>
    let (kept, left, next) := keepReplicas replication share loads held
    let (others, final) := keepAll replication left next rest
    (kept :: others, final)

/-- Moves one replica from the most loaded to the least loaded position, for the first segment
that can do so, unless the two are at most one apart. -/
def evenStep (loads : Loads) (placed : List (List Nat)) : Option (Loads × List (List Nat)) := do
  let high ← greatestOf loads.carried loads.positions
  let low ← leastOf loads.carried loads.positions
  if loads.carried high ≤ loads.carried low + 1 then none
  else
    let segment ← placed.findIdx? fun kept => kept.contains high && !kept.contains low
    return (loads.shift high low,
      placed.modify segment fun kept => kept.map fun position =>
        if position = high then low else position)

/-- Repeats the step until nothing moves. -/
def evenOut : Nat → Loads → List (List Nat) → List (List Nat)
  | 0, _, placed => placed
  | fuel + 1, loads, placed =>
    match evenStep loads placed with
    | some (next, moved) => evenOut fuel next moved
    | none => placed

/-- Each move lowers this sum, so it bounds the number of moves. -/
def unevenness (loads : Loads) : Nat := total (loads.map fun load => load * load)

/-- The positions of every segment, given those that hold it now. -/
def positions (replication slots : Nat) (held : List (List Nat)) : List (List Nat) :=
  let share := Share.divide (held.length * replication) slots
  let (kept, keptLoads) := keepAll replication share (Loads.zero slots) held
  let (filled, loads) := Loads.fillAll replication keptLoads kept
  evenOut (unevenness loads) loads filled

/-- The servers of every segment. -/
def place (replication : Nat) (servers : List String) (segments : List String)
    (prior : Assignment) : List (String × List String) :=
  let held := segments.map fun segment =>
    heldPositions servers ((prior.get? segment).getD {})
  let placed := positions replication servers.length held
  segments.zip (placed.map fun kept => kept.map fun position => servers.getD position "")

end SegmentPlacement.Balanced

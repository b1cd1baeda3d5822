import SegmentPlacement.Assignment
import SegmentPlacement.Placement.Share

/-! Replicas aligned across replica groups. A segment takes one index and is
placed on the server at that index in the list of every group. -/

namespace SegmentPlacement.Aligned

/-- The servers at one index of all lists. -/
def serversAt (lists : List (List String)) (index : Nat) : List String :=
  lists.map fun list => list.getD index ""

/-- How many of the servers at an index hold the segment. -/
def hits (lists : List (List String)) (replicas : Replicas) (index : Nat) : Nat :=
  (serversAt lists index).countP fun server => replicas.contains server

/-- The index that the segment matches best, the lowest of equal ones. -/
def bestIndex? (lists : List (List String)) (slots : Nat) (replicas : Replicas) : Option Nat :=
  greatestOf (hits lists replicas)
    ((List.range slots).filter fun index => 0 < hits lists replicas index)

/-- Keeps the best index of every segment while it is within its share. -/
def keepIndices : Share → Loads → List (Option Nat) → List (Option Nat) × Loads
  | _, loads, [] => ([], loads)
  | share, loads, none :: rest =>
    let (others, final) := keepIndices share loads rest
    (none :: others, final)
  | share, loads, some index :: rest =>
    match share.keep? (loads.carried index) with
    | some left =>
      let (others, final) := keepIndices left (loads.add index) rest
      (some index :: others, final)
    | none =>
      let (others, final) := keepIndices share loads rest
      (none :: others, final)

/-- Gives the least loaded index to every segment that kept none. -/
def fillIndices : Loads → List (Option Nat) → List Nat
  | _, [] => []
  | loads, some index :: rest => index :: fillIndices loads rest
  | loads, none :: rest =>
    let index := (loads.least? []).getD 0
    index :: fillIndices (loads.add index) rest

/-- One index for every segment, given the index that each matches best. -/
def balancedIndices (slots : Nat) (best : List (Option Nat)) : List Nat :=
  let (kept, loads) := keepIndices (Share.divide best.length slots) (Loads.zero slots) best
  fillIndices loads kept

/-- With strict replica groups the index is a function of the partition alone. -/
def strictIndex (partition numPartitions slots : Nat) : Nat := partition / numPartitions % slots

end SegmentPlacement.Aligned

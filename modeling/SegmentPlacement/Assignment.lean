import SegmentPlacement.Load
import SegmentPlacement.OrderedMap

/-! Assignments of segments to servers. What a table should look like and what
its servers report have the same shape: for every segment the state of each of
its replicas. -/

namespace SegmentPlacement

inductive ReplicaState where
  | online
  | consuming
  | offline
  /-- Reported by servers only. -/
  | error
  deriving DecidableEq, Repr, Inhabited

namespace ReplicaState

def text : ReplicaState → String
  | .online => "ONLINE"
  | .consuming => "CONSUMING"
  | .offline => "OFFLINE"
  | .error => "ERROR"

def ofText? : String → Option ReplicaState
  | "ONLINE" => some .online
  | "CONSUMING" => some .consuming
  | "OFFLINE" => some .offline
  | "ERROR" => some .error
  | _ => none

/-- Whether a replica in this state answers queries. -/
def isServing : ReplicaState → Bool
  | .online | .consuming => true
  | _ => false

theorem ofText?_text (state : ReplicaState) : ofText? state.text = some state := by
  cases state <;> rfl

end ReplicaState

/-- The replicas of one segment, by server. -/
abbrev Replicas := OrderedMap String ReplicaState

/-- All servers in the same state. -/
def Replicas.uniform (servers : List String) (state : ReplicaState) : Replicas :=
  OrderedMap.ofList (servers.map fun server => (server, state))

/-- A segment that is still consuming has a consuming replica and none online. -/
def Replicas.isConsuming (replicas : Replicas) : Bool :=
  replicas.values.contains .consuming && !replicas.values.contains .online

/-- The replicas of every segment, by segment. -/
abbrev Assignment := OrderedMap String Replicas

namespace Assignment

/-- Every segment of a server, by server. -/
def byServer (assignment : Assignment) : OrderedMap String (List String) :=
  assignment.foldl (fun hosted segment replicas =>
    replicas.keys.foldl (fun hosted server =>
      hosted.insert server ((hosted.get? server).getD [] ++ [segment])) hosted) {}

/-- How many segments a server hosts. -/
def load (assignment : Assignment) (server : String) : Nat :=
  assignment.values.countP fun replicas => replicas.contains server

/-- The greatest number of replicas of a segment, or `default` when there is no segment. -/
def replication (assignment : Assignment) (default : Nat) : Nat :=
  match assignment.values.map OrderedMap.size with
  | [] => default
  | first :: rest => rest.foldl max first

/-- Replicas of all segments together. -/
def replicaCount (assignment : Assignment) : Nat :=
  total (assignment.values.map OrderedMap.size)

end Assignment

/-- The stored assignment of a table. The version grows with every write. -/
structure IdealState where
  table : String
  version : Nat := 0
  assignment : Assignment := {}
  deriving DecidableEq

end SegmentPlacement

import SegmentPlacement.Assignment
import SegmentPlacement.Clock
import SegmentPlacement.Server

/-! The servers that queries for a segment may be sent to. A candidate is an
enabled server that should serve the segment; it is online when it reports that
it does. New segments keep candidates that are not online yet. -/

namespace SegmentPlacement

structure Candidate where
  server : String
  online : Bool
  pool : Nat := 0
  deriving DecidableEq, Repr

/-- The candidates of every segment at one moment. -/
structure RoutingStates where
  candidates : OrderedMap String (List Candidate) := {}
  /-- Segments that no server can serve. -/
  unavailable : NameSet := {}
  /-- The version of the ideal state that the candidates were taken from. -/
  version : Nat := 0
  deriving DecidableEq

namespace RoutingStates

/-- Candidates in the order of their servers, so that all routers count them alike. -/
def inOrder (candidates : List Candidate) : List Candidate :=
  candidates.mergeSort fun first second => first.server ≤ second.server

/-- States from lists of candidates. A segment with an empty list is unavailable. -/
def ofLists (lists : OrderedMap String (List Candidate)) (unavailable : NameSet) : RoutingStates :=
  { candidates := (lists.filter fun _ list => ¬ list.isEmpty).map fun _ list => inOrder list
    unavailable :=
      unavailable.insertAll ((lists.filter fun _ list => list.isEmpty).keys.map fun segment =>
        (segment, ())) }

/-- Whether a segment has candidates, and which. -/
def candidatesOf? (states : RoutingStates) (segment : String) : Option (List Candidate) :=
  states.candidates.get? segment

end RoutingStates

/-- What candidates depend on besides the assignments. -/
structure CandidateContext where
  servers : List Server
  /-- The time, in milliseconds, of the creation of segments; segments missing here are old. -/
  created : OrderedMap String Int
  now : Int
  /-- How long, in milliseconds, a segment is new. -/
  expirationMs : Nat

namespace CandidateContext

def isNew (context : CandidateContext) (segment : String) : Bool :=
  match context.created.get? segment with
  | some created =>
    Clock.since created context.now ≤ signedWord context.expirationMs
  | none => false

/-- The pools of the enabled servers; the last registration of an id counts. -/
def pools (context : CandidateContext) : OrderedMap String Nat :=
  OrderedMap.ofList
    ((context.servers.filter Server.enabled).map fun server => (server.id, server.pool))

/-- The candidates of one segment. A replica in error shows that the segment was loaded before,
so it is not new. -/
def candidates (context : CandidateContext) (segment : String) (ideal reported : Replicas) :
    List Candidate :=
  let isNew := !reported.values.contains .error && context.isNew segment
  ideal.entries.filterMap fun entry =>
    if entry.2.isServing then
      (context.pools.get? entry.1).bind fun pool =>
        let online := ((reported.get? entry.1).map ReplicaState.isServing).getD false
        if online || isNew then some ⟨entry.1, online, pool⟩ else none
    else none

end CandidateContext

/-- The candidates of all segments of an ideal state. -/
def RoutingStates.build (ideal : IdealState) (view : Assignment) (context : CandidateContext) :
    RoutingStates :=
  let lists := ideal.assignment.map fun segment replicas =>
    context.candidates segment replicas ((view.get? segment).getD {})
  { ofLists lists {} with version := ideal.version }

end SegmentPlacement

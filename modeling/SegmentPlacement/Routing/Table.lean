import SegmentPlacement.Routing.Selector

/-! The routing of one table: the states of the latest refresh, replaced as a
whole, and the selector that reads them. -/

namespace SegmentPlacement

structure RoutingTable where
  selector : Selector
  expirationMs : Nat := 300000
  states : RoutingStates := {}

namespace RoutingTable

/-- Takes the candidates from the latest assignments. -/
def refresh (table : RoutingTable) (ideal : IdealState) (view : Assignment)
    (servers : List Server) (created : OrderedMap String Int) (now : Int) : RoutingTable :=
  { table with
    states := RoutingStates.build ideal view
      { servers, created, now, expirationMs := table.expirationMs } }

def choices (table : RoutingTable) (segments : List String) (request : Nat)
    (options : QueryOptions) : List (String × Option Candidate) :=
  table.selector.choices table.states segments request options

def route (table : RoutingTable) (segments : List String) (request : Nat)
    (options : QueryOptions) : Selection :=
  table.selector.select table.states segments request options

end RoutingTable

end SegmentPlacement

import SegmentPlacement.Cluster.Snapshot
import SegmentPlacement.Placement.Target
import SegmentPlacement.Program

/-! A cluster held in memory. It answers every request of a rebalance, and its
tables, servers and segments can be changed directly. When views follow, a write
of an ideal state is at once what the servers report. -/

namespace SegmentPlacement

structure Store where
  snapshot : Snapshot := {}
  viewsFollow : Bool := true
  /-- How many of the next writes will lose to another writer. -/
  pendingConflicts : Nat := 0
  /-- Ideal states written by compare-and-set. -/
  writes : Nat := 0
  deriving DecidableEq

namespace Store

/-- The store with its snapshot changed. -/
def update (store : Store) (change : Snapshot → Snapshot) : Store :=
  { store with snapshot := change store.snapshot }

def table? (store : Store) (name : String) : Option TableState := store.snapshot.tables.get? name

/-- The store with one of its tables replaced. -/
def setTable (store : Store) (name : String) (table : TableState) : Store :=
  store.update fun snapshot => { snapshot with tables := snapshot.tables.insert name table }

/-- Registers a server, in place of any other of its id. -/
def addServer (store : Store) (server : Server) : Store :=
  store.update fun snapshot =>
    { snapshot with
      servers := (snapshot.servers.filter fun other => other.id ≠ server.id) ++ [server] }

/-- Turns the first server of an id on or off. -/
def enableFirst (id : String) (enabled : Bool) : List Server → List Server
  | [] => []
  | server :: rest =>
    if server.id = id then { server with enabled } :: rest
    else server :: enableFirst id enabled rest

def setEnabled (store : Store) (id : String) (enabled : Bool) : Store :=
  store.update fun snapshot =>
    { snapshot with servers := enableFirst id enabled snapshot.servers }

def putLayout (store : Store) (layout : Layout) : Store :=
  store.update fun snapshot =>
    { snapshot with layouts := snapshot.layouts.insert layout.name layout }

def removeLayout (store : Store) (name : String) : Store :=
  store.update fun snapshot => { snapshot with layouts := snapshot.layouts.erase name }

/-- Computes and stores the layouts of the kinds that have settings, one after the other. What
was stored before a failure stays. -/
def storeLayouts (table : TableConfig) : List LayoutKind → Store → Except Error Unit × Store
  | [], store => (.ok (), store)
  | kind :: rest, store =>
    if (table.layouts.get? kind).isSome then
      match table.computeLayout kind store.snapshot.servers none none with
      | .ok layout => storeLayouts table rest (store.putLayout layout)
      | .error error => (.error error, store)
    else storeLayouts table rest store

/-- Registers a table without segments. -/
def addTable (store : Store) (table : TableConfig) : Except Error Unit × Store :=
  match table.validate with
  | .error error => (.error error, store)
  | .ok () =>
    match storeLayouts table table.layoutKinds store with
    | (.error error, stored) => (.error error, stored)
    | (.ok (), stored) =>
      (.ok (), stored.setTable table.name { config := table, ideal := { table := table.name } })

/-- Replaces the configuration of a table and nothing else. -/
def updateTable (store : Store) (table : TableConfig) : Except Error Unit × Store :=
  match store.table? table.name with
  | none => (.error (.tableNotFound table.name), store)
  | some state => (.ok (), store.setTable table.name { state with config := table })

/-- The stored layouts of a table, computed where there is none. -/
def layoutsFor (store : Store) (table : TableConfig) : Except Error Layouts :=
  table.layoutKinds.foldlM (fun layouts kind =>
    match store.snapshot.layouts.get? (kind.layoutName table.name) with
    | some layout => .ok (layouts.insert kind layout)
    | none =>
      (table.computeLayout kind store.snapshot.servers none none).map fun layout =>
        layouts.insert kind layout) {}

/-- The replicas of a segment that is uploaded to a table. -/
def placeUpload (store : Store) (state : TableState) (segment : Segment) :
    Except Error Replicas := do
  let layouts ← store.layoutsFor state.config
  state.config.placeNew segment state.ideal.assignment layouts

/-- Uploads a segment, placed on the least loaded servers. -/
def addSegment (store : Store) (table : String) (segment : Segment) : Except Error Unit × Store :=
  match store.table? table with
  | none => (.error (.tableNotFound table), store)
  | some state =>
    match store.placeUpload state segment with
    | .error error => (.error error, store)
    | .ok replicas =>
      let ideal := { state.ideal with
        version := state.ideal.version + 1
        assignment := state.ideal.assignment.insert segment.name replicas }
      let view := if store.viewsFollow then state.view.insert segment.name replicas else state.view
      (.ok (), store.setTable table
        { state with ideal, view, segments := state.segments.insert segment.name segment })

/-- The view of servers that do as they are told: all but offline replicas are reported. -/
def followingView (assignment : Assignment) : Assignment :=
  assignment.map fun _ replicas => replicas.filter fun _ state => state ≠ .offline

def unknownTable (table : String) : String := "table " ++ table ++ " does not exist"

/-- Replaces an assignment if the version is still the expected one. A pending conflict counts as
a write of another writer and leaves the assignment as it is. -/
def compareAndSet (store : Store) (table : String) (version : Nat) (assignment : Assignment) :
    Reply Bool × Store :=
  match store.table? table with
  | none => (.error (unknownTable table), store)
  | some state =>
    let bumped := { state.ideal with version := state.ideal.version + 1 }
    if 0 < store.pendingConflicts then
      (.ok false,
        { store.setTable table { state with ideal := bumped } with
          pendingConflicts := store.pendingConflicts - 1 })
    else if state.ideal.version ≠ version then (.ok false, store)
    else
      let view := if store.viewsFollow then followingView assignment else state.view
      (.ok true,
        { store.setTable table { state with ideal := { bumped with assignment }, view } with
          writes := store.writes + 1 })

/-- Changes a table when there is one of the name. -/
def changeTable (store : Store) (name : String) (change : TableState → TableState) : Store :=
  match store.table? name with
  | some state => store.setTable name (change state)
  | none => store

def setView (store : Store) (table : String) (view : Assignment) : Store :=
  store.changeTable table fun state => { state with view }

def setStreamOffset (store : Store) (table : String) (partition : Nat) (offset : Int) : Store :=
  store.changeTable table fun state =>
    { state with streamOffsets := state.streamOffsets.insert partition offset }

def setDiskUsage (store : Store) (server : String) (usage : DiskUsage) : Store :=
  store.update fun snapshot =>
    { snapshot with diskUsage := snapshot.diskUsage.insert server usage }

def setNeedsReload (store : Store) (server : String) : Store :=
  store.update fun snapshot =>
    { snapshot with needsReload := snapshot.needsReload.insert server () }

/-- Records the tiers of the segments that are known. -/
def setTargetTiers (store : Store) (table : String)
    (tiers : OrderedMap String (Option String)) : Reply Unit × Store :=
  match store.table? table with
  | none => (.error (unknownTable table), store)
  | some state =>
    let segments := state.segments.map fun name segment =>
      match tiers.get? name with
      | some targetTier => { segment with targetTier }
      | none => segment
    (.ok (), store.setTable table { state with segments })

/-- The store as the other side of a program. Nobody else writes, nothing is cancelled, and time
does not matter. -/
def respond : Responder Store
  | .idealState table, store => (.ok ((store.table? table).map TableState.ideal), store)
  | .compareAndSet table version assignment, store => store.compareAndSet table version assignment
  | .externalView table, store => (.ok ((store.table? table).map TableState.view), store)
  | .servers, store => (.ok store.snapshot.servers, store)
  | .layout name, store => (.ok (store.snapshot.layouts.get? name), store)
  | .putLayout layout, store => (.ok (), store.putLayout layout)
  | .removeLayout name, store => (.ok (), store.removeLayout name)
  | .segments table, store =>
    (.ok (((store.table? table).map fun state => state.segments.values).getD []), store)
  | .setTargetTiers table tiers, store => store.setTargetTiers table tiers
  | .cancelled, store => (false, store)
  | .pause .., store => ((), store)
  | .report _, store => ((), store)

/-- The store as a source of stream offsets. -/
def offsets (store : Store) (table : String) : OffsetSource := fun partition =>
  .given ((store.table? table).bind fun state => state.streamOffsets.get? partition)

/-- The store as a source for checks. -/
def checker (store : Store) (diskThreshold : Float) : Checker :=
  { diskThreshold
    reload := some fun server => .given (store.snapshot.needsReload.contains server)
    disk := some fun server => .given (store.snapshot.diskUsage.get? server) }

end Store

end SegmentPlacement

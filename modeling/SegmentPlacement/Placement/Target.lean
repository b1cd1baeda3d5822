import SegmentPlacement.Layout.Computed
import SegmentPlacement.Placement.Aligned
import SegmentPlacement.Placement.Balanced
import SegmentPlacement.Tier

/-! The assignment a table should have. Every segment is placed by one layout:
that of its tier, or that of its kind. Segments that share a layout are placed
together, and consuming segments stay where they are unless asked to move. -/

namespace SegmentPlacement

/-- The layouts of a table by kind. -/
abbrev Layouts := OrderedMap LayoutKind Layout

/-- A tier with the layout of its servers. -/
structure TierLayout where
  tier : Tier
  layout : Layout
  deriving DecidableEq

structure PlacementOptions where
  /-- Consuming segments move as well. -/
  includeConsuming : Bool := false
  /-- The prior assignment is ignored. -/
  bootstrap : Bool := false
  /-- The time, in milliseconds, that ages are measured from. -/
  now : Int := 0
  deriving DecidableEq, Repr

structure Target where
  assignment : Assignment
  /-- The tier of every segment that is placed by one. -/
  segmentTiers : OrderedMap String String
  deriving DecidableEq

/-- What a segment is placed by. -/
inductive Home where
  | kind (kind : LayoutKind)
  /-- The position of the tier in order of precedence. -/
  | tier (position : Nat)
  deriving DecidableEq, Repr

/-- A segment as far as its placement goes. -/
structure Member where
  name : String
  partition : Nat
  consuming : Bool
  /-- Segments without a home keep their replicas. -/
  home : Option Home
  deriving DecidableEq, Repr

/-- The state in which a placed segment's replicas start. -/
def placedState (consuming : Bool) : ReplicaState := if consuming then .consuming else .online

namespace TableConfig

/-- The kind of layout for a segment; completed segments fall back on the consuming layout. -/
def kindFor (table : TableConfig) (consuming : Bool) (layouts : Layouts) : LayoutKind :=
  match table.kind with
  | .offline => .offline
  | .realtime =>
    if consuming then .consuming
    else if layouts.contains .completed then .completed else .consuming

/-- A layout that is there and passes its checks. -/
def layoutFor (table : TableConfig) (kind : LayoutKind) (layouts : Layouts) :
    Except Error Layout := do
  match layouts.get? kind with
  | some layout =>
    layout.validate
    return layout
  | none => .error (.invalidLayout (.missing kind.text table.name))

/-- A list of servers long enough for every replica. -/
def checkReplication (table : TableConfig) (available : Nat) : Except Error Unit :=
  if available < table.replication then
    .error (.tooFewServers (table.name ++ " replication") available table.replication)
  else .ok ()

/-- Whether a segment counts as consuming: by what is known of it, else by its replicas. -/
def isConsumingSegment (table : TableConfig) (segment : Option Segment) (replicas : Replicas) :
    Bool :=
  table.isRealtime && match segment with
    | some segment => segment.isConsuming
    | none => replicas.isConsuming

/-- The tier that takes a completed segment, as a position among the tiers. Tiers of one name
count as the first of them. -/
def tierFor (tiers : List TierLayout) (segment : Option Segment) (consuming : Bool) (now : Int) :
    Option Nat := do
  if consuming then none
  else
    let known ← segment
    let selected ← Tier.select? (tiers.map TierLayout.tier) known now
    tiers.findIdx? fun other => other.tier.config.name == selected.config.name

/-- Where one segment of the prior assignment belongs. -/
def member (table : TableConfig) (segments : OrderedMap String Segment) (layouts : Layouts)
    (tiers : List TierLayout) (options : PlacementOptions) (name : String) (replicas : Replicas) :
    Member :=
  let segment := segments.get? name
  let consuming := table.isConsumingSegment segment replicas
  let home :=
    if consuming ∧ ¬ options.includeConsuming ∧ ¬ options.bootstrap then none
    else match tierFor tiers segment consuming options.now with
      | some position => some (.tier position)
      | none => some (.kind (table.kindFor consuming layouts))
  { name, partition := (segment.map Segment.partition).getD 0, consuming, home }

/-- The indices of segments that share a partition. -/
def alignedIndices (table : TableConfig) (layout : Layout) (lists : List (List String))
    (members : List Member) (prior : Assignment) : List Nat :=
  let slots := (lists.headD []).length
  if table.routing.strictReplicaGroup then
    members.map fun member => Aligned.strictIndex member.partition layout.numPartitions slots
  else
    Aligned.balancedIndices slots (members.map fun member =>
      (prior.get? member.name).bind (Aligned.bestIndex? lists slots))

/-- The servers of segments that share one partition of a layout. -/
def placePartition (table : TableConfig) (layout : Layout) (prior : Assignment)
    (partition : Nat) (members : List Member) : Except Error (List (String × List String)) := do
  let lists ← layout.partitionLists partition
  let indices := table.alignedIndices layout lists members prior
  return (members.map Member.name).zip (indices.map (Aligned.serversAt lists))

/-- The servers of segments that share a layout. -/
def placeMembers (table : TableConfig) (layout : Layout) (prior : Assignment)
    (members : List Member) : Except Error (List (String × List String)) := do
  layout.validate
  if layout.isFlat then
    let servers := (layout.servers? 0 0).getD []
    table.checkReplication servers.length
    return Balanced.place table.replication servers (members.map Member.name) prior
  else
    let partitionOf (member : Member) : Nat := member.partition % layout.numPartitions
    let partitions := (OrderedMap.ofKeys (members.map partitionOf)).keys
    let placed ← partitions.mapM fun partition =>
      table.placePartition layout prior partition
        (members.filter fun member => partitionOf member = partition)
    return placed.flatten

/-- The layout of a home. -/
def homeLayout (table : TableConfig) (layouts : Layouts) (tiers : List TierLayout) :
    Home → Except Error Layout
  | .kind kind => table.layoutFor kind layouts
  | .tier position =>
    match tiers[position]? with
    | some found => .ok found.layout
    | none => .error (.invalidLayout (.missing "tier" table.name))

/-- Every home in the order in which homes are served. -/
def allHomes (tiers : List TierLayout) : List Home :=
  [LayoutKind.offline, .consuming, .completed].map Home.kind
    ++ (List.range tiers.length).map Home.tier

/-- The target assignment of all segments of the prior one. -/
def target (table : TableConfig) (segments : OrderedMap String Segment) (layouts : Layouts)
    (tiers : List TierLayout) (prior : Assignment) (options : PlacementOptions) :
    Except Error Target := do
  let baseline := if options.bootstrap then {} else prior
  let describe := table.member segments layouts tiers options
  let members := prior.entries.map fun entry => describe entry.1 entry.2
  let placed ← (allHomes tiers).mapM fun home =>
    match members.filter fun member => member.home = some home with
    | [] => .ok []
    | residents => do
      let layout ← table.homeLayout layouts tiers home
      table.placeMembers layout baseline residents
  let servers := OrderedMap.ofList placed.flatten
  let assignment := prior.map fun name replicas =>
    let member := describe name replicas
    if member.home.isNone then replicas
    else Replicas.uniform ((servers.get? name).getD []) (placedState member.consuming)
  let segmentTiers := members.filterMap fun member =>
    match member.home with
    | some (.tier position) => tiers[position]?.map fun found => (member.name, found.tier.config.name)
    | _ => none
  return { assignment, segmentTiers := OrderedMap.ofList segmentTiers }

/-- The servers for a segment that is added to the current assignment. -/
def newServers (table : TableConfig) (segment : Segment) (current : Assignment) (layout : Layout) :
    Except Error (List String) := do
  if layout.isFlat then
    let servers := (layout.servers? 0 0).getD []
    table.checkReplication servers.length
    let loadOf (position : Nat) : Nat := current.load (servers.getD position "")
    let order := (List.range servers.length).mergeSort fun first second =>
      loadOf first ≤ loadOf second
    return (order.take table.replication).map fun position => servers.getD position ""
  else
    let lists ← layout.partitionLists (segment.partition % layout.numPartitions)
    let front := lists.headD []
    let index :=
      if table.routing.strictReplicaGroup then
        Aligned.strictIndex segment.partition layout.numPartitions front.length
      else
        (leastOf (fun index => current.load (front.getD index "")) (List.range front.length)).getD 0
    return Aligned.serversAt lists index

/-- The replicas of a segment that is added to the current assignment. -/
def placeNew (table : TableConfig) (segment : Segment) (current : Assignment) (layouts : Layouts) :
    Except Error Replicas := do
  let consuming := segment.isConsuming && table.isRealtime
  let layout ← table.layoutFor (table.kindFor consuming layouts) layouts
  let servers ← table.newServers segment current layout
  return Replicas.uniform servers (placedState consuming)

end TableConfig

end SegmentPlacement

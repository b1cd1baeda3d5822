import SegmentPlacement.Layout.Basic
import SegmentPlacement.Load
import SegmentPlacement.Server
import SegmentPlacement.Table

/-! Layouts computed from a pool of servers. A flat layout is the pool itself.
Grouped layouts deal the pool into groups of one size and the members of each
group into partitions. With a layout to keep, servers that are still pooled stay
in their groups and slots as far as the shares allow, and only what is free is
filled up, the least loaded first. -/

namespace SegmentPlacement

/-- The enabled servers with a tag, in increasing order and each once. -/
def serverPool (servers : List Server) (tag : String) : Except Error (List String) :=
  let usable := servers.filter fun server => server.enabled && server.hasTag tag
  let pool := (OrderedMap.ofKeys (usable.map Server.id)).keys
  if pool.isEmpty then .error (.emptyPool tag) else .ok pool

namespace Layout

/-- The item at a position counted around the end of the list. -/
def cyclic (items : List String) (position : Nat) : String :=
  items.getD (position % items.length) ""

/-- The kept servers that are still pooled, then the rest of the pool. -/
def flatServers (pool : List String) (kept : Option (List String)) : List String :=
  match kept with
  | some servers =>
    let stay := servers.filter pool.contains
    stay ++ pool.filter fun server => ¬ stay.contains server
  | none => pool

/-- The number of members of each group. -/
def groupSize (name : String) (pool : List String) (settings : GroupSettings) :
    Except Error Nat := do
  let tooFew (required : Nat) : Error :=
    .tooFewServers (name ++ " replica groups") pool.length required
  let size ←
    if 0 < settings.serversPerGroup then .ok settings.serversPerGroup
    else if settings.numGroups ≤ pool.length then .ok (pool.length / settings.numGroups)
    else if settings.allowReuse then .ok 1
    else .error (tooFew settings.numGroups)
  if size * settings.numGroups ≤ pool.length then return size
  else if settings.allowReuse ∧ size ≤ pool.length then return size
  else .error (tooFew (size * settings.numGroups))

/-- Groups that share servers: consecutive windows around the pool. -/
def windowGroups (pool : List String) (numGroups size : Nat) : List (List String) :=
  (List.range numGroups).map fun group =>
    (List.range size).map fun member => cyclic pool (group * size + member)

/-- The front of the pool dealt out to the groups in turn. -/
def dealtGroups (pool : List String) (numGroups size : Nat) : List (List String) :=
  (List.range numGroups).map fun group =>
    (List.range size).map fun member => pool.getD (member * numGroups + group) ""

/-- What each group keeps of the members it had: those still pooled that no earlier group took,
up to its size. Answers the groups and everything they took. -/
def keptGroups (pool : List String) (size : Nat) (former : List (List String)) :
    List (List String) × List String :=
  former.foldl (fun (groups, used) members =>
    let stay := (members.filter fun member =>
      pool.contains member && !used.contains member).take size
    (groups ++ [stay], used ++ stay)) ([], [])

/-- The smallest group that has room, the first of equal ones. -/
def roomiest? (size : Nat) (groups : List (List String)) : Option Nat :=
  let lengthOf (group : Nat) : Nat := (groups.getD group []).length
  leastOf lengthOf ((List.range groups.length).filter fun group => lengthOf group < size)

/-- Servers added one after the other, each to the smallest group that has room. -/
def topUp (size : Nat) (groups : List (List String)) (servers : List String) :
    List (List String) :=
  servers.foldl (fun groups server =>
    match roomiest? size groups with
    | some group => groups.modify group (· ++ [server])
    | none => groups) groups

/-- Groups that keep the members of another layout's groups where they can. -/
def steadyGroups (pool : List String) (numGroups size : Nat) (prior : Layout) :
    List (List String) :=
  let former := (List.range numGroups).map fun group =>
    if group < prior.numGroups then prior.groupMembers group else []
  let (kept, used) := keptGroups pool size former
  (topUp size kept (pool.filter fun server => ¬ used.contains server)).map fun members =>
    members.mergeSort fun first second => first ≤ second

/-- The members of every group. -/
def groups (pool : List String) (numGroups size : Nat) (prior : Option Layout) :
    List (List String) :=
  if pool.length < size * numGroups then windowGroups pool numGroups size
  else match prior with
    | some prior => steadyGroups pool numGroups size prior
    | none => dealtGroups pool numGroups size

/-- The slots of one group, its members dealt out in turn. -/
def dealtSlots (members : List String) (numPartitions perPartition : Nat) : List (List String) :=
  (List.range numPartitions).map fun partition =>
    (List.range perPartition).map fun member => cyclic members (partition * perPartition + member)

/-- The positions of a slot's former servers that stay, in their order: members below their share
of the slots, each once, up to the size of a slot. -/
def keptSlot (members : List String) (share perPartition : Nat) (loads : Loads)
    (former : List String) : List Nat × Loads :=
  former.foldl (fun (kept, loads) server =>
    match members.idxOf? server with
    | some position =>
      if kept.length < perPartition ∧ ¬ kept.contains position ∧ loads.carried position < share then
        (kept ++ [position], Loads.add loads position)
      else (kept, loads)
    | none => (kept, loads)) ([], loads)

def keptSlots (members : List String) (share perPartition : Nat) :
    Loads → List (List String) → List (List Nat) × Loads
  | loads, [] => ([], loads)
  | loads, former :: rest =>
    let (kept, next) := keptSlot members share perPartition loads former
    let (others, final) := keptSlots members share perPartition next rest
    (kept :: others, final)

/-- The most slots that a member may keep: an equal share, rounded up. -/
def slotShare (members : List String) (numPartitions perPartition : Nat) : Nat :=
  (numPartitions * perPartition + members.length - 1) / members.length

/-- The slots of one group that keep the servers of another layout's slots where they can. -/
def steadySlots (members : List String) (numPartitions perPartition : Nat) (prior : Layout)
    (group : Nat) : List (List String) :=
  let former := (List.range numPartitions).map fun partition =>
    if group < prior.numGroups ∧ partition < prior.numPartitions then
      (prior.servers? partition group).getD []
    else []
  let share := slotShare members numPartitions perPartition
  let (kept, loads) := keptSlots members share perPartition (Loads.zero members.length) former
  (Loads.fillAll perPartition loads kept).1.map fun slot =>
    slot.map fun position => members.getD position ""

def slotsOf (members : List String) (numPartitions perPartition : Nat) (prior : Option Layout)
    (group : Nat) : List (List String) :=
  match prior with
  | some prior => steadySlots members numPartitions perPartition prior group
  | none => dealtSlots members numPartitions perPartition

/-- The number of servers in each slot. -/
def slotSize (name : String) (size : Nat) (settings : GroupSettings) : Except Error Nat :=
  if settings.serversPerPartition = 0 then .ok size
  else if size < settings.serversPerPartition then
    .error (.tooFewServers (name ++ " partition") size settings.serversPerPartition)
  else .ok settings.serversPerPartition

/-- Fills the slots of one group, partition by partition. -/
def setGroup (layout : Layout) (group : Nat) (slots : List (List String)) : Except Error Layout :=
  slots.zipIdx.foldlM (fun layout slot => layout.setServers slot.2 group slot.1) layout

/-- The layout of a pool. The prior layout counts only when movement is to be minimized. -/
def compute (name : String) (pool : List String) (settings : GroupSettings)
    (prior : Option Layout) (minimize : Bool) : Except Error Layout := do
  let kept := if minimize then prior else none
  if pool.isEmpty then .error (.emptyPool name)
  else if ¬ settings.groupBased then
    single name (flatServers pool (kept.bind fun layout => layout.servers? 0 0))
  else if settings.numGroups = 0 ∨ settings.numPartitions = 0 then
    .error (.invalidConfig (.groupCountsNotPositive name))
  else
    let size ← groupSize name pool settings
    let members := groups pool settings.numGroups size kept
    let perPartition ← slotSize name (members.headD []).length settings
    let empty ← create name settings.numPartitions settings.numGroups
    members.zipIdx.foldlM (fun layout group =>
      layout.setGroup group.2
        (slotsOf group.1 settings.numPartitions perPartition kept group.2)) empty

end Layout

/-- The settings with the partition rule applied. -/
def LayoutSettings.resolve (settings : LayoutSettings) (table : TableConfig) :
    Except Error GroupSettings :=
  match settings.partitionRule with
  | .configured => .ok settings.groups
  | .perStreamPartition =>
    match table.streamPartitions with
    | some partitions =>
      .ok { settings.groups with numPartitions := max partitions 1, serversPerPartition := 1 }
    | none => .error (.invalidConfig (.streamPartitionsMissing table.name))

namespace TableConfig

/-- The layout of one kind of segments; `minimize` overrides what the settings say. -/
def computeLayout (table : TableConfig) (kind : LayoutKind) (servers : List Server)
    (prior : Option Layout) (minimize : Option Bool) : Except Error Layout := do
  let name := kind.layoutName table.name
  match table.layouts.get? kind with
  | some settings =>
    let groups ← settings.resolve table
    let pool ← serverPool servers settings.tag
    Layout.compute name pool groups prior (minimize.getD settings.minimizeMovement)
  | none =>
    let pool ← serverPool servers table.serverTag
    Layout.compute name pool {} prior (minimize.getD false)

/-- The layout of a tier is the pool of its tag. -/
def computeTierLayout (table : TableConfig) (tier : TierConfig) (servers : List Server)
    (prior : Option Layout) (minimize : Bool) : Except Error Layout := do
  let pool ← serverPool servers tier.serverTag
  Layout.compute (tier.layoutName table.name) pool {} prior minimize

end TableConfig

end SegmentPlacement

import SegmentPlacement.OrderedMap
import SegmentPlacement.Period

/-! What the configuration of a table says about where its segments belong: its
replication and server tag, how its layouts are computed, and its tiers. -/

namespace SegmentPlacement

inductive TableKind where
  | offline
  | realtime
  deriving DecidableEq, Repr, Inhabited

/-- The ending of the names of all tables of a kind. -/
def TableKind.suffix : TableKind → String
  | .offline => "_OFFLINE"
  | .realtime => "_REALTIME"

/-- The segments that a layout serves. -/
inductive LayoutKind where
  | offline
  | consuming
  | completed
  deriving DecidableEq, Repr, Inhabited

namespace LayoutKind

def text : LayoutKind → String
  | .offline => "OFFLINE"
  | .consuming => "CONSUMING"
  | .completed => "COMPLETED"

def ofText? : String → Option LayoutKind
  | "OFFLINE" => some .offline
  | "CONSUMING" => some .consuming
  | "COMPLETED" => some .completed
  | _ => none

/-- The place of a kind in listings. -/
def rank : LayoutKind → Nat
  | .offline => 0
  | .consuming => 1
  | .completed => 2

theorem rank_injective {first second : LayoutKind} (same : first.rank = second.rank) :
    first = second := by
  cases first <;> cases second <;> first | rfl | cases same

instance : Ord LayoutKind := ⟨fun first second => compare first.rank second.rank⟩

instance : Std.TransOrd LayoutKind where
  eq_swap {first second} := @Std.OrientedCmp.eq_swap Nat compare _ first.rank second.rank
  isLE_trans {first second third} :=
    @Std.TransCmp.isLE_trans Nat compare _ first.rank second.rank third.rank

instance : Std.LawfulEqOrd LayoutKind where
  compare_self {kind} := @Std.ReflCmp.compare_self Nat compare _ kind.rank
  eq_of_compare same := rank_injective (Std.LawfulEqOrd.eq_of_compare same)

end LayoutKind

/-- A table name without the ending of its kind. -/
def rawName (table : String) : String :=
  let chars := table.toList
  let without (suffix : String) : Option String :=
    if suffix.toList.isSuffixOf chars then
      some (String.ofList (chars.take (chars.length - suffix.toList.length)))
    else none
  ((without TableKind.offline.suffix).orElse fun _ => without TableKind.realtime.suffix).getD table

/-- The name of the layout of one kind of segments. -/
def LayoutKind.layoutName (kind : LayoutKind) (table : String) : String :=
  rawName table ++ "_" ++ kind.text

/-- How the numbers of partitions and of servers in each are chosen. -/
inductive PartitionRule where
  /-- As configured. -/
  | configured
  /-- One partition for every stream partition, with one server in each group. -/
  | perStreamPartition
  deriving DecidableEq, Repr, Inhabited

structure GroupSettings where
  groupBased : Bool := false
  numGroups : Nat := 1
  /-- 0 takes as many as the pool has. -/
  serversPerGroup : Nat := 0
  numPartitions : Nat := 1
  /-- 0 takes every member of the group. -/
  serversPerPartition : Nat := 0
  partitionColumn : Option String := none
  /-- One server may sit in several groups when the pool is small. -/
  allowReuse : Bool := false
  deriving DecidableEq, Repr

/-- How a layout is computed from the servers that carry `tag`. -/
structure LayoutSettings where
  tag : String
  groups : GroupSettings := {}
  minimizeMovement : Bool := false
  partitionRule : PartitionRule := .configured
  deriving DecidableEq, Repr

/-- Settings for `numGroups` groups of `serversPerGroup` servers. -/
def LayoutSettings.grouped (tag : String) (numGroups serversPerGroup : Nat) : LayoutSettings :=
  { tag, groups := { groupBased := true, numGroups, serversPerGroup } }

inductive TierRule where
  /-- Segments whose end lies further back than a period. -/
  | time (segmentAge : String)
  /-- Listed segments. -/
  | fixed (segments : List String)
  deriving DecidableEq, Repr

structure TierConfig where
  name : String
  rule : TierRule
  serverTag : String
  deriving DecidableEq, Repr

namespace TierConfig

/-- The age, in seconds, past which a time tier takes segments. -/
def ageSeconds (tier : TierConfig) : Except Error (Option Nat) :=
  match tier.rule with
  | .time segmentAge => (Period.seconds segmentAge).map some
  | .fixed _ => .ok none

def layoutName (tier : TierConfig) (table : String) : String := table ++ "__TIER__" ++ tier.name

end TierConfig

structure RoutingFlags where
  strictReplicaGroup : Bool := false
  /-- Every query of the table sees the replicas in the same order. -/
  useFixedReplica : Bool := false
  deriving DecidableEq, Repr

structure TableConfig where
  /-- With the ending of the table's kind. -/
  name : String
  kind : TableKind
  replication : Nat
  serverTag : String
  layouts : OrderedMap LayoutKind LayoutSettings := {}
  tiers : List TierConfig := []
  routing : RoutingFlags := {}
  pauseless : Bool := false
  streamPartitions : Option Nat := none
  deriving DecidableEq

namespace TableConfig

def offline (raw : String) (replication : Nat) (serverTag : String) : TableConfig :=
  { name := raw ++ TableKind.offline.suffix, kind := .offline, replication, serverTag }

def realtime (raw : String) (replication : Nat) (serverTag : String) (streamPartitions : Nat) :
    TableConfig :=
  { name := raw ++ TableKind.realtime.suffix, kind := .realtime, replication, serverTag,
    streamPartitions := some streamPartitions }

def isRealtime (table : TableConfig) : Bool := table.kind = .realtime

/-- The kinds of layouts that segments of the table are placed by. -/
def layoutKinds (table : TableConfig) : List LayoutKind :=
  match table.kind with
  | .offline => [.offline]
  | .realtime =>
    if table.layouts.contains .completed then [.consuming, .completed] else [.consuming]

/-- The tag of the servers behind a layout. -/
def tagFor (table : TableConfig) (kind : LayoutKind) : String :=
  match table.layouts.get? kind with
  | some settings => settings.tag
  | none => table.serverTag

/-- Every tag that a segment of the table may be placed by. -/
def tags (table : TableConfig) : NameSet :=
  OrderedMap.ofKeys (table.layoutKinds.map table.tagFor ++ table.tiers.map TierConfig.serverTag)

/-- Whether any layout has settings of its own. -/
def hasLayoutSettings (table : TableConfig) : Bool := !table.layouts.isEmpty

def validate (table : TableConfig) : Except Error Unit := do
  if table.replication = 0 then .error (.invalidConfig (.replicationNotPositive table.name))
  else if ¬ table.kind.suffix.toList.isSuffixOf table.name.toList then
    .error (.invalidConfig (.tableNameSuffix table.name table.kind.suffix))
  else table.tiers.forM fun tier => tier.ageSeconds.map fun _ => ()

end TableConfig

end SegmentPlacement

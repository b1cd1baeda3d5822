import SegmentPlacement.Json.Decoder
import SegmentPlacement.Table

/-! The JSON forms of table configurations. -/

namespace SegmentPlacement.Codec

open Json

def ofTableKind : TableKind → Json
  | .offline => .str "OFFLINE"
  | .realtime => .str "REALTIME"

def tableKind? : Decoder TableKind := oneOf? fun
  | "OFFLINE" => some .offline
  | "REALTIME" => some .realtime
  | _ => none

def ofLayoutKind (kind : LayoutKind) : Json := .str kind.text

def layoutKind? : Decoder LayoutKind := oneOf? LayoutKind.ofText?

def ofPartitionRule : PartitionRule → Json
  | .configured => .str "DEFAULT"
  | .perStreamPartition => .str "IMPLICIT_REALTIME_TABLE"

def partitionRule? : Decoder PartitionRule := oneOf? fun
  | "DEFAULT" => some .configured
  | "IMPLICIT_REALTIME_TABLE" => some .perStreamPartition
  | _ => none

def ofGroupSettings (settings : GroupSettings) : Json :=
  .obj [("replicaGroupBased", .bool settings.groupBased),
    ("numReplicaGroups", ofNat settings.numGroups),
    ("numInstancesPerReplicaGroup", ofNat settings.serversPerGroup),
    ("numPartitions", ofNat settings.numPartitions),
    ("numInstancesPerPartition", ofNat settings.serversPerPartition),
    ("partitionColumn", ofOption .str settings.partitionColumn),
    ("allowInstanceReuse", .bool settings.allowReuse)]

def groupSettings? (value : Json) : Option GroupSettings := do
  let members ← members? ["replicaGroupBased", "numReplicaGroups", "numInstancesPerReplicaGroup",
    "numPartitions", "numInstancesPerPartition", "partitionColumn", "allowInstanceReuse"] value
  let groupBased ← members.withDefault "replicaGroupBased" bool? false
  let numGroups ← members.withDefault "numReplicaGroups" (word? 64) 1
  let serversPerGroup ← members.withDefault "numInstancesPerReplicaGroup" (word? 64) 0
  let numPartitions ← members.withDefault "numPartitions" (word? 64) 1
  let serversPerPartition ← members.withDefault "numInstancesPerPartition" (word? 64) 0
  let partitionColumn ← members.optional "partitionColumn" str?
  let allowReuse ← members.withDefault "allowInstanceReuse" bool? false
  some
    { groupBased, numGroups, serversPerGroup, numPartitions, serversPerPartition,
      partitionColumn, allowReuse }

def ofLayoutSettings (settings : LayoutSettings) : Json :=
  .obj [("tag", .str settings.tag), ("replicaGroupPartition", ofGroupSettings settings.groups),
    ("minimizeDataMovement", .bool settings.minimizeMovement),
    ("partitionSelector", ofPartitionRule settings.partitionRule)]

def layoutSettings? (value : Json) : Option LayoutSettings := do
  let members ← members? ["tag", "replicaGroupPartition", "minimizeDataMovement",
    "partitionSelector"] value
  let tag ← members.required "tag" str?
  let groups ← members.withDefault "replicaGroupPartition" groupSettings? {}
  let minimizeMovement ← members.withDefault "minimizeDataMovement" bool? false
  let partitionRule ← members.withDefault "partitionSelector" partitionRule? .configured
  return { tag, groups, minimizeMovement, partitionRule }

def ofTierRule : TierRule → Json
  | .time segmentAge => .obj [("type", .str "time"), ("segmentAge", .str segmentAge)]
  | .fixed segments => .obj [("type", .str "fixed"), ("segments", ofStrings segments)]

def tierRule? (value : Json) : Option TierRule := do
  match ← tagged? "type" value with
  | ("time", content) =>
    let members ← members? ["segmentAge"] content
    return .time (← members.required "segmentAge" str?)
  | ("fixed", content) =>
    let members ← members? ["segments"] content
    return .fixed (← members.required "segments" (list? str?))
  | _ => none

def ofTierConfig (tier : TierConfig) : Json :=
  .obj [("name", .str tier.name), ("selector", ofTierRule tier.rule),
    ("serverTag", .str tier.serverTag)]

def tierConfig? (value : Json) : Option TierConfig := do
  let members ← members? ["name", "selector", "serverTag"] value
  let name ← members.required "name" str?
  let rule ← members.required "selector" tierRule?
  let serverTag ← members.required "serverTag" str?
  return { name, rule, serverTag }

def ofRoutingFlags (flags : RoutingFlags) : Json :=
  .obj [("strictReplicaGroup", .bool flags.strictReplicaGroup),
    ("useFixedReplica", .bool flags.useFixedReplica)]

def routingFlags? (value : Json) : Option RoutingFlags := do
  let members ← members? ["strictReplicaGroup", "useFixedReplica"] value
  let strictReplicaGroup ← members.withDefault "strictReplicaGroup" bool? false
  let useFixedReplica ← members.withDefault "useFixedReplica" bool? false
  return { strictReplicaGroup, useFixedReplica }

def ofTableConfig (table : TableConfig) : Json :=
  .obj [("tableName", .str table.name), ("tableType", ofTableKind table.kind),
    ("replication", ofNat table.replication), ("serverTag", .str table.serverTag),
    ("instanceAssignment", ofKeyedMap LayoutKind.text ofLayoutSettings table.layouts),
    ("tiers", .arr (table.tiers.map ofTierConfig)), ("routing", ofRoutingFlags table.routing),
    ("pauseless", .bool table.pauseless),
    ("streamPartitions", ofOption ofNat table.streamPartitions)]

def tableConfig? (value : Json) : Option TableConfig := do
  let members ← members? ["tableName", "tableType", "replication", "serverTag",
    "instanceAssignment", "tiers", "routing", "pauseless", "streamPartitions"] value
  let name ← members.required "tableName" str?
  let kind ← members.required "tableType" tableKind?
  let replication ← members.required "replication" (word? 64)
  let serverTag ← members.required "serverTag" str?
  let layouts ← members.withDefault "instanceAssignment"
    (keyedMap? LayoutKind.ofText? layoutSettings?) {}
  let tiers ← members.withDefault "tiers" (list? tierConfig?) []
  let routing ← members.withDefault "routing" routingFlags? {}
  let pauseless ← members.withDefault "pauseless" bool? false
  let streamPartitions ← members.optional "streamPartitions" (word? 64)
  some
    { name, kind, replication, serverTag, layouts, tiers, routing, pauseless,
      streamPartitions }

end SegmentPlacement.Codec

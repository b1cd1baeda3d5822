import SegmentPlacement.Cluster.Snapshot
import SegmentPlacement.Json.Decoder

/-! The JSON forms of what a cluster stores. Every member is written; a member
with a value of its own may be left out when reading. -/

namespace SegmentPlacement.Codec

open Json

def ofReplicaState (state : ReplicaState) : Json := .str state.text

def replicaState? : Decoder ReplicaState := oneOf? ReplicaState.ofText?

def ofReplicas (replicas : Replicas) : Json := ofMap ofReplicaState replicas

def replicas? : Decoder Replicas := map? replicaState?

def ofAssignment (assignment : Assignment) : Json := ofMap ofReplicas assignment

def assignment? : Decoder Assignment := map? replicas?

def ofIdealState (state : IdealState) : Json :=
  .obj [("tableName", .str state.table), ("version", ofNat state.version),
    ("assignment", ofAssignment state.assignment)]

def idealState? (value : Json) : Option IdealState := do
  let members ← members? ["tableName", "version", "assignment"] value
  let table ← members.required "tableName" str?
  let version ← members.required "version" (word? 64)
  let assignment ← members.required "assignment" assignment?
  return { table, version, assignment }

def ofServer (server : Server) : Json :=
  .obj [("id", .str server.id), ("tags", ofStrings server.tags),
    ("enabled", .bool server.enabled), ("pool", ofNat server.pool)]

def server? (value : Json) : Option Server := do
  let members ← members? ["id", "tags", "enabled", "pool"] value
  let id ← members.required "id" str?
  let tags ← members.withDefault "tags" (list? str?) []
  let enabled ← members.withDefault "enabled" bool? true
  let pool ← members.withDefault "pool" (word? 32) 0
  return { id, tags, enabled, pool }

def ofDiskUsage (usage : DiskUsage) : Json :=
  .obj [("usedBytes", ofNat usage.usedBytes), ("capacityBytes", ofNat usage.capacityBytes),
    ("lastUpdatedMs", .int usage.lastUpdatedMs)]

def diskUsage? (value : Json) : Option DiskUsage := do
  let members ← members? ["usedBytes", "capacityBytes", "lastUpdatedMs"] value
  let usedBytes ← members.required "usedBytes" (word? 64)
  let capacityBytes ← members.required "capacityBytes" (word? 64)
  let lastUpdatedMs ← members.required "lastUpdatedMs" (signed? 64)
  return { usedBytes, capacityBytes, lastUpdatedMs }

def ofLayout (layout : Layout) : Json :=
  .obj [("name", .str layout.name), ("numPartitions", ofNat layout.numPartitions),
    ("numReplicaGroups", ofNat layout.numGroups),
    ("partitionToInstances", ofMap ofStrings layout.slots)]

/-- A layout is read without being checked. -/
def layout? (value : Json) : Option Layout := do
  let members ← members?
    ["name", "numPartitions", "numReplicaGroups", "partitionToInstances"] value
  let name ← members.required "name" str?
  let numPartitions ← members.required "numPartitions" (word? 64)
  let numGroups ← members.required "numReplicaGroups" (word? 64)
  let slots ← members.required "partitionToInstances" (map? (list? str?))
  return { name, numPartitions, numGroups, slots }

def ofSegmentStatus : SegmentStatus → Json
  | .done => .str "DONE"
  | .inProgress => .str "IN_PROGRESS"

def segmentStatus? : Decoder SegmentStatus := oneOf? fun
  | "DONE" => some .done
  | "IN_PROGRESS" => some .inProgress
  | _ => none

def ofSegment (segment : Segment) : Json :=
  .obj [("name", .str segment.name), ("partitionId", ofOption ofNat segment.partitionId),
    ("startTimeMs", ofOption .int segment.startTimeMs),
    ("endTimeMs", ofOption .int segment.endTimeMs),
    ("creationTimeMs", .int segment.creationTimeMs), ("sizeBytes", ofNat segment.sizeBytes),
    ("totalDocs", ofNat segment.totalDocs), ("status", ofSegmentStatus segment.status),
    ("startOffset", ofOption .int segment.startOffset),
    ("targetTier", ofOption .str segment.targetTier)]

def segment? (value : Json) : Option Segment := do
  let members ← members? ["name", "partitionId", "startTimeMs", "endTimeMs", "creationTimeMs",
    "sizeBytes", "totalDocs", "status", "startOffset", "targetTier"] value
  let name ← members.required "name" str?
  let partitionId ← members.optional "partitionId" (word? 32)
  let startTimeMs ← members.optional "startTimeMs" (signed? 64)
  let endTimeMs ← members.optional "endTimeMs" (signed? 64)
  let creationTimeMs ← members.withDefault "creationTimeMs" (signed? 64) 0
  let sizeBytes ← members.withDefault "sizeBytes" (word? 64) 0
  let totalDocs ← members.withDefault "totalDocs" (word? 64) 0
  let status ← members.withDefault "status" segmentStatus? .done
  let startOffset ← members.optional "startOffset" (signed? 64)
  let targetTier ← members.optional "targetTier" str?
  some
    { name, partitionId, startTimeMs, endTimeMs, creationTimeMs, sizeBytes, totalDocs,
      status, startOffset, targetTier }

end SegmentPlacement.Codec

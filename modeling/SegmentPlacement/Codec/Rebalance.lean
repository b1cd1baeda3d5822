import SegmentPlacement.Codec.Cluster
import SegmentPlacement.Codec.Table
import SegmentPlacement.Rebalance.Result

/-! The JSON forms of a rebalance's options, of retry policies and service
settings, and of everything that a rebalance reports. -/

namespace SegmentPlacement.Codec

open Json

def ofEnablement : Enablement → Json
  | .enable => .str "ENABLE"
  | .disable => .str "DISABLE"
  | .byTable => .str "DEFAULT"

def enablement? : Decoder Enablement := oneOf? fun
  | "ENABLE" => some .enable
  | "DISABLE" => some .disable
  | "DEFAULT" => some .byTable
  | _ => none

/-- A member that is left out when there is no value. -/
def ofSome (name : String) (encode : α → Json) : Option α → List (String × Json)
  | some value => [(name, encode value)]
  | none => []

def ofOptions (options : RebalanceOptions) : Json :=
  .obj ([("dryRun", .bool options.dryRun), ("preChecks", .bool options.preChecks),
    ("reassignInstances", .bool options.reassignInstances),
    ("includeConsuming", .bool options.includeConsuming), ("bootstrap", .bool options.bootstrap),
    ("downtime", .bool options.downtime),
    ("minAvailableReplicas", .int options.minAvailableReplicas),
    ("batchSizePerServer", .int options.batchSizePerServer),
    ("bestEfforts", .bool options.bestEfforts),
    ("minimizeDataMovement", ofEnablement options.minimizeMovement),
    ("updateTargetTier", .bool options.updateTargetTier)]
    ++ ofSome "diskUtilizationThreshold" (Json.float ∘ .ofFloat) options.diskThreshold
    ++ ofSome "externalViewCheckIntervalMs" ofNat options.viewCheckIntervalMs
    ++ ofSome "externalViewStabilizationTimeoutMs" ofNat options.viewTimeoutMs)

def options? (value : Json) : Option RebalanceOptions := do
  let members ← members? ["dryRun", "preChecks", "reassignInstances", "includeConsuming",
    "bootstrap", "downtime", "minAvailableReplicas", "batchSizePerServer", "bestEfforts",
    "minimizeDataMovement", "updateTargetTier", "diskUtilizationThreshold",
    "externalViewCheckIntervalMs", "externalViewStabilizationTimeoutMs"] value
  let flag (name : String) : Option Bool := members.withDefault name bool? false
  let dryRun ← flag "dryRun"
  let preChecks ← flag "preChecks"
  let reassignInstances ← flag "reassignInstances"
  let includeConsuming ← flag "includeConsuming"
  let bootstrap ← flag "bootstrap"
  let downtime ← flag "downtime"
  let minAvailableReplicas ← members.withDefault "minAvailableReplicas" (signed? 32) 1
  let batchSizePerServer ← members.withDefault "batchSizePerServer" (signed? 32) (-1)
  let bestEfforts ← flag "bestEfforts"
  let minimizeMovement ← members.withDefault "minimizeDataMovement" enablement? .byTable
  let updateTargetTier ← flag "updateTargetTier"
  let diskThreshold ← members.optional "diskUtilizationThreshold" float?
  let viewCheckIntervalMs ← members.optional "externalViewCheckIntervalMs" (word? 64)
  let viewTimeoutMs ← members.optional "externalViewStabilizationTimeoutMs" (word? 64)
  some
    { dryRun, preChecks, reassignInstances, includeConsuming, bootstrap, downtime,
      minAvailableReplicas, batchSizePerServer, bestEfforts, minimizeMovement, updateTargetTier,
      diskThreshold, viewCheckIntervalMs, viewTimeoutMs }

def retryPolicy? (value : Json) : Option RetryPolicy := do
  match ← tagged? "type" value with
  | ("fixed", content) =>
    let members ← members? ["max_attempts", "delay_ms"] content
    let attempts ← members.required "max_attempts" (word? 32)
    return .fixed attempts (← members.required "delay_ms" (word? 64))
  | ("exponential_backoff", content) =>
    let members ← members? ["max_attempts", "initial_delay_ms", "multiplier"] content
    let attempts ← members.required "max_attempts" (word? 32)
    let initial ← members.required "initial_delay_ms" (word? 64)
    return .exponential attempts initial (← members.required "multiplier" signedFloat?)
  | ("random_delay", content) =>
    let members ← members? ["max_attempts", "min_delay_ms", "max_delay_ms"] content
    let attempts ← members.required "max_attempts" (word? 32)
    let least ← members.required "min_delay_ms" (word? 64)
    return .random attempts least (← members.required "max_delay_ms" (word? 64))
  | _ => none

def serviceSettings? (value : Json) : Option ServiceSettings := do
  let members ← members? ["external_view_check_interval_ms",
    "external_view_stabilization_timeout_ms", "pre_check_timeout_ms", "pre_check_parallelism",
    "disk_utilization_threshold", "ideal_state_retry", "metrics_port"] value
  let defaults : ServiceSettings := {}
  let viewCheckIntervalMs ← members.withDefault "external_view_check_interval_ms" (word? 64)
    defaults.viewCheckIntervalMs
  let viewTimeoutMs ← members.withDefault "external_view_stabilization_timeout_ms" (word? 64)
    defaults.viewTimeoutMs
  let preCheckTimeoutMs ← members.withDefault "pre_check_timeout_ms" (word? 64)
    defaults.preCheckTimeoutMs
  let preCheckParallelism ← members.withDefault "pre_check_parallelism" (word? 64)
    defaults.preCheckParallelism
  let diskThreshold ← members.withDefault "disk_utilization_threshold" float?
    defaults.diskThreshold
  let stateRetry ← members.withDefault "ideal_state_retry" retryPolicy? defaults.stateRetry
  let metricsPort ← members.withDefault "metrics_port" (word? 16) defaults.metricsPort
  some
    { viewCheckIntervalMs, viewTimeoutMs, preCheckTimeoutMs, preCheckParallelism,
      diskThreshold, stateRetry, metricsPort }

def ofChange (change : Change) : Json :=
  .obj [("valueBeforeRebalance", ofNat change.before),
    ("expectedValueAfterRebalance", ofNat change.after)]

def ofServerStatus : ServerStatus → Json
  | .added => .str "ADDED"
  | .removed => .str "REMOVED"
  | .unchanged => .str "UNCHANGED"

def ofServerChange (change : ServerChange) : Json :=
  .obj [("serverStatus", ofServerStatus change.status),
    ("totalSegmentsAfterRebalance", ofNat change.segmentsAfter),
    ("totalSegmentsBeforeRebalance", ofNat change.segmentsBefore),
    ("segmentsAdded", ofNat change.added), ("segmentsDeleted", ofNat change.deleted),
    ("segmentsUnchanged", ofNat change.unchanged), ("tagList", ofStrings change.tags)]

def ofServerSummary (summary : ServerSummary) : Json :=
  .obj [("numServersGettingNewSegments", ofNat summary.gainingCount),
    ("numServers", ofChange summary.servers),
    ("serversAdded", ofStrings summary.added.keys),
    ("serversRemoved", ofStrings summary.removed.keys),
    ("serversUnchanged", ofStrings summary.unchanged.keys),
    ("serversGettingNewSegments", ofStrings summary.gaining.keys),
    ("serverSegmentChangeInfo", ofMap ofServerChange summary.changes)]

def ofRankedSegment (ranked : RankedSegment) : Json :=
  .obj [("segment", .str ranked.segment), ("value", .int ranked.value)]

def ofConsumingServer (server : ConsumingServer) : Json :=
  .obj [("numConsumingSegmentsToBeAdded", ofNat server.added),
    ("totalOffsetsToCatchUpAcrossAllConsumingSegments", .int server.offsetsToCatchUp)]

def ofConsumingSummary (summary : ConsumingSummary) : Json :=
  let ranking (list : List RankedSegment) : Json := .arr (list.map ofRankedSegment)
  .obj [("numConsumingSegmentsToBeMoved", ofNat summary.moving),
    ("numServersGettingConsumingSegmentsAdded", ofNat summary.servers.size),
    ("consumingSegmentsToBeMovedWithMostOffsetsToCatchUp", ofOption ranking summary.mostOffsets),
    ("consumingSegmentsToBeMovedWithOldestAgeInMinutes", ranking summary.oldestMinutes),
    ("serverConsumingSegmentSummary", ofMap ofConsumingServer summary.servers)]

def ofSegmentSummary (summary : SegmentSummary) : Json :=
  .obj ([("totalSegmentsToBeMoved", ofNat summary.moved),
    ("totalSegmentsToBeDeleted", ofNat summary.deleted),
    ("maxSegmentsAddedToASingleServer", ofNat summary.mostAddedToOneServer),
    ("estimatedAverageSegmentSizeInBytes", .int summary.averageBytes),
    ("totalEstimatedDataToBeMovedInBytes", .int summary.bytesToMove),
    ("replicationFactor", ofChange summary.replication),
    ("numSegmentsInSingleReplica", ofChange summary.segments),
    ("numSegmentsAcrossAllReplicas", ofChange summary.replicas)]
    ++ ofSome "consumingSegmentToBeMovedSummary" ofConsumingSummary summary.consuming)

def ofTagSummary (summary : TagSummary) : Json :=
  .obj [("tagName", .str summary.tag), ("numSegmentsToDownload", ofNat summary.toDownload),
    ("numSegmentsUnchanged", ofNat summary.unchanged),
    ("numServerParticipants", ofNat summary.participants)]

def ofSummary (summary : Summary) : Json :=
  .obj [("serverInfo", ofServerSummary summary.servers),
    ("segmentInfo", ofSegmentSummary summary.segments),
    ("tagsInfo", .arr (summary.tags.map ofTagSummary))]

def ofCheckStatus : CheckStatus → Json
  | .pass => .str "PASS"
  | .warn => .str "WARN"
  | .error => .str "ERROR"

def ofChecks (checks : List (CheckName × CheckResult)) : Json :=
  .obj (checks.map fun check =>
    (check.1.text,
      .obj [("preCheckStatus", ofCheckStatus check.2.status), ("message", .str check.2.message)]))

def ofTarget (target : Target) : Json :=
  .obj [("assignment", ofAssignment target.assignment),
    ("segmentTiers", ofMap .str target.segmentTiers)]

def ofComputation (computed : Computation) : List (String × Json) :=
  [("instanceAssignment", ofKeyedMap LayoutKind.text ofLayout computed.layouts),
    ("tierInstanceAssignment", ofMap ofLayout computed.tierLayouts),
    ("segmentAssignment", ofAssignment computed.assignment),
    ("rebalanceSummaryResult", ofSummary computed.summary)]
    ++ ofSome "preChecksResult" ofChecks computed.checks

def ofResult (result : RebalanceResult) : Json :=
  .obj ([("jobId", .str result.job), ("status", .str result.status.text),
    ("description", .str result.description)]
    ++ (result.computed.map ofComputation).getD [])

end SegmentPlacement.Codec

import SegmentPlacement.Decimal.Exact
import SegmentPlacement.Rebalance.Consuming
import SegmentPlacement.Service

/-! Advice that goes with a dry run: whether servers want a reload first, how
full their disks become, and which options and layouts are risky. A source that
fails or is late turns its check into an error and nothing else. -/

namespace SegmentPlacement

inductive CheckStatus where
  | pass
  | warn
  | error
  deriving DecidableEq, Repr

structure CheckResult where
  status : CheckStatus
  message : String
  deriving DecidableEq, Repr

inductive CheckName where
  | needsReload
  | minimizesMovement
  | diskDuring
  | diskAfter
  | options
  | replicaGroups
  deriving DecidableEq, Repr

def CheckName.text : CheckName → String
  | .needsReload => "needsReloadStatus"
  | .minimizesMovement => "isMinimizeDataMovement"
  | .diskDuring => "diskUtilizationDuringRebalance"
  | .diskAfter => "diskUtilizationAfterRebalance"
  | .options => "rebalanceConfigOptions"
  | .replicaGroups => "replicaGroupsInfo"

/-- Where the checks take their facts from. -/
structure Checker where
  diskThreshold : Float
  /-- Whether a server wants to reload a table. -/
  reload : Option (String → Answer Bool) := none
  disk : Option (String → Answer (Option DiskUsage)) := none

/-- What the checks look at. -/
structure CheckSubject where
  table : TableConfig
  options : RebalanceOptions
  current : Assignment
  target : Assignment
  summary : Summary

namespace PreCheck

def reloadUnknown : String :=
  "Could not determine needReload status, run needReload API manually"

/-- Every server of the current assignment is asked. -/
def reload (checker : Checker) (subject : CheckSubject) : CheckResult :=
  match checker.reload with
  | none => ⟨.error, reloadUnknown⟩
  | some wantsReload =>
    let servers := (OrderedMap.ofKeys (subject.current.values.flatMap OrderedMap.keys)).keys
    let answers := servers.map fun server => (wantsReload server).value?
    if answers.any Option.isNone then ⟨.error, reloadUnknown⟩
    else if answers.contains (some true) then ⟨.warn, "Reload needed prior to running rebalance"⟩
    else ⟨.pass, "No need to reload"⟩

/-- A part of one as a whole number of percent. -/
def percent (part : Float) : String := Decimal.whole (part * 100.0)

/-- A server that will hold segments, and what is known of its disk. -/
structure DiskOutlook where
  server : String
  change : ServerChange
  usage : Option DiskUsage

def diskOutlooks (checker : Checker) (subject : CheckSubject) : List DiskOutlook :=
  (subject.summary.servers.changes.filter fun _ change => 0 < change.segmentsAfter).entries.map
    fun entry =>
      { server := entry.1, change := entry.2,
        usage := checker.disk.bind fun source => (source entry.1).value?.join }

/-- The servers whose disks pass the threshold after a number of segments have come. -/
def disk (threshold : Float) (averageBytes : Int) (outlooks : List DiskOutlook)
    (segmentsOf : ServerChange → Int) : CheckResult :=
  let unsafeServers := outlooks.filterMap fun outlook =>
    outlook.usage.bind fun usage =>
      let part := usage.projected (segmentsOf outlook.change * averageBytes)
      if threshold < part then some (outlook.server ++ " (" ++ percent part ++ "%)") else none
  if unsafeServers.isEmpty then ⟨.pass, "Within threshold (<" ++ percent threshold ++ "%)"⟩
  else
    ⟨.error, "UNSAFE. Servers with unsafe disk utilization (>" ++ percent threshold ++ "%): "
      ++ ", ".intercalate unsafeServers⟩

/-- The checks of disks while segments are copied, and after the old copies are gone. -/
def disks (checker : Checker) (subject : CheckSubject) : CheckResult × CheckResult :=
  let outlooks := diskOutlooks checker subject
  let missing := (outlooks.filter fun outlook => outlook.usage.isNone).map DiskOutlook.server
  if ¬ missing.isEmpty then
    let result : CheckResult :=
      ⟨.error, "Disk usage info not available for servers: " ++ ", ".intercalate missing⟩
    (result, result)
  else
    let threshold := subject.options.diskThreshold.getD checker.diskThreshold
    let average := max subject.summary.segments.averageBytes 0
    (disk threshold average outlooks fun change => change.added,
      disk threshold average outlooks fun change => (change.added : Int) - change.deleted)

def minimizesMovement (subject : CheckSubject) : CheckResult :=
  if ¬ subject.table.hasLayoutSettings then
    ⟨.pass, "Instance assignment not allowed, no need for minimizeDataMovement"⟩
  else
    let enabled := subject.options.minimizeMovement.override?.getD
      (subject.table.layouts.values.all LayoutSettings.minimizeMovement)
    if enabled then ⟨.pass, "minimizeDataMovement is enabled"⟩
    else ⟨.warn, "minimizeDataMovement is not enabled but instance assignment is allowed"⟩

/-- Segments added to one server above which batches are advised. -/
def manySegments : Nat := 200

def advisedBatch : Nat := 100

def consumingWarning (subject : CheckSubject) : Option String :=
  if subject.table.isRealtime ∧ ¬ subject.options.includeConsuming then
    some "includeConsuming is disabled for a realtime table."
  else none

def bestEffortsWarning (subject : CheckSubject) : Option String :=
  if subject.options.bestEfforts then
    some "bestEfforts is enabled, only enable it if you know what you are doing"
  else none

def bootstrapWarning (subject : CheckSubject) : Option String :=
  if subject.options.bootstrap then
    some ("bootstrap is enabled which can cause a large amount of data movement, "
      ++ "double check if this is intended")
  else none

def tierWarning (subject : CheckSubject) : Option String :=
  if ¬ subject.table.tiers.isEmpty ∧ ¬ subject.options.updateTargetTier then
    some "updateTargetTier should be enabled when tier configs are present"
  else none

def downtimeWarning (subject : CheckSubject) : Option String :=
  if subject.options.downtime ∧ 1 < subject.table.replication then
    some ("Number of replicas (" ++ toString subject.table.replication
      ++ ") is greater than 1, downtime is not recommended.")
  else none

def pauselessWarning (subject : CheckSubject) : Option String :=
  if ¬ subject.table.pauseless then none
  else if subject.table.replication = 1 then
    some ("Replication of the table is 1, which is not recommended for pauseless tables as it may "
      ++ "cause data loss during rebalance")
  else if subject.options.minAvailable subject.table.replication = 0 then
    some ("Downtime or minAvailableReplicas=0 for pauseless tables may cause data loss during "
      ++ "rebalance")
  else none

def batchWarning (subject : CheckSubject) : Option String :=
  let most := subject.summary.segments.mostAddedToOneServer
  let batched := (subject.options.batchSize.map fun size => decide (size ≤ advisedBatch)).getD false
  if manySegments < most ∧ ¬ batched then
    some ("Number of segments to add to a single server (" ++ toString most ++ ") is high (>"
      ++ toString manySegments ++ "). It is recommended to set batchSizePerServer to "
      ++ toString advisedBatch ++ " or lower to avoid excessive load on servers.")
  else none

def options (subject : CheckSubject) : CheckResult :=
  let warnings := [consumingWarning, bestEffortsWarning, bootstrapWarning, tierWarning,
    downtimeWarning, pauselessWarning, batchWarning].filterMap fun warning => warning subject
  if warnings.isEmpty then ⟨.pass, "All rebalance parameters look good"⟩
  else ⟨.warn, "\n".intercalate warnings⟩

/-- The grouped settings of a kind, when it has any. -/
def groupedSettings? (table : TableConfig) (kind : LayoutKind) : Option GroupSettings :=
  ((table.layouts.get? kind).map LayoutSettings.groups).filter GroupSettings.groupBased

def groupLine (table : TableConfig) (kind : LayoutKind) : String :=
  match groupedSettings? table kind with
  | some settings =>
    let perGroup :=
      if settings.serversPerGroup = 0 then "0 (using as many instances as possible)"
      else toString settings.serversPerGroup
    kind.text ++ " segments - numReplicaGroups: " ++ toString settings.numGroups
      ++ ", numInstancesPerReplicaGroup: " ++ perGroup
  | none =>
    kind.text ++ " segments - Replica Groups are not enabled, replication: "
      ++ toString table.replication

def tierLine (table : TableConfig) (tier : TierConfig) : String :=
  tier.name ++ " tier - Replica Groups are not enabled, replication: " ++ toString table.replication

def replicaGroups (subject : CheckSubject) : CheckResult :=
  let table := subject.table
  let lines := table.layoutKinds.map (groupLine table) ++ table.tiers.map (tierLine table)
  let message := "\n".intercalate lines
  let grouped := table.layoutKinds.any fun kind => (groupedSettings? table kind).isSome
  if grouped ∧ ¬ subject.options.reassignInstances then
    ⟨.warn, "reassignInstances is disabled, replica groups may not be updated.\n" ++ message⟩
  else ⟨.pass, message⟩

/-- Every check by its name. -/
def run (checker : Checker) (subject : CheckSubject) : List (CheckName × CheckResult) :=
  let (during, after) := disks checker subject
  [(.needsReload, reload checker subject), (.minimizesMovement, minimizesMovement subject),
    (.diskDuring, during), (.diskAfter, after), (.options, options subject),
    (.replicaGroups, replicaGroups subject)]

end PreCheck

end SegmentPlacement

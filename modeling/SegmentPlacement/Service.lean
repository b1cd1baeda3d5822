import SegmentPlacement.Decimal.Reader
import SegmentPlacement.Rebalance.Options
import SegmentPlacement.Retry
import SegmentPlacement.Text.Numeral
import SegmentPlacement.Word

/-! Settings of the service that runs rebalances: how long it waits, how often it
retries, and when it calls a disk full. -/

namespace SegmentPlacement

structure ServiceSettings where
  viewCheckIntervalMs : Nat := 1000
  viewTimeoutMs : Nat := 3600000
  preCheckTimeoutMs : Nat := 30000
  preCheckParallelism : Nat := 8
  diskThreshold : Float := 0.9
  stateRetry : RetryPolicy := .stateUpdate
  metricsPort : Nat := 9090
  deriving DecidableEq

/-- Why settings were refused. -/
inductive ServiceFault where
  | unreadable
  | malformed
  | value (setting given : String)
  deriving DecidableEq, Repr

def ServiceFault.message : ServiceFault → String
  | .unreadable => "Failed to read config file"
  | .malformed => "Failed to parse config file"
  | .value setting given => "Invalid value for " ++ setting ++ ": " ++ given

namespace ServiceSettings

def validate (settings : ServiceSettings) : Except ServiceFault ServiceSettings :=
  if ¬ isFraction settings.diskThreshold then
    .error (.value "disk_utilization_threshold" (Decimal.shortest settings.diskThreshold))
  else if settings.preCheckParallelism = 0 then .error (.value "pre_check_parallelism" "0")
  else if settings.viewCheckIntervalMs = 0 then
    .error (.value "external_view_check_interval_ms" "0")
  else .ok settings

/-- Settings from variables. A variable that cannot be read counts as not set. -/
def ofVariables (environment : String → Option String) : Except ServiceFault ServiceSettings :=
  let word (bits : Nat) (name : String) : Option Nat :=
    (environment name).bind fun text => Text.unsigned? (wordCount bits) text.toList
  let defaults : ServiceSettings := {}
  validate
    { viewCheckIntervalMs :=
        (word 64 "TESSERA_EV_CHECK_INTERVAL_MS").getD defaults.viewCheckIntervalMs
      viewTimeoutMs := (word 64 "TESSERA_EV_STABILIZATION_TIMEOUT_MS").getD defaults.viewTimeoutMs
      preCheckTimeoutMs := (word 64 "TESSERA_PRE_CHECK_TIMEOUT_MS").getD defaults.preCheckTimeoutMs
      preCheckParallelism :=
        (word 64 "TESSERA_PRE_CHECK_PARALLELISM").getD defaults.preCheckParallelism
      diskThreshold :=
        ((environment "TESSERA_DISK_UTILIZATION_THRESHOLD").bind fun text =>
          Decimal.read? text.toList).getD defaults.diskThreshold
      stateRetry :=
        match word 32 "TESSERA_IDEAL_STATE_MAX_ATTEMPTS" with
        | some attempts => .random attempts 100 200
        | none => defaults.stateRetry
      metricsPort := (word 16 "TESSERA_METRICS_PORT").getD defaults.metricsPort }

end ServiceSettings

end SegmentPlacement

import SegmentPlacement.Decimal.Shortest
import SegmentPlacement.Error
import SegmentPlacement.Word

/-! The options of one rebalance. -/

namespace SegmentPlacement

/-- A setting that may be left to the table. -/
inductive Enablement where
  | enable
  | disable
  | byTable
  deriving DecidableEq, Repr, Inhabited

def Enablement.override? : Enablement → Option Bool
  | .enable => some true
  | .disable => some false
  | .byTable => none

structure RebalanceOptions where
  /-- Compute and report only. -/
  dryRun : Bool := false
  /-- Add advice to a dry run. -/
  preChecks : Bool := false
  /-- Compute the layouts anew. -/
  reassignInstances : Bool := false
  /-- Consuming segments move as well. -/
  includeConsuming : Bool := false
  /-- The current assignment is ignored. -/
  bootstrap : Bool := false
  /-- The target is written in one step. -/
  downtime : Bool := false
  /-- Replicas that keep serving; a negative number counts down from the replication. -/
  minAvailableReplicas : Int := 1
  /-- Segments a server may gain in one step, or -1 for any number. -/
  batchSizePerServer : Int := -1
  /-- Go on after timeouts and replicas in error. -/
  bestEfforts : Bool := false
  minimizeMovement : Enablement := .byTable
  /-- Record the tier of every segment. -/
  updateTargetTier : Bool := false
  diskThreshold : Option Float := none
  viewCheckIntervalMs : Option Nat := none
  viewTimeoutMs : Option Nat := none
  deriving DecidableEq

/-- Whether a number lies between 0 and 1, both included. -/
def isFraction (number : Float) : Bool := 0.0 ≤ number ∧ number ≤ 1.0

namespace RebalanceOptions

def dry : RebalanceOptions := { dryRun := true }

/-- What can be told without the cluster. -/
def validate (options : RebalanceOptions) : Except Error Unit :=
  if options.batchSizePerServer ≠ -1 ∧ options.batchSizePerServer < 1 then
    .error (.invalidConfig (.batchSize options.batchSizePerServer))
  else match options.diskThreshold with
    | some threshold =>
      if isFraction threshold then .ok ()
      else .error (.invalidConfig (.diskThreshold (Decimal.shortest threshold)))
    | none => .ok ()

/-- The size of a batch, when steps are batched. -/
def batchSize (options : RebalanceOptions) : Option Nat :=
  if 0 < options.batchSizePerServer then some options.batchSizePerServer.toNat else none

/-- The replicas that keep serving, given the replication of the table. Counting down takes the
replication as a signed word, so one that is no such word leaves no replica. -/
def minAvailable (options : RebalanceOptions) (replication : Nat) : Nat :=
  if options.downtime then 0
  else if 0 ≤ options.minAvailableReplicas then options.minAvailableReplicas.toNat
  else (signedWord replication + options.minAvailableReplicas).toNat

end RebalanceOptions

end SegmentPlacement

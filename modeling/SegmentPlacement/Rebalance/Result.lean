import SegmentPlacement.Placement.Target
import SegmentPlacement.Rebalance.PreCheck

/-! What a rebalance answers in the end, and what it tells while it runs. -/

namespace SegmentPlacement

inductive RebalanceStatus where
  | noOp
  | done
  | failed
  | cancelled
  deriving DecidableEq, Repr, Inhabited

def RebalanceStatus.text : RebalanceStatus → String
  | .noOp => "NO_OP"
  | .done => "DONE"
  | .failed => "FAILED"
  | .cancelled => "CANCELLED"

/-- Everything that was computed before the first write. -/
structure Computation where
  layouts : Layouts
  tierLayouts : OrderedMap String Layout
  assignment : Assignment
  summary : Summary
  checks : Option (List (CheckName × CheckResult))
  deriving DecidableEq

structure RebalanceResult where
  job : String
  status : RebalanceStatus
  description : String
  /-- Missing when the computation itself did not succeed. -/
  computed : Option Computation
  deriving DecidableEq

/-- One line for a log. -/
def RebalanceResult.line (result : RebalanceResult) : String :=
  let base := result.status.text ++ ": " ++ result.description
  match result.computed with
  | some computed =>
    base ++ " (" ++ toString computed.summary.segments.moved ++ " segments to move, "
      ++ toString computed.summary.segments.deleted ++ " to delete)"
  | none => base

inductive ProgressStatus where
  /-- A step was written. -/
  | running
  /-- The servers have caught up with the step. -/
  | converged
  | completed (status : RebalanceStatus)
  deriving DecidableEq, Repr

def ProgressStatus.text : ProgressStatus → String
  | .running => "RUNNING"
  | .converged => "CONVERGED"
  | .completed status => "COMPLETED " ++ status.text

structure Progress where
  job : String
  step : Nat
  /-- The segments whose replicas changed in the step. -/
  segmentsUpdated : Nat
  status : ProgressStatus
  deriving DecidableEq, Repr

end SegmentPlacement

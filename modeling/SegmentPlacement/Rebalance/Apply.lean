import SegmentPlacement.Convergence
import SegmentPlacement.Move
import SegmentPlacement.StateUpdate

/-! Writing a target step by step. Each step is computed from the state as it is
stored at that moment, and unless downtime is allowed the servers have to catch
up before the next one. -/

namespace SegmentPlacement

/-- What stays the same while a target is written. -/
structure ApplyJob where
  job : String
  table : String
  target : Assignment
  minAvailable : Nat
  batch : Option Nat
  downtime : Bool
  bestEfforts : Bool
  retry : RetryPolicy
  checkIntervalMs : Nat
  timeoutMs : Nat
  /-- The most rounds of any loop. Other writers, or an interval of 0, could keep a loop going
  forever. -/
  roundLimit : Nat

inductive ApplyOutcome where
  | done (steps : Nat)
  | cancelled (steps : Nat)
  | failed (description : String)
  deriving DecidableEq, Repr

namespace ApplyJob

/-- The next assignment while the target is not reached. -/
def change (apply : ApplyJob) (current : Assignment) : Option Assignment :=
  if Move.reached current apply.target then none
  else some (Move.next current apply.target apply.minAvailable apply.batch)

def timedOut (apply : ApplyJob) : String :=
  "Timed out waiting for external view to converge for table: " ++ apply.table

/-- What a view means for the wait: `none` goes on waiting. Views that cannot be read say nothing. -/
def settledBy (apply : ApplyJob) (written : Assignment) :
    Reply (Option Assignment) → Option (Except String Unit)
  | .ok (some view) =>
    match Convergence.check written view apply.bestEfforts with
    | .converged => some (.ok ())
    | .failed segment =>
      some (.error ("Found segment " ++ segment ++ " in ERROR state for table: " ++ apply.table))
    | .pending => none
  | _ => none

/-- Waits until the servers report what was written. Time passes only between two looks. -/
def wait (apply : ApplyJob) (written : Assignment) : Nat → Nat → Program (Except String Unit)
  | 0, _ => return .error apply.timedOut
  | rounds + 1, elapsedMs => do
    let view ← Program.call (.externalView apply.table)
    match apply.settledBy written view with
    | some outcome => return outcome
    | none =>
      if apply.timeoutMs ≤ elapsedMs then
        return if apply.bestEfforts then .ok () else .error apply.timedOut
      else
        Program.call (.pause apply.checkIntervalMs apply.checkIntervalMs)
        wait apply written rounds (elapsedMs + apply.checkIntervalMs)

/-- Waits for one step, and tells when its servers have caught up. -/
def settle (apply : ApplyJob) (written : Assignment) (step updated : Nat) :
    Program (Except String Unit) := do
  if apply.downtime then return .ok ()
  else
    match ← apply.wait written apply.roundLimit 0 with
    | .error description => return .error description
    | .ok () =>
      Program.call (.report ⟨apply.job, step, updated, .converged⟩)
      return .ok ()

/-- Why an update ended the job. -/
def updateFailure (apply : ApplyJob) : Error → String
  | .tableNotFound _ => "Table " ++ apply.table ++ " was deleted during rebalance"
  | error => "Caught exception while updating ideal state: " ++ error.message

/-- Writes steps until the target is reached, after `steps` steps of which the latest wrote
`previous`. -/
def writeSteps (apply : ApplyJob) : Nat → Nat → Assignment → Program ApplyOutcome
  | 0, _, _ => return .failed ("Rebalance of " ++ apply.table ++ " did not come to an end")
  | rounds + 1, steps, previous => do
    if ← Program.call .cancelled then return .cancelled steps
    else
      match ← StateUpdate.run apply.table apply.change apply.retry true with
      | .error error => return .failed (apply.updateFailure error)
      | .ok update =>
        let written := update.state.assignment
        if ¬ update.updated then
          return if Move.reached written apply.target then .done steps
            else .failed ("Rebalance of " ++ apply.table ++ " made no progress")
        else
          let updated := Move.changedSegments previous written
          Program.call (.report ⟨apply.job, steps + 1, updated, .running⟩)
          match ← apply.settle written (steps + 1) updated with
          | .error description => return .failed description
          | .ok () =>
            if Move.reached written apply.target then return .done (steps + 1)
            else writeSteps apply rounds (steps + 1) written

/-- Writes the target, beginning at the current assignment. -/
def run (apply : ApplyJob) (current : Assignment) : Program ApplyOutcome :=
  apply.writeSteps apply.roundLimit 0 current

end ApplyJob

end SegmentPlacement

import SegmentPlacement.Program
import SegmentPlacement.Retry

/-! Updates of an ideal state by compare-and-set. The state is read again before
every attempt, so a write that lost to another one is computed afresh. -/

namespace SegmentPlacement

structure StateUpdate where
  /-- The state after the update, or the state that needed none. -/
  state : IdealState
  updated : Bool
  attempts : Nat
  deriving DecidableEq

namespace StateUpdate

/-- The pause before every attempt but the first. -/
def pauseBefore (policy : RetryPolicy) (made : Nat) : Program Unit :=
  if 0 < made then
    let (least, greatest) := policy.pause (made - 1)
    Program.call (.pause least greatest)
  else return ()

/-- Attempts left, the number of attempts made, and the store's failure in the latest of them;
losing to another writer is no failure of the store. -/
def attempt (table : String) (change : Assignment → Option Assignment) (policy : RetryPolicy)
    (noChangeOk : Bool) : Nat → Nat → Option String → Program (Except Error StateUpdate)
  | 0, _, some failure => return .error (.cluster failure)
  | 0, made, none => return .error (.contended table made)
  | left + 1, made, _ => do
    pauseBefore policy made
    match ← Program.call (.idealState table) with
    | .error text =>
      attempt table change policy noChangeOk left (made + 1)
        (some ("failed to read ideal state of " ++ table ++ ": " ++ text))
    | .ok none => return .error (.tableNotFound table)
    | .ok (some current) =>
      match (change current.assignment).filter fun next => next ≠ current.assignment with
      | none =>
        if noChangeOk then return .ok ⟨current, false, made + 1⟩
        else
          return .error (.cluster ("ideal state update for " ++ table ++ " produced no change"))
      | some next =>
        match ← Program.call (.compareAndSet table current.version next) with
        | .ok true =>
          return .ok
            ⟨{ current with version := current.version + 1, assignment := next }, true, made + 1⟩
        | .ok false => attempt table change policy noChangeOk left (made + 1) none
        | .error text =>
          attempt table change policy noChangeOk left (made + 1)
            (some ("failed to write ideal state of " ++ table ++ ": " ++ text))

/-- Updates a table's ideal state. `change` answers the next assignment, or nothing when there is
nothing to change; the same assignment again counts as nothing. -/
def run (table : String) (change : Assignment → Option Assignment) (policy : RetryPolicy)
    (noChangeOk : Bool) : Program (Except Error StateUpdate) :=
  attempt table change policy noChangeOk policy.maxAttempts 0 none

end StateUpdate

end SegmentPlacement

import SegmentPlacement.Assignment

/-! Whether the servers report what they were told to hold. -/

namespace SegmentPlacement

inductive Convergence where
  | converged
  | pending
  /-- A replica of this segment is in error. -/
  | failed (segment : String)
  deriving DecidableEq, Repr

namespace Convergence

/-- The replicas that servers must report: all but those that are offline. -/
def awaited (ideal : Assignment) : List (String × String × ReplicaState) :=
  ideal.entries.flatMap fun entry =>
    (entry.2.entries.filter fun replica => replica.2 ≠ .offline).map fun replica =>
      (entry.1, replica.1, replica.2)

/-- The state that a server reports for a segment. -/
def reported? (view : Assignment) (segment server : String) : Option ReplicaState :=
  (view.get? segment).bind fun replicas => replicas.get? server

/-- The first replica that is not reported as it should be decides. With best efforts an error is
as good as the right state. -/
def judge (view : Assignment) (bestEfforts : Bool) :
    List (String × String × ReplicaState) → Convergence
  | [] => .converged
  | (segment, server, state) :: rest =>
    match reported? view segment server with
    | some seen =>
      if seen = state then judge view bestEfforts rest
      else if seen = .error then
        if bestEfforts then judge view bestEfforts rest else .failed segment
      else .pending
    | none => .pending

def check (ideal view : Assignment) (bestEfforts : Bool) : Convergence :=
  judge view bestEfforts (awaited ideal)

end Convergence

end SegmentPlacement

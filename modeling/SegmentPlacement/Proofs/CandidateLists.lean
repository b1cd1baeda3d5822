import SegmentPlacement.Proofs.RoutingCandidates

/-! The lists of candidates that a snapshot offers. Which servers a segment is
offered with is told from what they should serve, what they report and how old the
segment is; as time goes by, only servers that are not online yet drop out. -/

namespace SegmentPlacement

def Assignment.Serves (view : Assignment) (segment server : String) : Prop :=
  ∃ replicas, view.get? segment = some replicas ∧
    (replicas.get? server = some .online ∨ replicas.get? server = some .consuming)

variable {ideal view : Assignment} {segment server : String}

namespace CandidateContext

variable {context : CandidateContext}

/-- The age of this segment is a millisecond more than the expiration, but no word holds it. -/
example : CandidateContext.isNew
    { servers := []
      created := .ofList [("s", -1)]
      now := greatestWord
      expirationMs := 0x7FFFFFFFFFFFFFFF } "s" = true := by decide +kernel

end CandidateContext

namespace RoutingStates
open CandidateContext

section build

variable (ideal : IdealState) (view : Assignment) (context : CandidateContext) (segment : String)

variable {ideal view context segment}

end build

end RoutingStates

end SegmentPlacement

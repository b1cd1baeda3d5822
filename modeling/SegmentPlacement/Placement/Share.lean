import SegmentPlacement.Load

/-! The equal share of work that positions may keep. Every position may keep the
average, rounded down, and as many positions as the remainder says one more. -/

namespace SegmentPlacement

structure Share where
  average : Nat
  /-- How many positions may still keep one above the average. -/
  extra : Nat
  deriving DecidableEq, Repr

namespace Share

def divide (total positions : Nat) : Share := ⟨total / positions, total % positions⟩

/-- The share left when a position that carries `load` keeps one more, unless it may not. -/
def keep? (share : Share) (load : Nat) : Option Share :=
  if load < share.average then some share
  else if load = share.average ∧ 0 < share.extra then
    some { share with extra := share.extra - 1 }
  else none

end Share

end SegmentPlacement

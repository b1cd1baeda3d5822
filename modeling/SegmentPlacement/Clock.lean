import SegmentPlacement.Word

/-! Times in milliseconds and the spans between them. -/

namespace SegmentPlacement.Clock

/-- A span given in seconds, as a signed word of milliseconds. -/
def milliseconds (seconds : Nat) : Int := signedWord (seconds * 1000)

/-- The time passed from `start` to `now`; it stops at the ends of the range. -/
def since (start now : Int) : Int := clampedWord (now - start)

/-- A span of whole seconds is never the greatest word, so that no time passed is cut off to it. -/
theorem since_le_milliseconds_iff {seconds : Nat} (inRange : (seconds * 1000 : Int) ≤ greatestWord)
    {start now : Int} : since start now ≤ milliseconds seconds ↔ now - start ≤ seconds * 1000 := by
  have least : leastWord ≤ seconds * 1000 := leastWord_le_natCast (seconds * 1000)
  have apart : (seconds * 1000 : Int) ≠ greatestWord := by
    unfold greatestWord at *
    omega
  rw [since, milliseconds, signedWord_eq_self least inRange, clampedWord_le_iff least inRange,
    or_iff_left apart]

end SegmentPlacement.Clock

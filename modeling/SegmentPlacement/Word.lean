/-! Whole numbers held in machine words: those that wrap around and those that
stop at the end of the range. -/

namespace SegmentPlacement

/-- The number of different words of `bits` bits. -/
def wordCount (bits : Nat) : Nat := Nat.pow 2 bits

/-- The least and the greatest signed 64-bit word. -/
def leastWord : Int := -0x8000000000000000

def greatestWord : Int := 0x7FFFFFFFFFFFFFFF

/-- The number as a signed 64-bit word, wrapped around. -/
def signedWord (value : Int) : Int := value.bmod 0x10000000000000000

/-- The signed 64-bit word nearest to a number. -/
def clampedWord (value : Int) : Int := max leastWord (min greatestWord value)

theorem signedWord_eq_self {value : Int} (least : leastWord ≤ value)
    (most : value ≤ greatestWord) : signedWord value = value := by
  unfold leastWord at least
  unfold greatestWord at most
  exact Int.bmod_eq_of_le (by omega) (by omega)

theorem leastWord_le_natCast (value : Nat) : leastWord ≤ value := by
  unfold leastWord
  omega

/-- Stopping at the ends of the range makes a difference below the greatest word only. -/
theorem clampedWord_le_iff {value bound : Int} (least : leastWord ≤ bound)
    (most : bound ≤ greatestWord) :
    clampedWord value ≤ bound ↔ value ≤ bound ∨ bound = greatestWord := by
  unfold clampedWord
  omega

end SegmentPlacement

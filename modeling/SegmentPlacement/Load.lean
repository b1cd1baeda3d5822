/-! How much work each position of a list carries, and choosing the position
that carries least. Of equal positions the first is chosen. -/

namespace SegmentPlacement

/-- The sum of a list of numbers. -/
def total (numbers : List Nat) : Nat := numbers.foldr (· + ·) 0

/-- The first of the candidates with the least weight. -/
def leastOf (weight : Nat → Nat) : List Nat → Option Nat
  | [] => none
  | first :: rest =>
    match leastOf weight rest with
    | some other => if weight other < weight first then some other else some first
    | none => some first

/-- The first of the candidates with the greatest weight. -/
def greatestOf (weight : Nat → Nat) : List Nat → Option Nat
  | [] => none
  | first :: rest =>
    match greatestOf weight rest with
    | some other => if weight first < weight other then some other else some first
    | none => some first

/-- What each position carries. -/
abbrev Loads := List Nat

namespace Loads

def zero (positions : Nat) : Loads := List.replicate positions 0

def carried (loads : Loads) (position : Nat) : Nat := loads.getD position 0

/-- One more for a position. -/
def add (loads : Loads) (position : Nat) : Loads := loads.modify position (· + 1)

/-- One unit of work handed from a position to another one. -/
def shift (loads : Loads) (source destination : Nat) : Loads :=
  (loads.modify source (· - 1)).modify destination (· + 1)

def positions (loads : Loads) : List Nat := List.range loads.length

/-- The least loaded position that is not taken. -/
def least? (loads : Loads) (taken : List Nat) : Option Nat :=
  leastOf loads.carried (loads.positions.filter fun position => ¬ taken.contains position)

/-- Takes `missing` more positions, each time the least loaded one that is not taken yet. -/
def fill : Nat → Loads → List Nat → List Nat × Loads
  | 0, loads, taken => (taken, loads)
  | missing + 1, loads, taken =>
    match loads.least? taken with
    | some position => fill missing (loads.add position) (taken ++ [position])
    | none => (taken, loads)

/-- Fills every list up to `size` positions, one list after the other. -/
def fillAll (size : Nat) : Loads → List (List Nat) → List (List Nat) × Loads
  | loads, [] => ([], loads)
  | loads, taken :: rest =>
    let (filled, next) := fill (size - taken.length) loads taken
    let (others, final) := fillAll size next rest
    (filled :: others, final)

end Loads

end SegmentPlacement

/-! Maps kept as lists of entries with strictly increasing keys. A map is its
entries, so two maps with the same look-ups are equal and every traversal runs
in key order. -/

namespace SegmentPlacement

open Std

/-- Entries in strictly increasing order of their keys. -/
structure OrderedMap (κ : Type) (β : Type) [Ord κ] where
  entries : List (κ × β)
  sorted : entries.Pairwise fun first second => compare first.1 second.1 = .lt

namespace OrderedMap

variable {κ : Type} {β γ σ : Type} [Ord κ]

/-- The entries with `value` stored under `key`, in place of what was there. -/
def insertEntry (key : κ) (value : β) : List (κ × β) → List (κ × β)
  | [] => [(key, value)]
  | entry :: rest =>
    match compare key entry.1 with
    | .lt => (key, value) :: entry :: rest
    | .eq => (key, value) :: rest
    | .gt => entry :: insertEntry key value rest

def find? (key : κ) : List (κ × β) → Option β
  | [] => none
  | entry :: rest =>
    match compare key entry.1 with
    | .lt => none
    | .eq => some entry.2
    | .gt => find? key rest

theorem mem_insertEntry {key : κ} {value : β} {entries : List (κ × β)} {entry : κ × β}
    (member : entry ∈ insertEntry key value entries) : entry = (key, value) ∨ entry ∈ entries := by
  induction entries with
  | nil => simpa [insertEntry] using member
  | cons head rest ih =>
    unfold insertEntry at member
    split at member
    · simpa using member
    · rcases List.mem_cons.mp member with here | there
      · exact Or.inl here
      · exact Or.inr (List.mem_cons_of_mem _ there)
    · rcases List.mem_cons.mp member with here | there
      · exact Or.inr (here ▸ List.mem_cons_self)
      · rcases ih there with here | there
        · exact Or.inl here
        · exact Or.inr (List.mem_cons_of_mem _ there)

theorem sorted_insertEntry [TransOrd κ] [LawfulEqOrd κ] (key : κ) (value : β)
    {entries : List (κ × β)}
    (sorted : entries.Pairwise fun first second => compare first.1 second.1 = .lt) :
    (insertEntry key value entries).Pairwise
      fun first second => compare first.1 second.1 = .lt := by
  induction entries with
  | nil => simp [insertEntry]
  | cons head rest ih =>
    obtain ⟨below, tail⟩ := List.pairwise_cons.mp sorted
    unfold insertEntry
    split
    · rename_i less
      refine List.pairwise_cons.mpr ⟨fun entry member => ?_, sorted⟩
      rcases List.mem_cons.mp member with rfl | later
      · exact less
      · exact TransCmp.lt_trans less (below entry later)
    · rename_i same
      have equal := LawfulEqOrd.eq_of_compare same
      exact List.pairwise_cons.mpr ⟨fun entry member => equal ▸ below entry member, tail⟩
    · rename_i greater
      refine List.pairwise_cons.mpr ⟨fun entry member => ?_, ih tail⟩
      rcases mem_insertEntry member with rfl | later
      · exact OrientedCmp.gt_iff_lt.mp greater
      · exact below entry later

def empty : OrderedMap κ β := ⟨[], .nil⟩

instance : EmptyCollection (OrderedMap κ β) := ⟨empty⟩

instance : Inhabited (OrderedMap κ β) := ⟨empty⟩

theorem eq_of_entries {first second : OrderedMap κ β} (same : first.entries = second.entries) :
    first = second := by
  cases first
  cases second
  cases same
  rfl

instance [DecidableEq κ] [DecidableEq β] : DecidableEq (OrderedMap κ β) := fun first second =>
  decidable_of_iff (first.entries = second.entries) ⟨eq_of_entries, fun same => same ▸ rfl⟩

def get? (map : OrderedMap κ β) (key : κ) : Option β := find? key map.entries

def contains (map : OrderedMap κ β) (key : κ) : Bool := (map.get? key).isSome

def keys (map : OrderedMap κ β) : List κ := map.entries.map Prod.fst

def values (map : OrderedMap κ β) : List β := map.entries.map Prod.snd

def size (map : OrderedMap κ β) : Nat := map.entries.length

def isEmpty (map : OrderedMap κ β) : Bool := map.entries.isEmpty

def insert [TransOrd κ] [LawfulEqOrd κ] (map : OrderedMap κ β) (key : κ) (value : β) :
    OrderedMap κ β :=
  ⟨insertEntry key value map.entries, sorted_insertEntry key value map.sorted⟩

/-- Every entry stored one after the other, so the last of equal keys wins. -/
def insertAll [TransOrd κ] [LawfulEqOrd κ] (map : OrderedMap κ β) (entries : List (κ × β)) :
    OrderedMap κ β :=
  entries.foldl (fun built entry => built.insert entry.1 entry.2) map

def ofList [TransOrd κ] [LawfulEqOrd κ] (entries : List (κ × β)) : OrderedMap κ β :=
  empty.insertAll entries

/-- The entries that `keep` accepts. -/
def filter (map : OrderedMap κ β) (keep : κ → β → Bool) : OrderedMap κ β :=
  ⟨map.entries.filter fun entry => keep entry.1 entry.2, map.sorted.filter _⟩

def erase [DecidableEq κ] (map : OrderedMap κ β) (key : κ) : OrderedMap κ β :=
  map.filter fun other _ => decide (other ≠ key)

/-- The same keys with every value replaced. -/
def map (map : OrderedMap κ β) (change : κ → β → γ) : OrderedMap κ γ :=
  ⟨map.entries.map fun entry => (entry.1, change entry.1 entry.2),
    List.pairwise_map.mpr map.sorted⟩

/-- The value under `key` changed, when there is one. -/
def modify [DecidableEq κ] (map : OrderedMap κ β) (key : κ) (change : β → β) : OrderedMap κ β :=
  map.map fun other value => if other = key then change value else value

/-- The entries with every value replaced, from the first on, along with a running state. -/
def replaceEntries (step : σ → κ → β → γ × σ) : σ → List (κ × β) → List (κ × γ)
  | _, [] => []
  | state, entry :: rest =>
    let (value, next) := step state entry.1 entry.2
    (entry.1, value) :: replaceEntries step next rest

omit [Ord κ] in
theorem keys_replaceEntries (step : σ → κ → β → γ × σ) (state : σ) (entries : List (κ × β)) :
    (replaceEntries step state entries).map Prod.fst = entries.map Prod.fst := by
  induction entries generalizing state with
  | nil => rfl
  | cons entry rest ih => simp only [replaceEntries, List.map_cons, ih]

/-- The same keys with every value replaced in key order, along with a running state. -/
def mapAccum (map : OrderedMap κ β) (step : σ → κ → β → γ × σ) (start : σ) : OrderedMap κ γ :=
  ⟨replaceEntries step start map.entries, by
    have keys := keys_replaceEntries step start map.entries
    have sorted := map.sorted
    rw [← List.pairwise_map (f := Prod.fst) (R := fun first second => compare first second = .lt)]
      at sorted ⊢
    rwa [keys]⟩

def foldl (map : OrderedMap κ β) (step : γ → κ → β → γ) (start : γ) : γ :=
  map.entries.foldl (fun state entry => step state entry.1 entry.2) start

/-- `amount` added to the number under `key`, which counts as 0 when it is missing. -/
def add [TransOrd κ] [LawfulEqOrd κ] (map : OrderedMap κ Nat) (key : κ) (amount : Nat) :
    OrderedMap κ Nat :=
  map.insert key ((map.get? key).getD 0 + amount)

/-- The set of the listed keys. -/
def ofKeys [TransOrd κ] [LawfulEqOrd κ] (keys : List κ) : OrderedMap κ Unit :=
  ofList (keys.map fun key => (key, ()))

theorem find?_eq_some_of_mem [TransOrd κ] [LawfulEqOrd κ] {key : κ} {value : β}
    {entries : List (κ × β)}
    (sorted : entries.Pairwise fun first second => compare first.1 second.1 = .lt)
    (member : (key, value) ∈ entries) : find? key entries = some value := by
  induction entries with
  | nil => cases member
  | cons head rest ih =>
    obtain ⟨below, tail⟩ := List.pairwise_cons.mp sorted
    rcases List.mem_cons.mp member with rfl | later
    · simp [find?]
    · have greater : compare key head.1 = .gt := OrientedCmp.gt_iff_lt.mpr (below _ later)
      simp only [find?, greater]
      exact ih tail later

theorem mem_of_find?_eq_some [LawfulEqOrd κ] {key : κ} {value : β} {entries : List (κ × β)}
    (found : find? key entries = some value) : (key, value) ∈ entries := by
  induction entries with
  | nil => cases found
  | cons head rest ih =>
    unfold find? at found
    split at found
    · cases found
    · rename_i same
      have equal := LawfulEqOrd.eq_of_compare same
      cases found
      exact equal ▸ List.mem_cons_self
    · exact List.mem_cons_of_mem _ (ih found)

theorem get?_eq_some_iff [TransOrd κ] [LawfulEqOrd κ] {map : OrderedMap κ β} {key : κ}
    {value : β} : map.get? key = some value ↔ (key, value) ∈ map.entries :=
  ⟨mem_of_find?_eq_some, find?_eq_some_of_mem map.sorted⟩

end OrderedMap

/-- A set of names, listed in increasing order. -/
abbrev NameSet := OrderedMap String Unit

end SegmentPlacement

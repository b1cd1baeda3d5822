import SegmentPlacement.Proofs.MoveStep
import Mathlib.Logic.Function.Iterate

/-! Steps come to an end. A step that is made for a segment brings in at least one
of the servers that it is missing, and with the last of them, or when none is
missing, the segment is in place. Batches put off segments, but never the first
one that would gain a server. -/

namespace SegmentPlacement.Move

/-- The steps that a segment may still need: one for every server that it is missing, and one when
only servers leave or states change. -/
def segmentSteps (current target : Replicas) : Nat :=
  if current = target then 0 else max (gaining current target).length 1

def stepsFor (target : Assignment) (entry : String × Replicas) : Nat :=
  match target.get? entry.1 with
  | none => 0
  | some wanted => segmentSteps entry.2 wanted

/-- The steps that all segments may need one after the other. -/
def stepsNeeded (current target : Assignment) : Nat :=
  total (current.entries.map (stepsFor target))

section replicas

variable (current target : Replicas) (minAvailable : Nat)

private def common : Replicas := target.filter fun server _ => current.contains server

private def arriving : Replicas := target.filter fun server _ => ¬ current.contains server

private def kept : List (String × ReplicaState) :=
  (current.filter fun server _ => ¬ target.contains server).entries.take
    (min minAvailable (target.size - 1) - (common current target).size)

private def room : Nat :=
  target.size - ((common current target).size + (kept current target minAvailable).length)

private theorem nextReplicas_eq : nextReplicas current target minAvailable =
    ((common current target).insertAll (kept current target minAvailable)).insertAll
      ((arriving current target).entries.take (room current target minAvailable)) := rfl

private theorem size_target :
    target.size = (common current target).size + (arriving current target).size := by
  have parts := List.length_eq_length_filter_add (l := target.entries)
    fun entry => current.contains entry.1
  simpa [OrderedMap.size, common, arriving, OrderedMap.filter] using parts

private theorem length_gaining :
    (gaining current target).length = (arriving current target).size := by
  rw [gaining, arriving, ← OrderedMap.length_keys, OrderedMap.keys_filter]

private theorem length_kept_lt (missing : 0 < (arriving current target).size) :
    (kept current target minAvailable).length < (arriving current target).size := by
  have parts := size_target current target
  have taken := List.length_take_le (min minAvailable (target.size - 1) - (common current target).size)
    (current.filter fun server _ => ¬ target.contains server).entries
  unfold kept
  omega

private theorem kept_of_complete (complete : (arriving current target).size = 0) :
    kept current target minAvailable = [] := by
  have parts := size_target current target
  have none : min minAvailable (target.size - 1) - (common current target).size = 0 := by omega
  rw [kept, none, List.take_zero]

private theorem get?_insertAll_arriving (server : String) :
    ((common current target).insertAll (arriving current target).entries).get? server =
      target.get? server := by
  by_cases new : server ∈ (arriving current target).keys
  · obtain ⟨state, found⟩ := OrderedMap.mem_keys_iff.mp new
    have listed := OrderedMap.get?_eq_some_iff.mp found
    rw [OrderedMap.get?_insertAll_of_mem (arriving current target).nodup_keys listed]
    exact (OrderedMap.get?_eq_some_iff.mpr (List.mem_filter.mp listed).1).symm
  · rw [OrderedMap.get?_insertAll_of_not_mem new, common, OrderedMap.get?_filter]
    cases wanted : target.get? server with
    | none => rfl
    | some state =>
      have held : current.contains server = true := by
        by_contra absent
        refine new (OrderedMap.mem_keys_iff.mpr ⟨state, ?_⟩)
        rw [arriving, OrderedMap.get?_filter, wanted, Option.filter_some, if_pos (by simpa using absent)]
      simp [held]

private theorem nextReplicas_of_kept (none : kept current target minAvailable = []) :
    nextReplicas current target minAvailable = target := by
  have parts := size_target current target
  have enough : (arriving current target).entries.length ≤ room current target minAvailable := by
    rw [room, none, parts]
    simp only [OrderedMap.size, List.length_nil]
    omega
  rw [nextReplicas_eq, none, List.take_of_length_le enough]
  exact OrderedMap.ext_get? (get?_insertAll_arriving current target)

private theorem nextReplicas_self : nextReplicas target target minAvailable = target := by
  refine nextReplicas_of_kept target target minAvailable (kept_of_complete _ _ _ ?_)
  have none : (arriving target target).keys = [] := by
    rw [arriving, OrderedMap.keys_filter]
    refine List.filter_eq_nil_iff.mpr fun server member => ?_
    simp [OrderedMap.contains_iff.mpr member]
  rw [← OrderedMap.length_keys, none]
  rfl

private theorem gaining_nextReplicas_subset :
    gaining (nextReplicas current target minAvailable) target ⊆
      ((arriving current target).entries.drop (room current target minAvailable)).map Prod.fst := by
  intro server member
  obtain ⟨wanted, absent⟩ := List.mem_filter.mp member
  have outside : server ∉ (nextReplicas current target minAvailable).keys := by
    simpa [OrderedMap.contains_iff] using absent
  rw [nextReplicas_eq, OrderedMap.mem_keys_insertAll, OrderedMap.mem_keys_insertAll] at outside
  push Not at outside
  have held : ¬ current.contains server := by
    intro held
    refine outside.1.1 ?_
    rw [common, OrderedMap.keys_filter]
    exact List.mem_filter.mpr ⟨wanted, held⟩
  have missing : server ∈ (arriving current target).entries.map Prod.fst := by
    change server ∈ (arriving current target).keys
    rw [arriving, OrderedMap.keys_filter]
    exact List.mem_filter.mpr ⟨wanted, by simpa using held⟩
  rw [← List.take_append_drop (room current target minAvailable) (arriving current target).entries,
    List.map_append, List.mem_append] at missing
  exact missing.resolve_left outside.2

private theorem segmentSteps_nextReplicas_lt (different : current ≠ target) :
    segmentSteps (nextReplicas current target minAvailable) target < segmentSteps current target := by
  have before : segmentSteps current target = max (arriving current target).size 1 := by
    rw [segmentSteps, if_neg different, length_gaining]
  rw [before, segmentSteps]
  split
  · omega
  · rename_i short
    have missing : 0 < (arriving current target).size := by
      by_contra complete
      refine short (nextReplicas_of_kept current target minAvailable ?_)
      exact kept_of_complete current target minAvailable (by omega)
    have staying : (kept current target minAvailable).length ≠ 0 := fun none =>
      short (nextReplicas_of_kept current target minAvailable (List.length_eq_zero_iff.mp none))
    have fewer := length_kept_lt current target minAvailable missing
    have parts := size_target current target
    have distinct : (gaining (nextReplicas current target minAvailable) target).Nodup :=
      target.nodup_keys.filter _
    have bound := distinct.length_le_of_subset (gaining_nextReplicas_subset ..)
    rw [List.length_map, List.length_drop, room] at bound
    change _ ≤ (arriving current target).size - _ at bound
    omega

end replicas

theorem segmentSteps_eq_zero_iff {current target : Replicas} :
    segmentSteps current target = 0 ↔ current = target := by
  unfold segmentSteps
  split
  · rename_i same
    simp [same]
  · rename_i different
    simp only [different, iff_false]
    omega

theorem reached_iff {current target : Assignment} :
    reached current target = true ↔ ∀ segment before wanted, current.get? segment = some before →
      target.get? segment = some wanted → before = wanted := by
  simp only [reached, List.all_eq_true]
  constructor
  · intro all segment before wanted held aimed
    have there := all (segment, wanted) (OrderedMap.get?_eq_some_iff.mp aimed)
    simpa [held] using there
  · intro all entry member
    cases held : current.get? entry.1 with
    | none => rfl
    | some before =>
      simpa using all entry.1 before entry.2 held (OrderedMap.get?_eq_some_iff.mpr member)

theorem eq_of_reached {current target : Assignment} (reached : Move.reached current target = true)
    (names : current.keys = target.keys) : current = target := by
  refine OrderedMap.ext_get? fun name => ?_
  cases held : current.get? name with
  | none =>
    have absent : name ∉ target.keys := by
      rw [← names, OrderedMap.mem_keys_iff, held]
      rintro ⟨_, found⟩
      cases found
    exact (Option.eq_none_iff_forall_ne_some.mpr fun replicas found =>
      absent (OrderedMap.mem_keys_iff.mpr ⟨replicas, found⟩)).symm
  | some replicas =>
    have listed := OrderedMap.mem_keys_iff.mpr ⟨replicas, held⟩
    rw [names] at listed
    obtain ⟨wanted, aimed⟩ := OrderedMap.mem_keys_iff.mp listed
    rw [aimed, reached_iff.mp reached name replicas wanted held aimed]

private theorem total_eq_zero_iff {numbers : List Nat} :
    total numbers = 0 ↔ ∀ number ∈ numbers, number = 0 := by
  induction numbers with
  | nil => simp [total]
  | cons first rest ih =>
    simp only [total, List.foldr_cons, Nat.add_eq_zero_iff, List.forall_mem_cons] at ih ⊢
    rw [ih]

theorem stepsNeeded_eq_zero_iff {current target : Assignment} :
    stepsNeeded current target = 0 ↔ reached current target = true := by
  rw [stepsNeeded, total_eq_zero_iff, reached_iff]
  simp only [List.forall_mem_map]
  constructor
  · intro none segment before wanted held aimed
    have zero := none (segment, before) (OrderedMap.get?_eq_some_iff.mp held)
    rw [stepsFor, aimed] at zero
    exact segmentSteps_eq_zero_iff.mp zero
  · intro all entry member
    unfold stepsFor
    cases aimed : target.get? entry.1 with
    | none => rfl
    | some wanted =>
      have held := OrderedMap.get?_eq_some_iff.mpr member
      exact segmentSteps_eq_zero_iff.mpr (all entry.1 entry.2 wanted held aimed)

section assignments

variable (target : Assignment) (minAvailable : Nat) (batch : Option Nat)

private theorem stepsFor_nextSegment_le (gained : OrderedMap String Nat) (segment : String)
    (current : Replicas) :
    stepsFor target (segment, (nextSegment target minAvailable batch gained segment current).1) ≤
      stepsFor target (segment, current) := by
  rcases nextSegment_cases target minAvailable batch gained segment current with
    same | ⟨wanted, aimed, step⟩
  · exact Nat.le_of_eq (by rw [same])
  · rw [step]
    simp only [stepsFor, aimed]
    by_cases settled : current = wanted
    · exact Nat.le_of_eq (by rw [settled, nextReplicas_self])
    · exact Nat.le_of_lt (segmentSteps_nextReplicas_lt current wanted minAvailable settled)

private theorem total_replaceEntries_le (gained : OrderedMap String Nat)
    (entries : List (String × Replicas)) :
    total ((OrderedMap.replaceEntries (nextSegment target minAvailable batch) gained entries).map
        (stepsFor target)) ≤ total (entries.map (stepsFor target)) := by
  induction entries generalizing gained with
  | nil => exact Nat.le_refl _
  | cons entry rest ih =>
    have here := stepsFor_nextSegment_le target minAvailable batch gained entry.1 entry.2
    exact Nat.add_le_add here (ih _)

private theorem nextSegment_of_settled {segment : String} {current : Replicas}
    (gained : OrderedMap String Nat) (settled : stepsFor target (segment, current) = 0) :
    nextSegment target minAvailable batch gained segment current = (current, gained) := by
  unfold nextSegment
  cases aimed : target.get? segment with
  | none => rfl
  | some wanted =>
    simp only [stepsFor, aimed, segmentSteps_eq_zero_iff] at settled
    subst settled
    have none : gaining current current = [] := by
      refine List.filter_eq_nil_iff.mpr fun server member => ?_
      simp [OrderedMap.contains_iff.mpr member]
    cases batch <;> simp [nextReplicas_self, none]

/-- The first segment that needs a step makes it: nobody has gained a segment yet. -/
private theorem stepsFor_nextSegment_lt (roomy : ∀ size, batch = some size → 0 < size)
    {segment : String} {current : Replicas} (left : stepsFor target (segment, current) ≠ 0) :
    stepsFor target (segment, (nextSegment target minAvailable batch {} segment current).1) <
      stepsFor target (segment, current) := by
  cases aimed : target.get? segment with
  | none => simp [stepsFor, aimed] at left
  | some wanted =>
    simp only [stepsFor, aimed] at left ⊢
    have different : current ≠ wanted := fun same => left (segmentSteps_eq_zero_iff.mpr same)
    have closer := segmentSteps_nextReplicas_lt current wanted minAvailable different
    cases batch with
    | none => simpa [nextSegment, aimed] using closer
    | some size =>
      have batched : ¬ size ≤ 0 := Nat.not_le.mpr (roomy size rfl)
      simpa [nextSegment, aimed, batched] using closer

private theorem total_replaceEntries_lt (roomy : ∀ size, batch = some size → 0 < size)
    {entries : List (String × Replicas)} (left : total (entries.map (stepsFor target)) ≠ 0) :
    total ((OrderedMap.replaceEntries (nextSegment target minAvailable batch) {} entries).map
        (stepsFor target)) < total (entries.map (stepsFor target)) := by
  induction entries with
  | nil => exact absurd rfl left
  | cons entry rest ih =>
    by_cases settled : stepsFor target entry = 0
    · have stays := nextSegment_of_settled target minAvailable batch {} settled
      have later : total (rest.map (stepsFor target)) ≠ 0 := by
        simpa [total, settled] using left
      simp only [OrderedMap.replaceEntries, stays, List.map_cons, total, List.foldr_cons]
      exact Nat.add_lt_add_left (ih later) _
    · have closer := stepsFor_nextSegment_lt target minAvailable batch roomy settled
      exact Nat.add_lt_add_of_lt_of_le closer (total_replaceEntries_le target minAvailable batch _ rest)

end assignments

variable {current target : Assignment} {batch : Option Nat}

private theorem stepsNeeded_next_le (current target : Assignment) (minAvailable : Nat)
    (batch : Option Nat) :
    stepsNeeded (next current target minAvailable batch) target ≤ stepsNeeded current target :=
  total_replaceEntries_le target minAvailable batch {} current.entries

/-- Every step gets closer to the target until it is reached. -/
theorem stepsNeeded_next_lt (minAvailable : Nat) (roomy : ∀ size, batch = some size → 0 < size)
    (left : reached current target = false) :
    stepsNeeded (next current target minAvailable batch) target < stepsNeeded current target := by
  refine total_replaceEntries_lt target minAvailable batch roomy fun none => ?_
  rw [stepsNeeded_eq_zero_iff.mp none] at left
  cases left

theorem reached_iterate (minAvailable : Nat) (roomy : ∀ size, batch = some size → 0 < size)
    {steps : Nat} (enough : stepsNeeded current target ≤ steps) :
    reached ((fun assignment => next assignment target minAvailable batch)^[steps] current) target =
      true := by
  induction steps generalizing current with
  | zero => exact stepsNeeded_eq_zero_iff.mp (Nat.le_zero.mp enough)
  | succ steps ih =>
    rw [Function.iterate_succ_apply]
    refine ih ?_
    cases done : reached current target with
    | true =>
      have none := stepsNeeded_eq_zero_iff.mpr done
      have later := stepsNeeded_next_le current target minAvailable batch
      omega
    | false =>
      have closer := stepsNeeded_next_lt minAvailable roomy done
      omega

end SegmentPlacement.Move

import SegmentPlacement.Move
import SegmentPlacement.Proofs.OrderedMap

/-! What one step makes of an assignment. A step leaves the names of segments
alone, does not touch segments without a target, and takes servers away from a
segment only down to a floor that leaves room for one new server. -/

namespace SegmentPlacement.Move

/-- The servers that hold the segment before and after a step. -/
def staying (current next : Replicas) : List String := current.keys.filter next.contains

theorem staying_self (current : Replicas) : (staying current current).length = current.size := by
  have all : staying current current = current.keys :=
    List.filter_eq_self.mpr fun _ member => OrderedMap.contains_iff.mpr member
  rw [all, OrderedMap.length_keys]

@[simp] theorem keys_next (current target : Assignment) (minAvailable : Nat) (batch : Option Nat) :
    (next current target minAvailable batch).keys = current.keys :=
  OrderedMap.keys_mapAccum current _ _

theorem nextSegment_cases (target : Assignment) (minAvailable : Nat) (batch : Option Nat)
    (gained : OrderedMap String Nat) (segment : String) (current : Replicas) :
    (nextSegment target minAvailable batch gained segment current).1 = current ∨
      ∃ wanted, target.get? segment = some wanted ∧
        (nextSegment target minAvailable batch gained segment current).1 =
          nextReplicas current wanted minAvailable := by
  unfold nextSegment
  cases found : target.get? segment with
  | none => exact Or.inl rfl
  | some wanted =>
    cases batch with
    | none => exact Or.inr ⟨wanted, rfl, rfl⟩
    | some size =>
      simp only
      split
      · exact Or.inl rfl
      · exact Or.inr ⟨wanted, rfl, rfl⟩

/-- A segment is either put off or makes its own step toward its target. -/
theorem get?_next {current target : Assignment} {minAvailable : Nat} {batch : Option Nat}
    {segment : String} {before : Replicas} (held : current.get? segment = some before) :
    (next current target minAvailable batch).get? segment = some before ∨
      ∃ wanted, target.get? segment = some wanted ∧
        (next current target minAvailable batch).get? segment =
          some (nextReplicas before wanted minAvailable) := by
  obtain ⟨gained, found⟩ :=
    OrderedMap.get?_mapAccum (nextSegment target minAvailable batch) {} held
  change (next current target minAvailable batch).get? segment = _ at found
  rw [found]
  rcases nextSegment_cases target minAvailable batch gained segment before with same | step
  · exact Or.inl (congrArg some same)
  · obtain ⟨wanted, aimed, same⟩ := step
    exact Or.inr ⟨wanted, aimed, congrArg some same⟩

theorem get?_next_of_untargeted {current target : Assignment} (minAvailable : Nat)
    (batch : Option Nat) {segment : String} (untargeted : target.get? segment = none) :
    (next current target minAvailable batch).get? segment = current.get? segment := by
  cases held : current.get? segment with
  | none =>
    cases found : (next current target minAvailable batch).get? segment with
    | none => rfl
    | some after =>
      have member := OrderedMap.mem_keys_iff.mpr ⟨after, found⟩
      rw [keys_next, OrderedMap.mem_keys_iff] at member
      obtain ⟨before, there⟩ := member
      rw [held] at there
      cases there
  | some before =>
    rcases get?_next held with same | ⟨wanted, aimed, _⟩
    · exact same
    · rw [untargeted] at aimed
      cases aimed

private theorem mem_keys_nextReplicas {current target : Replicas} {minAvailable : Nat}
    {server : String} (member : server ∈ (target.keys.filter current.contains) ∨
      server ∈ ((current.filter fun server _ => ¬ target.contains server).entries.take
        (min minAvailable (target.size - 1) - (target.keys.filter current.contains).length)).map
          Prod.fst) :
    server ∈ (nextReplicas current target minAvailable).keys := by
  rw [← OrderedMap.keys_filter, OrderedMap.length_keys] at member
  exact OrderedMap.mem_keys_insertAll.mpr (Or.inl (OrderedMap.mem_keys_insertAll.mpr member))

theorem mem_nextReplicas_of_common {current target : Replicas} {server : String}
    (minAvailable : Nat) (held : server ∈ current.keys) (wanted : server ∈ target.keys) :
    server ∈ (nextReplicas current target minAvailable).keys :=
  mem_keys_nextReplicas (Or.inl (List.mem_filter.mpr ⟨wanted, OrderedMap.contains_iff.mpr held⟩))

theorem mem_of_mem_nextReplicas {current target : Replicas} {minAvailable : Nat} {server : String}
    (member : server ∈ (nextReplicas current target minAvailable).keys) :
    server ∈ current.keys ∨ server ∈ target.keys := by
  unfold nextReplicas at member
  rcases OrderedMap.mem_keys_insertAll.mp member with older | arriving
  · rcases OrderedMap.mem_keys_insertAll.mp older with common | leaving
    · rw [OrderedMap.keys_filter] at common
      exact Or.inr (List.mem_filter.mp common).1
    · obtain ⟨entry, taken, rfl⟩ := List.mem_map.mp leaving
      exact Or.inl (List.mem_map_of_mem (List.mem_filter.mp (List.mem_of_mem_take taken)).1)
  · obtain ⟨entry, taken, rfl⟩ := List.mem_map.mp arriving
    exact Or.inr (List.mem_map_of_mem (List.mem_filter.mp (List.mem_of_mem_take taken)).1)

/-- A step keeps the floor of servers on a segment. The floor is below the size of the target, so
that the step can add a server. -/
theorem le_staying_nextReplicas (current target : Replicas) (minAvailable : Nat) :
    min (min minAvailable current.size) (target.size - 1) ≤
      (staying current (nextReplicas current target minAvailable)).length := by
  let common := target.keys.filter current.contains
  let shared := current.keys.filter target.contains
  let leaving := current.filter fun server _ => ¬ target.contains server
  let kept := (leaving.entries.take
    (min minAvailable (target.size - 1) - common.length)).map Prod.fst
  have left : ∀ server ∈ kept, server ∈ current.keys ∧ target.contains server = false := by
    intro server member
    obtain ⟨entry, taken, rfl⟩ := List.mem_map.mp member
    obtain ⟨inside, apart⟩ := List.mem_filter.mp (List.mem_of_mem_take taken)
    exact ⟨List.mem_map.mpr ⟨entry, inside, rfl⟩, by simpa using apart⟩
  have inside : shared ++ kept ⊆ staying current (nextReplicas current target minAvailable) := by
    intro server member
    refine List.mem_filter.mpr ?_
    rw [OrderedMap.contains_iff]
    rcases List.mem_append.mp member with both | old
    · obtain ⟨held, wanted⟩ := List.mem_filter.mp both
      refine ⟨held, mem_keys_nextReplicas (Or.inl (List.mem_filter.mpr ⟨?_, ?_⟩))⟩
      · exact OrderedMap.contains_iff.mp wanted
      · exact OrderedMap.contains_iff.mpr held
    · exact ⟨(left server old).1, mem_keys_nextReplicas (Or.inr old)⟩
  have distinct : (shared ++ kept).Nodup := by
    refine List.nodup_append.mpr ⟨current.nodup_keys.filter _, ?_, ?_⟩
    · exact leaving.nodup_keys.sublist ((List.take_sublist _ _).map Prod.fst)
    · intro server both other old same
      have wanted := (List.mem_filter.mp both).2
      rw [same, (left other old).2] at wanted
      cases wanted
  have length := distinct.length_le_of_subset inside
  have same : shared.length = common.length := OrderedMap.length_filter_contains_comm current target
  have split : shared.length + leaving.size = current.size := by
    have parts := List.length_eq_length_filter_add (l := current.keys) target.contains
    rw [← OrderedMap.length_keys leaving, ← OrderedMap.length_keys current, OrderedMap.keys_filter]
    simpa [shared] using parts.symm
  have taken : kept.length = min (min minAvailable (target.size - 1) - common.length) leaving.size := by
    simp [kept, OrderedMap.size]
  rw [List.length_append] at length
  omega

theorem le_staying_next {current target : Assignment} (minAvailable : Nat) (batch : Option Nat)
    {segment : String} {before wanted : Replicas} (held : current.get? segment = some before)
    (aimed : target.get? segment = some wanted) :
    ∃ after, (next current target minAvailable batch).get? segment = some after ∧
      min (min minAvailable before.size) (wanted.size - 1) ≤ (staying before after).length := by
  rcases get?_next held with same | ⟨other, found, same⟩
  · refine ⟨before, same, ?_⟩
    rw [staying_self]
    omega
  · rw [aimed] at found
    cases found
    exact ⟨_, same, le_staying_nextReplicas before wanted minAvailable⟩

end SegmentPlacement.Move

import SegmentPlacement.Convergence
import SegmentPlacement.Proofs.OrderedMap

/-! When a strict check is satisfied, and when it fails. Satisfied it is if every
replica is reported as wanted, in whatever order they are examined. It fails only
if nothing before the replica in error keeps it waiting. -/

namespace SegmentPlacement.Convergence

/-- Every replica that is not offline is reported in just the state that it should have. -/
def Shows (view ideal : Assignment) : Prop :=
  ∀ segment replicas, ideal.get? segment = some replicas →
    ∀ server state, replicas.get? server = some state → state ≠ .offline →
      reported? view segment server = some state

def AsWanted (view : Assignment) (replica : String × String × ReplicaState) : Prop :=
  reported? view replica.1 replica.2.1 = some replica.2.2

/-- A replica of the segment is reported in error, against its wanted state, and all replicas
examined before it are as wanted. -/
def Breaks (view ideal : Assignment) (segment : String) : Prop :=
  ∃ before server state after, awaited ideal = before ++ (segment, server, state) :: after ∧
    (∀ replica ∈ before, AsWanted view replica) ∧
    reported? view segment server = some .error ∧ state ≠ .error

theorem mem_awaited {ideal : Assignment} {segment server : String} {state : ReplicaState} :
    (segment, server, state) ∈ awaited ideal ↔
      ∃ replicas, ideal.get? segment = some replicas ∧
        replicas.get? server = some state ∧ state ≠ .offline := by
  simp only [awaited, List.mem_flatMap, List.mem_map, List.mem_filter, decide_eq_true_eq,
    Prod.exists, Prod.mk.injEq, OrderedMap.get?_eq_some_iff]
  constructor
  · rintro ⟨name, replicas, stored, id, kept, ⟨hosted, serving⟩, rfl, rfl, rfl⟩
    exact ⟨replicas, stored, hosted, serving⟩
  · rintro ⟨replicas, stored, hosted, serving⟩
    exact ⟨segment, replicas, stored, server, state, ⟨hosted, serving⟩, rfl, rfl, rfl⟩

theorem shows_iff {view ideal : Assignment} :
    Shows view ideal ↔ ∀ replica ∈ awaited ideal, AsWanted view replica := by
  constructor
  · rintro shows ⟨segment, server, state⟩ member
    obtain ⟨replicas, stored, hosted, serving⟩ := mem_awaited.mp member
    exact shows segment replicas stored server state hosted serving
  · intro wanted segment replicas stored server state hosted serving
    exact wanted _ (mem_awaited.mpr ⟨replicas, stored, hosted, serving⟩)

section

variable {view : Assignment} {replica : String × String × ReplicaState}
  {replicas : List (String × String × ReplicaState)}

private theorem judge_of_wanted (wanted : AsWanted view replica) :
    judge view false (replica :: replicas) = judge view false replicas := by
  have seen : reported? view replica.1 replica.2.1 = some replica.2.2 := wanted
  simp only [judge, seen, if_true]

private theorem judge_of_unwanted (unwanted : ¬ AsWanted view replica) :
    judge view false (replica :: replicas) =
      if reported? view replica.1 replica.2.1 = some .error then .failed replica.1
      else .pending := by
  cases seen : reported? view replica.1 replica.2.1 with
  | none => simp [judge, seen]
  | some state =>
    have differs : state ≠ replica.2.2 := fun same => unwanted (seen.trans (congrArg some same))
    simp [judge, seen, differs]

theorem judge_eq_converged_iff :
    judge view false replicas = .converged ↔ ∀ replica ∈ replicas, AsWanted view replica := by
  induction replicas with
  | nil => simp [judge]
  | cons replica rest ih =>
    rw [List.forall_mem_cons]
    by_cases wanted : AsWanted view replica
    · rw [judge_of_wanted wanted, ih]
      exact (and_iff_right wanted).symm
    · rw [judge_of_unwanted wanted]
      refine ⟨fun judged => ?_, fun all => absurd all.1 wanted⟩
      split at judged <;> cases judged

theorem judge_eq_failed_iff {segment : String} :
    judge view false replicas = .failed segment ↔
      ∃ before server state after, replicas = before ++ (segment, server, state) :: after ∧
        (∀ replica ∈ before, AsWanted view replica) ∧
        reported? view segment server = some .error ∧ state ≠ .error := by
  induction replicas with
  | nil => simp [judge]
  | cons replica rest ih =>
    by_cases wanted : AsWanted view replica
    · rw [judge_of_wanted wanted, ih]
      constructor
      · rintro ⟨before, server, state, after, rfl, earlier, broken⟩
        exact ⟨replica :: before, server, state, after, rfl,
          List.forall_mem_cons.mpr ⟨wanted, earlier⟩, broken⟩
      · rintro ⟨before, server, state, after, split, earlier, broken, differs⟩
        cases before with
        | nil =>
          cases split
          exact absurd (Option.some.inj (broken.symm.trans wanted)).symm differs
        | cons first before =>
          cases split
          exact ⟨before, server, state, after, rfl, (List.forall_mem_cons.mp earlier).2, broken,
            differs⟩
    · rw [judge_of_unwanted wanted]
      constructor
      · intro judged
        split at judged
        · rename_i broken
          cases judged
          exact ⟨[], replica.2.1, replica.2.2, rest, rfl, by simp, broken,
            fun same => wanted (broken.trans (congrArg some same.symm))⟩
        · cases judged
      · rintro ⟨before, server, state, after, split, earlier, broken, differs⟩
        cases before with
        | nil =>
          cases split
          exact if_pos broken
        | cons first before =>
          cases split
          exact absurd (earlier _ List.mem_cons_self) wanted

end

theorem check_eq_converged_iff {ideal view : Assignment} :
    check ideal view false = .converged ↔ Shows view ideal := by
  rw [check, judge_eq_converged_iff, shows_iff]

theorem check_eq_failed_iff {ideal view : Assignment} {segment : String} :
    check ideal view false = .failed segment ↔ Breaks view ideal segment :=
  judge_eq_failed_iff

end SegmentPlacement.Convergence

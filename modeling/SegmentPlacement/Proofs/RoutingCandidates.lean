import SegmentPlacement.Proofs.OrderedMap
import SegmentPlacement.Routing.Candidate

/-! What a snapshot of candidates holds. Segments without candidates are set aside
when it is made, so every list that is kept has a candidate, and the candidates of
a segment are told from what its servers should do and what they report. -/

namespace SegmentPlacement

/-- Whether a server reports that it serves. -/
def Replicas.serves (reported : Replicas) (server : String) : Bool :=
  ((reported.get? server).map ReplicaState.isServing).getD false

namespace CandidateContext

variable {context : CandidateContext} {segment server : String}

/-- Whether a segment keeps candidates that are not online yet. -/
def keepsOffline (context : CandidateContext) (segment : String) (reported : Replicas) : Bool :=
  !reported.values.contains .error && context.isNew segment

theorem mem_pools_iff : server ∈ context.pools.keys ↔
    ∃ registered ∈ context.servers, registered.id = server ∧ registered.enabled = true := by
  have none : server ∉ (OrderedMap.empty : OrderedMap String Nat).keys := List.not_mem_nil
  rw [pools, OrderedMap.ofList, OrderedMap.mem_keys_insertAll, or_iff_right none]
  simp only [List.map_map, List.mem_map, List.mem_filter, Function.comp_apply]
  exact exists_congr fun registered => by tauto

/-- The candidate that a replica makes. One that is not online is kept only if that is asked for. -/
def candidateOf (pools : OrderedMap String Nat) (reported : Replicas) (keeps : Bool)
    (replica : String × ReplicaState) : Option Candidate :=
  if replica.2.isServing then
    (pools.get? replica.1).bind fun pool =>
      if reported.serves replica.1 || keeps then
        some ⟨replica.1, reported.serves replica.1, pool⟩
      else none
  else none

theorem candidates_eq (segment : String) (ideal reported : Replicas) :
    context.candidates segment ideal reported = ideal.entries.filterMap
      (candidateOf context.pools reported (context.keepsOffline segment reported)) := rfl

theorem candidateOf_eq_some_iff {pools : OrderedMap String Nat} {reported : Replicas} {keeps : Bool}
    {replica : String × ReplicaState} {candidate : Candidate} :
    candidateOf pools reported keeps replica = some candidate ↔
      candidate.server = replica.1 ∧ replica.2.isServing = true ∧
      pools.get? replica.1 = some candidate.pool ∧
      candidate.online = reported.serves replica.1 ∧ (candidate.online || keeps) = true := by
  simp only [candidateOf, Option.ite_none_right_eq_some, Option.bind_eq_some_iff,
    Option.some.injEq]
  constructor
  · rintro ⟨serving, pool, pooled, available, rfl⟩
    exact ⟨rfl, serving, pooled, rfl, available⟩
  · rintro ⟨same, serving, pooled, online, available⟩
    exact ⟨serving, candidate.pool, pooled, online ▸ available, by rw [← online, ← same]⟩

/-- The candidates of a segment are the enabled servers that should serve it and that do, or that
may still be loading it. -/
theorem mem_candidates_iff {ideal reported : Replicas} {candidate : Candidate} :
    candidate ∈ context.candidates segment ideal reported ↔
      (∃ state, ideal.get? candidate.server = some state ∧ state.isServing = true) ∧
      context.pools.get? candidate.server = some candidate.pool ∧
      candidate.online = reported.serves candidate.server ∧
      (candidate.online || context.keepsOffline segment reported) = true := by
  simp only [candidates_eq, List.mem_filterMap, Prod.exists, candidateOf_eq_some_iff,
    ← OrderedMap.get?_eq_some_iff]
  constructor
  · rintro ⟨_, state, stored, rfl, serving, made⟩
    exact ⟨⟨state, stored, serving⟩, made⟩
  · rintro ⟨⟨state, stored, serving⟩, made⟩
    exact ⟨candidate.server, state, stored, rfl, serving, made⟩

end CandidateContext

namespace RoutingStates

variable {segment server : String}

/-- The candidates that a snapshot offers for a segment. -/
def offered (states : RoutingStates) (segment : String) : List Candidate :=
  (states.candidatesOf? segment).getD []

theorem candidatesOf?_of_mem_offered {states : RoutingStates} {candidate : Candidate}
    (member : candidate ∈ states.offered segment) :
    states.candidatesOf? segment = some (states.offered segment) := by
  unfold offered at *
  cases found : states.candidatesOf? segment with
  | some candidates => rfl
  | none =>
    rw [found] at member
    cases member

private theorem inOrder_perm (candidates : List Candidate) : (inOrder candidates).Perm candidates :=
  List.mergeSort_perm candidates _

section ofLists

variable (lists : OrderedMap String (List Candidate)) (unavailable : NameSet)

theorem candidatesOf?_ofLists : (ofLists lists unavailable).candidatesOf? segment =
    ((lists.get? segment).filter fun list => ¬ list.isEmpty).map inOrder := by
  simp only [candidatesOf?, ofLists, OrderedMap.get?_map, OrderedMap.get?_filter]

theorem offered_ofLists_perm :
    ((ofLists lists unavailable).offered segment).Perm ((lists.get? segment).getD []) := by
  rw [offered, candidatesOf?_ofLists]
  cases lists.get? segment with
  | none => exact List.Perm.nil
  | some list =>
    cases list with
    | nil => exact List.Perm.nil
    | cons first rest => exact inOrder_perm _

theorem mem_offered_ofLists {candidate : Candidate} :
    candidate ∈ (ofLists lists unavailable).offered segment ↔
      ∃ list, lists.get? segment = some list ∧ candidate ∈ list := by
  rw [(offered_ofLists_perm lists unavailable).mem_iff]
  cases lists.get? segment <;> simp

theorem mem_unavailable_ofLists : segment ∈ (ofLists lists unavailable).unavailable.keys ↔
    segment ∈ unavailable.keys ∨ lists.get? segment = some [] := by
  have emptied : segment ∈ (lists.filter fun _ list => list.isEmpty).keys ↔
      lists.get? segment = some [] := by
    simp only [OrderedMap.mem_keys_iff, OrderedMap.get?_filter, Option.filter_eq_some_iff,
      List.isEmpty_iff]
    exact exists_eq_right
  simp only [ofLists, OrderedMap.mem_keys_insertAll, List.map_map, Function.comp_def, List.map_id',
    emptied]

end ofLists

section build

variable (ideal : IdealState) (view : Assignment) (context : CandidateContext)

theorem mem_offered_build {candidate : Candidate} :
    candidate ∈ (build ideal view context).offered segment ↔
      ∃ replicas, ideal.assignment.get? segment = some replicas ∧
        candidate ∈ context.candidates segment replicas ((view.get? segment).getD {}) := by
  refine (mem_offered_ofLists _ {}).trans ?_
  simp only [OrderedMap.get?_map, Option.map_eq_some_iff, exists_exists_and_eq_and]

theorem mem_unavailable_build : segment ∈ (build ideal view context).unavailable.keys ↔
    ∃ replicas, ideal.assignment.get? segment = some replicas ∧
      context.candidates segment replicas ((view.get? segment).getD {}) = [] := by
  refine (mem_unavailable_ofLists _ {}).trans ((or_iff_right List.not_mem_nil).trans ?_)
  rw [OrderedMap.get?_map, Option.map_eq_some_iff]

end build

/-- No segment is kept with an empty list of candidates. -/
def Stocked (states : RoutingStates) : Prop :=
  ∀ segment candidates, states.candidatesOf? segment = some candidates → candidates ≠ []

theorem stocked_ofLists (lists : OrderedMap String (List Candidate)) (unavailable : NameSet) :
    (ofLists lists unavailable).Stocked := by
  intro segment candidates found
  rw [candidatesOf?_ofLists] at found
  obtain ⟨list, kept, rfl⟩ := Option.map_eq_some_iff.mp found
  have some := (Option.filter_eq_some_iff.mp kept).2
  intro none
  have length := (inOrder_perm list).length_eq
  rw [none] at length
  simp [List.length_eq_zero_iff.mp length.symm] at some

/-- The ways to make a snapshot. -/
inductive Built : RoutingStates → Prop
  | ofLists (lists : OrderedMap String (List Candidate)) (unavailable : NameSet) :
    Built (ofLists lists unavailable)
  | build (ideal : IdealState) (view : Assignment) (context : CandidateContext) :
    Built (build ideal view context)

theorem Built.stocked {states : RoutingStates} (built : states.Built) : states.Stocked := by
  cases built with
  | ofLists lists unavailable => exact stocked_ofLists lists unavailable
  | build ideal view context => exact stocked_ofLists _ {}

end RoutingStates

end SegmentPlacement

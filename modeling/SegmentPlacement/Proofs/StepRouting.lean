import SegmentPlacement.Proofs.MoveStep
import SegmentPlacement.Proofs.RoutingCandidates

/-! Queries during a step. Servers that hold a segment before and after a step go on
serving it, whatever the servers that are to join have loaded so far, so a router
that sees the step finds at least the floor of them online. -/

namespace SegmentPlacement

/-- Every replica is to answer queries. -/
def Assignment.Serving (assignment : Assignment) : Prop :=
  ∀ replicas ∈ assignment.values, ∀ state ∈ replicas.values, state.isServing = true

instance (assignment : Assignment) : Decidable assignment.Serving :=
  inferInstanceAs (Decidable (∀ _ ∈ _, _))

theorem Assignment.Serving.isServing {assignment : Assignment} (serving : assignment.Serving)
    {segment server : String} {replicas : Replicas} {state : ReplicaState}
    (held : assignment.get? segment = some replicas) (found : replicas.get? server = some state) :
    state.isServing = true :=
  serving replicas (OrderedMap.mem_values_iff.mpr ⟨segment, held⟩) state
    (OrderedMap.mem_values_iff.mpr ⟨server, found⟩)

/-- The servers that queries for a segment reach. -/
def RoutingStates.onlineServers (states : RoutingStates) (segment : String) : List String :=
  ((states.offered segment).filter Candidate.online).map Candidate.server

namespace RoutingStates

variable {ideal : IdealState} {view : Assignment} {context : CandidateContext}
  {segment server : String}

theorem mem_onlineServers_build {replicas reported : Replicas}
    (serving : ideal.assignment.Serving)
    (stored : ideal.assignment.get? segment = some replicas) (held : server ∈ replicas.keys)
    (registered : server ∈ context.pools.keys) (viewed : view.get? segment = some reported)
    (reports : reported.serves server = true) :
    server ∈ (build ideal view context).onlineServers segment := by
  obtain ⟨state, found⟩ := OrderedMap.mem_keys_iff.mp held
  obtain ⟨pool, pooled⟩ := OrderedMap.mem_keys_iff.mp registered
  have serves := serving.isServing stored found
  have candidate : ⟨server, true, pool⟩ ∈ (build ideal view context).offered segment := by
    refine (mem_offered_build ideal view context).mpr ⟨replicas, stored, ?_⟩
    rw [viewed, Option.getD_some]
    exact CandidateContext.mem_candidates_iff.mpr
      ⟨⟨state, found, serves⟩, pooled, reports.symm, rfl⟩
  exact List.mem_map.mpr ⟨_, List.mem_filter.mpr ⟨candidate, rfl⟩, rfl⟩

theorem available_of_online (online : server ∈ (build ideal view context).onlineServers segment) :
    segment ∉ (build ideal view context).unavailable.keys ∧
      ((build ideal view context).candidatesOf? segment).isSome := by
  obtain ⟨candidate, member, _⟩ := List.mem_map.mp online
  have listed := (List.mem_filter.mp member).1
  constructor
  · intro aside
    obtain ⟨replicas, stored, none⟩ := (mem_unavailable_build ideal view context).mp aside
    obtain ⟨same, found, inside⟩ := (mem_offered_build ideal view context).mp listed
    rw [stored] at found
    cases found
    rw [none] at inside
    cases inside
  · rw [candidatesOf?_of_mem_offered listed, Option.isSome_some]

end RoutingStates

namespace Move

variable {current target : Assignment} {minAvailable : Nat} {batch : Option Nat}

/-- A step takes every replica from the current ones or from the wanted ones. -/
theorem get?_nextReplicas_cases {before wanted : Replicas} {server : String} {state : ReplicaState}
    (found : (nextReplicas before wanted minAvailable).get? server = some state) :
    before.get? server = some state ∨ wanted.get? server = some state := by
  rcases OrderedMap.get?_insertAll_cases found with older | arriving
  · rcases OrderedMap.get?_insertAll_cases older with common | leaving
    · rw [OrderedMap.get?_filter] at common
      exact Or.inr (Option.filter_eq_some_iff.mp common).1
    · have inside := OrderedMap.get?_eq_some_iff.mpr (List.mem_of_mem_take leaving)
      rw [OrderedMap.get?_filter] at inside
      exact Or.inl (Option.filter_eq_some_iff.mp inside).1
  · have inside := OrderedMap.get?_eq_some_iff.mpr (List.mem_of_mem_take arriving)
    rw [OrderedMap.get?_filter] at inside
    exact Or.inr (Option.filter_eq_some_iff.mp inside).1

private theorem serving_next (serving : current.Serving) (aimed : target.Serving) :
    (next current target minAvailable batch).Serving := by
  intro replicas member state held
  obtain ⟨segment, found⟩ := OrderedMap.mem_values_iff.mp member
  have kept := OrderedMap.mem_keys_iff.mpr ⟨replicas, found⟩
  rw [keys_next, OrderedMap.mem_keys_iff] at kept
  obtain ⟨before, stored⟩ := kept
  obtain ⟨server, there⟩ := OrderedMap.mem_values_iff.mp held
  have outcome : (next current target minAvailable batch).get? segment = some before ∨ _ :=
    get?_next stored
  rcases outcome with same | ⟨wanted, chosen, stepped⟩
  · rw [found] at same
    cases same
    exact serving.isServing stored there
  · rw [found] at stepped
    cases stepped
    rcases get?_nextReplicas_cases there with old | new
    · exact serving.isServing stored old
    · exact aimed.isServing chosen new

/-- What servers that hold a segment before and after a step have to do meanwhile: each of them is
registered as enabled and reports that it serves the segment. -/
structure StaysUp (current next view : Assignment) (context : CandidateContext) : Prop where
  reports : ∀ segment before after, current.get? segment = some before →
    next.get? segment = some after → ∀ server ∈ staying before after,
      ∃ reported, view.get? segment = some reported ∧ reported.serves server = true
  enabled : ∀ segment before after, current.get? segment = some before →
    next.get? segment = some after → ∀ server ∈ staying before after,
      ∃ registered ∈ context.servers, registered.id = server ∧ registered.enabled = true

section during

variable {ideal : IdealState} {view : Assignment} {context : CandidateContext} {segment : String}

private theorem staying_online (serving : ideal.assignment.Serving)
    (up : StaysUp current ideal.assignment view context) {before after : Replicas}
    (held : current.get? segment = some before)
    (stepped : ideal.assignment.get? segment = some after) :
    staying before after ⊆ (RoutingStates.build ideal view context).onlineServers segment := by
  intro server stays
  obtain ⟨reported, viewed, reports⟩ := up.reports segment before after held stepped server stays
  have registered := up.enabled segment before after held stepped server stays
  have inside := OrderedMap.contains_iff.mp (List.mem_filter.mp stays).2
  exact RoutingStates.mem_onlineServers_build serving stepped inside
    (CandidateContext.mem_pools_iff.mpr registered) viewed reports

/-- How many servers answer queries for a segment while a step is under way: all that hold it when
it has no target, and otherwise the floor of them. -/
structure StaysReachable (states : RoutingStates) (minAvailable : Nat) (segment : String)
    (before : Replicas) (wanted : Option Replicas) : Prop where
  untargeted : wanted = none → before.keys ⊆ states.onlineServers segment
  floor : ∀ aimed ∈ wanted, min minAvailable (min (aimed.size - 1) before.size) ≤
    (states.onlineServers segment).length

private theorem StaysReachable.ne_nil {states : RoutingStates} {before : Replicas}
    {wanted : Option Replicas} (reachable : StaysReachable states minAvailable segment before wanted)
    (needed : 0 < minAvailable) (occupied : before.size ≠ 0)
    (large : ∀ aimed ∈ wanted, 2 ≤ aimed.size) : states.onlineServers segment ≠ [] := by
  rw [← List.length_pos_iff]
  cases wanted with
  | none =>
    have most := before.nodup_keys.length_le_of_subset (reachable.untargeted rfl)
    rw [OrderedMap.length_keys] at most
    omega
  | some aimed =>
    have enough := reachable.floor aimed rfl
    have wide := large aimed rfl
    omega

private theorem staysReachable_of_staysUp
    (stepped : ideal.assignment = next current target minAvailable batch)
    (serving : ideal.assignment.Serving) (up : StaysUp current ideal.assignment view context)
    {before : Replicas} (held : current.get? segment = some before) :
    StaysReachable (RoutingStates.build ideal view context) minAvailable segment before
      (target.get? segment) where
  untargeted free := by
    have same := (get?_next_of_untargeted minAvailable batch free).trans held
    rw [← stepped] at same
    refine fun server member => staying_online serving up held same ?_
    exact List.mem_filter.mpr ⟨member, OrderedMap.contains_iff.mpr member⟩
  floor aimed chosen := by
    obtain ⟨after, found, enough⟩ := le_staying_next minAvailable batch held chosen
    rw [← stepped] at found
    have distinct : (staying before after).Nodup := before.nodup_keys.filter _
    -- the floor counts servers of the assignments; each of them is online on its own
    have most := distinct.length_le_of_subset (staying_online serving up held found)
    omega

/-- Whatever the servers that are to join have loaded, a router that sees a step keeps reaching
the segments that the step leaves on some server. -/
theorem reachable_during_step (needed : 0 < minAvailable)
    (stepped : ideal.assignment = next current target minAvailable batch)
    (serving : current.Serving) (aimed : target.Serving)
    (up : StaysUp current ideal.assignment view context) {before : Replicas}
    (held : current.get? segment = some before) (occupied : before.size ≠ 0) :
    let states := RoutingStates.build ideal view context
    StaysReachable states minAvailable segment before (target.get? segment) ∧
      ((∀ wanted ∈ target.get? segment, 2 ≤ wanted.size) →
        segment ∉ states.unavailable.keys ∧ (states.candidatesOf? segment).isSome ∧
          states.onlineServers segment ≠ []) := by
  have serves : ideal.assignment.Serving := stepped ▸ serving_next serving aimed
  have reachable := staysReachable_of_staysUp stepped serves up held
  refine ⟨reachable, fun large => ?_⟩
  have reached := reachable.ne_nil needed occupied large
  obtain ⟨server, online⟩ := List.exists_mem_of_ne_nil _ reached
  obtain ⟨apart, listed⟩ := RoutingStates.available_of_online online
  exact ⟨apart, listed, reached⟩

end during

private theorem staysUp_of_unchanged_view {context : CandidateContext} (serving : current.Serving)
    (enabled : ∀ replicas ∈ current.values, ∀ server ∈ replicas.keys,
      ∃ registered ∈ context.servers, registered.id = server ∧ registered.enabled = true)
    (next : Assignment) : StaysUp current next current context where
  reports segment before after held _ server stays := by
    refine ⟨before, held, ?_⟩
    obtain ⟨state, found⟩ := OrderedMap.mem_keys_iff.mp (List.mem_filter.mp stays).1
    rw [Replicas.serves, found]
    exact serving.isServing held found
  enabled segment before after held _ server stays :=
    enabled before (OrderedMap.mem_values_iff.mpr ⟨segment, held⟩) server
      (List.mem_filter.mp stays).1

def leavingReplicas : Replicas := .uniform ["a", "b", "c"] .online

def joiningReplicas : Replicas := .uniform ["d", "e", "f"] .online

/-- One segment on three servers and one that no target mentions. -/
def leavingAssignment : Assignment :=
  .ofList [("s", leavingReplicas), ("u", .uniform ["c"] .consuming)]

def joiningAssignment : Assignment := .ofList [("s", joiningReplicas)]

/-- The step toward three other servers, none of which reports a segment yet. -/
def joiningIdeal : IdealState :=
  { table := "t", assignment := next leavingAssignment joiningAssignment 2 none }

def leavingContext : CandidateContext :=
  { servers := [{ id := "a" }, { id := "b" }, { id := "c" }], created := {}, now := 0
    expirationMs := 0 }

theorem leavingReplicas_reachable :
    let states := RoutingStates.build joiningIdeal leavingAssignment leavingContext
    StaysReachable states 2 "s" leavingReplicas (some joiningReplicas) ∧
      "s" ∉ states.unavailable.keys ∧ (states.candidatesOf? "s").isSome ∧
        states.onlineServers "s" ≠ [] := by
  have serving : leavingAssignment.Serving := by decide +kernel
  have aimed : joiningAssignment.Serving := by decide +kernel
  have up : StaysUp leavingAssignment joiningIdeal.assignment leavingAssignment leavingContext :=
    staysUp_of_unchanged_view serving (by decide +kernel) _
  have held : leavingAssignment.get? "s" = some leavingReplicas := by decide +kernel
  obtain ⟨reachable, available⟩ :=
    reachable_during_step (by decide) rfl serving aimed up held (by decide)
  exact ⟨reachable, available (by decide +kernel)⟩

end Move

end SegmentPlacement

import Mathlib.Data.List.Rotate
import SegmentPlacement.Proofs.ReplicaTurns

/-! The turns of requests in a row. The replica offset of a segment is the same in
all of them, so each request goes one candidate further, and as many requests as
there are candidates go to each of them once. -/

namespace SegmentPlacement

private theorem Selection.existsUnique_turn {selections : Nat → Selection} {segment : String}
    {turns : List Candidate} (serves : ∀ turn chosen, turns[turn]? = some chosen →
      (selections turn).Serves segment chosen)
    (apart : (turns.map Candidate.server).Nodup) {candidate : Candidate}
    (member : candidate ∈ turns) :
    ∃! turn, turn < turns.length ∧ (selections turn).Serves segment candidate := by
  obtain ⟨turn, turned⟩ := List.mem_iff_getElem?.mp member
  obtain ⟨inside, _⟩ := List.getElem?_eq_some_iff.mp turned
  refine ⟨turn, ⟨inside, serves turn candidate turned⟩, ?_⟩
  intro other ⟨within, served⟩
  have again := serves other turns[other] (List.getElem?_eq_getElem within)
  refine (List.getElem?_inj ((List.length_map _).symm ▸ within) apart).mp ?_
  rw [List.getElem?_map, List.getElem?_map, turned, List.getElem?_eq_getElem within,
    Option.map_some, Option.map_some, ← again.server?, ← served.server?]

namespace Selector

variable {states : RoutingStates} {segment : String} {segments : List String}

def offsetOf (states : RoutingStates) (segments : List String) (options : QueryOptions)
    (segment : String) : Nat :=
  replicaOffset options.groupsToQuery (states.counts segments)
    ((states.available segments).idxOf segment)

private theorem inTurn?_eq_rotate (candidates : List Candidate) {start offset turn : Nat}
    (inside : turn < candidates.length) (inWord : start + turn + offset < wordCount 64) :
    inTurn? candidates (start + turn) offset = (candidates.rotate (start + offset))[turn]? := by
  have ahead : start + turn + offset = turn + (start + offset) := by omega
  rw [inTurn?, Nat.mod_eq_of_lt inWord, List.getElem?_rotate inside, ahead]

/-- A request that goes by its own number serves the segment by the candidate that its number is
turned to. -/
theorem select_serves_rotate (selector : Selector) (unranked : selector.ranker = none)
    (stocked : states.Stocked) (distinct : segments.Nodup) {options : QueryOptions}
    (free : options.usesFixedReplica selector.useFixedReplica = false) (asked : segment ∈ segments)
    {start turn : Nat} {chosen : Candidate}
    (inWord : start + turn + offsetOf states segments options segment < wordCount 64)
    (turned : ((states.offered segment).rotate
      (start + offsetOf states segments options segment))[turn]? = some chosen) :
    (selector.select states segments (start + turn) options).Serves segment chosen := by
  obtain ⟨inside, _⟩ := List.getElem?_eq_some_iff.mp turned
  rw [List.length_rotate] at inside
  have filled := List.length_pos_iff.mp (Nat.zero_lt_of_lt inside)
  have listed := List.getElem?_idxOf (RoutingStates.mem_available.mpr ⟨asked, filled⟩)
  refine select_serves selector unranked stocked distinct (start + turn) options listed ?_
  rw [base, free, ← turned]
  exact inTurn?_eq_rotate _ inside inWord

/-- As many requests in a row as a segment has candidates go to each of them once, as long as no
number of a request and its replica offset leave the word. -/
theorem select_spreads (selector : Selector) (unranked : selector.ranker = none)
    (built : states.Built) (distinct : segments.Nodup) {options : QueryOptions}
    (free : options.usesFixedReplica selector.useFixedReplica = false) (asked : segment ∈ segments)
    {start : Nat} (inWord : ∀ turn < (states.offered segment).length,
      start + turn + offsetOf states segments options segment < wordCount 64) :
    (∃ turns : List Candidate, turns.Perm (states.offered segment) ∧
      ∀ turn chosen, turns[turn]? = some chosen →
        (selector.select states segments (start + turn) options).Serves segment chosen) ∧
    (((states.offered segment).map Candidate.server).Nodup →
      ∀ candidate ∈ states.offered segment, ∃! turn, turn < (states.offered segment).length ∧
        (selector.select states segments (start + turn) options).Serves segment candidate) := by
  let turns := (states.offered segment).rotate (start + offsetOf states segments options segment)
  have same : turns.Perm (states.offered segment) := List.rotate_perm ..
  have serves : ∀ turn chosen, turns[turn]? = some chosen →
      (selector.select states segments (start + turn) options).Serves segment chosen := by
    intro turn chosen turned
    obtain ⟨inside, _⟩ := List.getElem?_eq_some_iff.mp turned
    exact select_serves_rotate selector unranked built.stocked distinct free asked
      (inWord turn (same.length_eq ▸ inside)) turned
  refine ⟨⟨turns, same, serves⟩, fun apart candidate member => ?_⟩
  rw [← same.length_eq]
  exact Selection.existsUnique_turn serves ((same.map _).nodup_iff.mpr apart)
    (same.mem_iff.mpr member)

/-- Three requests in a row with numbers near the end of the word. -/
theorem uneven_spreads :
    let asked := ["wide", "gone", "narrow", "last"]
    ∀ candidate ∈ unevenStates.offered "last", ∃! turn,
      turn < (unevenStates.offered "last").length ∧
      (select { table := "t" } unevenStates asked (18446744073709551610 + turn) threeGroups).Serves
        "last" candidate := by
  intro asked
  have built : unevenStates.Built := .ofLists _ _
  have offered : (unevenStates.offered "last").Perm
      (["a", "b", "c"].map fun server => ⟨server, true, 0⟩) :=
    RoutingStates.offered_ofLists_perm ..
  have inWord : ∀ turn < (unevenStates.offered "last").length,
      18446744073709551610 + turn + offsetOf unevenStates asked threeGroups "last" <
        wordCount 64 := by
    intro turn inside
    have below : offsetOf unevenStates asked threeGroups "last" < threeGroups.groupsToQuery :=
      replicaOffset_lt_groups threeGroups.groupsToQuery_pos
        (fun _ => RoutingStates.pos_of_mem_counts) _
    have groups : threeGroups.groupsToQuery = 3 := by decide +kernel
    have word : wordCount 64 = 18446744073709551616 := rfl
    have three := offered.length_eq
    simp only [List.length_map, List.length_cons, List.length_nil] at three
    omega
  have apart : ((unevenStates.offered "last").map Candidate.server).Nodup :=
    (offered.map _).nodup_iff.mpr (by decide)
  exact (select_spreads { table := "t" } rfl built (by decide) rfl (by decide) inWord).2 apart

end Selector

end SegmentPlacement

import SegmentPlacement.Proofs.RoutedSelection

/-! Selections by a fixed order of servers, of which a ranker gives the part that it
is asked for. Positions in that part differ from query to query, but not which of
two servers comes first, so every segment is chosen for as if it were alone. -/

namespace SegmentPlacement

namespace Selection

def merge (first second : Selection) : Selection :=
  { segments := first.segments.insertAll second.segments.entries
    optional := first.optional.insertAll second.optional.entries
    unavailable := first.unavailable ++ second.unavailable }

def union (parts : List Selection) : Selection := parts.foldl merge {}

theorem merge_ofChoices_singleton (selection : Selection) (choice : String × Option Candidate) :
    selection.merge (ofChoices [choice]) = selection.addChoice choice.1 choice.2 := by
  obtain ⟨segment, given⟩ := choice
  cases given with
  | none => rfl
  | some chosen =>
    obtain ⟨server, online, pool⟩ := chosen
    have still : selection.unavailable ++ [] = selection.unavailable := List.append_nil _
    cases online <;> exact congrArg (Selection.mk _ _) still

private theorem union_ofChoices (choices : List (String × Option Candidate)) :
    union (choices.map fun choice => ofChoices [choice]) = ofChoices choices := by
  simp only [union, List.foldl_map, merge_ofChoices_singleton]
  rfl

end Selection

namespace Selector

variable {ranking order : List String} {server : String} {candidates : List Candidate}

theorem rankOf?_eq_some_iff (distinct : ranking.Nodup) {rank : Nat} :
    rankOf? ranking server = some rank ↔ ranking[rank]? = some server := by
  have place {rank : Nat} (found : rankOf? ranking server = some rank) :
      ranking[rank]? = some server := by
    obtain ⟨⟨other, position⟩, here, rfl⟩ := Option.map_eq_some_iff.mp found
    obtain rfl : other = server := by simpa using List.find?_some here
    exact List.mem_zipIdx_iff_getElem?.mp (List.mem_reverse.mp (List.mem_of_find?_eq_some here))
  refine ⟨place, fun listed => ?_⟩
  have some : (rankOf? ranking server).isSome := by
    rw [rankOf?, Option.isSome_map, List.find?_isSome]
    exact ⟨(server, rank), List.mem_reverse.mpr (List.mem_zipIdx_iff_getElem?.mpr listed),
      beq_self_eq_true server⟩
  obtain ⟨other, found⟩ := Option.isSome_iff_exists.mp some
  obtain ⟨inside, _⟩ := List.getElem?_eq_some_iff.mp listed
  obtain rfl := (List.getElem?_inj inside distinct).mp (listed.trans (place found).symm)
  exact found

theorem rankOf?_isSome_iff (distinct : ranking.Nodup) :
    (rankOf? ranking server).isSome ↔ server ∈ ranking := by
  simp only [Option.isSome_iff_exists, rankOf?_eq_some_iff distinct, List.mem_iff_getElem?]

/-- The first candidate in an order of servers. -/
def firstIn (order : List String) (candidates : List Candidate) : Option Candidate :=
  order.findSome? fun server => candidates.find? fun candidate => candidate.server = server

private theorem firstIn_eq_some {position rank : Nat} (inside : position < candidates.length)
    (ranked : ranking[rank]? = some candidates[position].server)
    (sooner : ∀ earlier < rank, ∀ candidate ∈ candidates,
      ranking[earlier]? ≠ some candidate.server)
    (front : ∀ other, (before : other < position) →
      candidates[other].server ≠ candidates[position].server) :
    firstIn ranking candidates = some candidates[position] := by
  obtain ⟨listed, same⟩ := List.getElem?_eq_some_iff.mp ranked
  refine List.findSome?_eq_some_iff.mpr ⟨ranking.take rank, candidates[position].server,
    ranking.drop (rank + 1), ?_, ?_, ?_⟩
  · rw [← same, List.getElem_cons_drop, List.take_append_drop]
  · refine List.find?_eq_some_iff_getElem.mpr ⟨decide_eq_true rfl, position, inside, rfl, ?_⟩
    intro other before
    rw [Bool.not_eq_true', decide_eq_false_iff_not]
    exact front other before
  · intro server taken
    obtain ⟨earlier, found⟩ := List.mem_iff_getElem?.mp taken
    rw [List.getElem?_take, Option.ite_none_right_eq_some] at found
    obtain ⟨below, there⟩ := found
    refine List.find?_eq_none.mpr fun candidate member same => ?_
    exact sooner earlier below candidate member (of_decide_eq_true same ▸ there)

theorem all_rankOf?_isSome_iff (distinct : ranking.Nodup) :
    (candidates.map fun candidate => rankOf? ranking candidate.server).all Option.isSome = true ↔
      ∀ candidate ∈ candidates, candidate.server ∈ ranking := by
  simp only [List.all_map, List.all_eq_true, Function.comp_apply, rankOf?_isSome_iff distinct]

def rankAt (ranking : List String) (candidates : List Candidate) (position : Nat) : Nat :=
  ((candidates.map fun candidate => rankOf? ranking candidate.server)[position]?.join).getD 0

private theorem rankAt_eq (distinct : ranking.Nodup) {position rank : Nat}
    (inside : position < candidates.length)
    (ranked : ranking[rank]? = some candidates[position].server) :
    rankAt ranking candidates position = rank := by
  rw [rankAt, List.getElem?_map, List.getElem?_eq_getElem inside, Option.map_some,
    (rankOf?_eq_some_iff distinct).mpr ranked, Option.join_some, Option.getD_some]

private theorem chooseRanked_of_ranked (distinct : ranking.Nodup)
    (all : ∀ candidate ∈ candidates, candidate.server ∈ ranking) (request : Nat) :
    chooseRanked ranking request candidates = firstIn ranking candidates := by
  refine (if_pos ((all_rankOf?_isSome_iff distinct).mpr all)).trans ?_
  change (leastOf (rankAt ranking candidates) _).bind _ = _
  cases best : leastOf (rankAt ranking candidates) (List.range candidates.length) with
  | none =>
    have empty := List.length_eq_zero_iff.mp (List.range_eq_nil.mp (leastOf_eq_none_iff.mp best))
    rw [empty, firstIn]
    exact (List.findSome?_eq_none_iff.mpr fun _ _ => rfl).symm
  | some position =>
    obtain ⟨member, least, front⟩ := leastOf_spec best
    have inside := List.mem_range.mp member
    obtain ⟨rank, ranked⟩ := List.mem_iff_getElem?.mp (all _ (List.getElem_mem inside))
    have own := rankAt_eq distinct inside ranked
    rw [Option.bind_some, List.getElem?_eq_getElem inside]
    refine (firstIn_eq_some inside ranked ?_ ?_).symm
    · intro earlier below candidate listed found
      obtain ⟨other, within, rfl⟩ := List.getElem_of_mem listed
      have weight := least other (List.mem_range.mpr within)
      rw [own, rankAt_eq distinct within found] at weight
      exact Nat.not_lt_of_le weight below
    · -- Candidates on one server have one rank, of which the first position is taken.
      intro other before same
      have within := Nat.lt_trans before inside
      have weight := rankAt_eq distinct within (same ▸ ranked)
      exact Nat.not_lt_of_le (front List.pairwise_lt_range other (List.mem_range.mpr within)
        (weight.trans own.symm)) before

/-- The ranker of a fixed order. -/
def rankedBy (order asked : List String) : List String := order.filter asked.contains

theorem mem_rankedBy {asked : List String} :
    server ∈ rankedBy order asked ↔ server ∈ order ∧ server ∈ asked := by
  rw [rankedBy, List.mem_filter, List.contains_iff_mem]

private theorem firstIn_rankedBy {asked : List String}
    (known : ∀ candidate ∈ candidates, candidate.server ∈ asked) :
    firstIn (rankedBy order asked) candidates = firstIn order candidates := by
  induction order with
  | nil => rfl
  | cons server rest ih =>
    unfold firstIn rankedBy at *
    rw [List.filter_cons, List.findSome?_cons]
    by_cases within : server ∈ asked
    · rw [if_pos (List.contains_iff_mem.mpr within), List.findSome?_cons, ih]
    · have none : candidates.find? (fun candidate => candidate.server = server) = none := by
        refine List.find?_eq_none.mpr fun candidate member same => within ?_
        exact of_decide_eq_true same ▸ known candidate member
      rw [if_neg (List.contains_iff_mem.not.mpr within), ih, none]

/-- What a fixed order makes of the candidates of a segment alone. -/
def settle (order : List String) (request : Nat) (candidates : List Candidate) :
    Option Candidate :=
  if ∀ candidate ∈ candidates, candidate.server ∈ order then firstIn order candidates
  else candidates[request % candidates.length]?

private theorem chooseRanked_rankedBy (distinct : order.Nodup) {asked : List String}
    (known : ∀ candidate ∈ candidates, candidate.server ∈ asked) (request : Nat) :
    chooseRanked (rankedBy order asked) request candidates = settle order request candidates := by
  have apart : (rankedBy order asked).Nodup := distinct.filter _
  unfold settle
  split
  · rename_i all
    rw [chooseRanked_of_ranked apart, firstIn_rankedBy known]
    exact fun candidate member => mem_rankedBy.mpr ⟨all candidate member, known candidate member⟩
  · rename_i some
    refine if_neg fun all => some fun candidate member => ?_
    exact (mem_rankedBy.mp ((all_rankOf?_isSome_iff apart).mp all candidate member)).1

variable {selector : Selector} {states : RoutingStates} {segment : String} {segments : List String}

theorem mem_rankable {candidate : Candidate} (asked : segment ∈ segments)
    (offered : candidate ∈ states.offered segment) :
    candidate.server ∈ rankable states segments :=
  OrderedMap.mem_keys_ofKeys.mpr
    (List.mem_flatMap.mpr ⟨segment, asked, List.mem_map_of_mem offered⟩)

private theorem choices_of_ranked (ranked : selector.ranker = some (rankedBy order))
    (fixed : order.Nodup) (states : RoutingStates) (segments : List String) (request : Nat)
    (options : QueryOptions) :
    selector.choices states segments request options = segments.map fun segment =>
      (segment, (states.candidatesOf? segment).bind (settle order request)) := by
  rw [choices, ranked]
  refine List.map_congr_left fun segment asked => congrArg (Prod.mk segment) ?_
  cases found : states.candidatesOf? segment with
  | none => rfl
  | some candidates =>
    refine chooseRanked_rankedBy fixed (fun candidate member => mem_rankable asked ?_) request
    rwa [RoutingStates.offered, found, Option.getD_some]

theorem select_eq_union (ranked : selector.ranker = some (rankedBy order)) (fixed : order.Nodup)
    (states : RoutingStates) (segments : List String) (request : Nat) (options : QueryOptions) :
    selector.select states segments request options =
      Selection.union (segments.map fun segment =>
        selector.select states [segment] request options) := by
  simp only [select, choices_of_ranked ranked fixed, List.map_cons, List.map_nil]
  rw [← Selection.union_ofChoices, List.map_map]
  rfl

end Selector

open Selector

/-- All candidates of a segment, of which there are some, are in an order. -/
def RoutingStates.Ranked (states : RoutingStates) (order : List String) (segment : String) : Prop :=
  states.offered segment ≠ [] ∧ ∀ candidate ∈ states.offered segment, candidate.server ∈ order

/-- How a selection serves the available segments of a query by an order of servers. -/
structure Selection.Follows (selection : Selection) (states : RoutingStates)
    (segments order : List String) (request : Nat) : Prop where
  ranked : ∀ segment ∈ segments, states.Ranked order segment →
    ∃ chosen, firstIn order (states.offered segment) = some chosen ∧
      selection.Serves segment chosen
  others : ∀ segment ∈ segments, states.offered segment ≠ [] → ¬ states.Ranked order segment →
    ∃ chosen, (states.offered segment)[request % (states.offered segment).length]? = some chosen ∧
      selection.Serves segment chosen

namespace Selector

variable {order : List String} {selector : Selector} {states : RoutingStates} {segment : String}
  {segments : List String}

private theorem select_serves_settled (ranked : selector.ranker = some (rankedBy order))
    (fixed : order.Nodup) (distinct : segments.Nodup) (request : Nat) (options : QueryOptions)
    (asked : segment ∈ segments) {chosen : Candidate}
    (settled : settle order request (states.offered segment) = some chosen)
    (filled : states.offered segment ≠ []) :
    (selector.select states segments request options).Serves segment chosen := by
  obtain ⟨candidate, offered⟩ := List.exists_mem_of_ne_nil _ filled
  have found := RoutingStates.candidatesOf?_of_mem_offered offered
  rw [select, choices_of_ranked ranked fixed]
  refine Selection.serves_ofChoices ?_ (List.mem_map.mpr ⟨segment, asked, ?_⟩)
  · simpa only [List.map_map, Function.comp_def, List.map_id'] using distinct
  · rw [found, Option.bind_some, settled]

private theorem map_server_firstIn (order : List String) (candidates : List Candidate) :
    (firstIn order candidates).map Candidate.server =
      order.find? fun server => server ∈ candidates.map Candidate.server := by
  induction order with
  | nil => rfl
  | cons server rest ih =>
    rw [firstIn, List.findSome?_cons, List.find?_cons]
    cases found : candidates.find? fun candidate => candidate.server = server with
    | some chosen =>
      obtain rfl : chosen.server = server := by simpa using List.find?_some found
      have named := List.mem_map_of_mem (f := Candidate.server) (List.mem_of_find?_eq_some found)
      simp only [named, decide_true, Option.map_some]
    | none =>
      have unnamed : server ∉ candidates.map Candidate.server := by
        simpa using List.find?_eq_none.mp found
      simp only [unnamed, decide_false]
      exact ih

private theorem firstIn_isSome {candidates : List Candidate} (filled : candidates ≠ [])
    (all : ∀ candidate ∈ candidates, candidate.server ∈ order) :
    ∃ chosen, firstIn order candidates = some chosen := by
  obtain ⟨candidate, member⟩ := List.exists_mem_of_ne_nil _ filled
  have some : (firstIn order candidates).isSome := by
    rw [← Option.isSome_map, map_server_firstIn, List.find?_isSome]
    exact ⟨candidate.server, all candidate member, decide_eq_true (List.mem_map_of_mem member)⟩
  exact Option.isSome_iff_exists.mp some

theorem select_follows (ranked : selector.ranker = some (rankedBy order)) (fixed : order.Nodup)
    (states : RoutingStates) (distinct : segments.Nodup) (request : Nat) (options : QueryOptions) :
    (selector.select states segments request options).Follows states segments order request where
  ranked segment asked full := by
    obtain ⟨chosen, first⟩ := firstIn_isSome full.1 full.2
    exact ⟨chosen, first, select_serves_settled ranked fixed distinct request options asked
      ((if_pos full.2).trans first) full.1⟩
  others segment asked filled partly := by
    have inside := Nat.mod_lt request (List.length_pos_iff.mpr filled)
    have turn := List.getElem?_eq_getElem inside
    exact ⟨_, turn, select_serves_settled ranked fixed distinct request options asked
      ((if_neg fun all => partly ⟨filled, all⟩).trans turn) filled⟩

/-- A selection by a fixed order is that of its segments one at a time. Segments that are ranked go
to the first of their servers in the order, whichever query they belong to, and all others to the
candidate that the request number points to. -/
theorem select_by_fixed_order (selector : Selector) (order : List String)
    (ranked : selector.ranker = some (rankedBy order)) (fixed : order.Nodup)
    (states : RoutingStates) (distinct : segments.Nodup) (request : Nat) (options : QueryOptions) :
    selector.select states segments request options =
        Selection.union (segments.map fun segment =>
          selector.select states [segment] request options) ∧
      (selector.select states segments request options).Follows states segments order request ∧
      ∀ (others : List String) (later : Nat) (settings : QueryOptions), others.Nodup →
        ∀ first ∈ segments, ∀ second ∈ others,
          states.Ranked order first → states.Ranked order second →
          (∀ server, server ∈ (states.offered first).map Candidate.server ↔
            server ∈ (states.offered second).map Candidate.server) →
          ∃ server, (selector.select states segments request options).server? first = some server ∧
            (selector.select states others later settings).server? second = some server := by
  have follows := select_follows ranked fixed states distinct request options
  refine ⟨select_eq_union ranked fixed states segments request options, follows, ?_⟩
  intro others later settings apart first here second there full whole same
  obtain ⟨one, foremost, serves⟩ := follows.ranked first here full
  obtain ⟨two, leading, served⟩ :=
    (select_follows ranked fixed states apart later settings).ranked second there whole
  have servers := map_server_firstIn order (states.offered first)
  simp only [same] at servers
  rw [← map_server_firstIn, foremost, leading] at servers
  exact ⟨one.server, serves.server?, served.server?.trans servers.symm⟩

/-- Two segments on the same servers, and one on a server that no order below has. -/
def pairedStates : RoutingStates :=
  .ofLists (.ofList [("one", [⟨"a", true, 0⟩, ⟨"b", true, 0⟩]),
    ("two", [⟨"b", false, 0⟩, ⟨"a", true, 0⟩]), ("other", [⟨"a", true, 0⟩, ⟨"c", true, 0⟩])]) {}

theorem paired_by_fixed_order :
    let selector : Selector := { table := "t", ranker := some (rankedBy ["b", "a"]) }
    selector.select pairedStates ["one", "other", "two"] 5 {} =
        Selection.union (["one", "other", "two"].map fun segment =>
          selector.select pairedStates [segment] 5 {}) ∧
      ∃ server,
        (selector.select pairedStates ["one", "other", "two"] 5 {}).server? "one" = some server ∧
        (selector.select pairedStates ["two"] 6 {}).server? "two" = some server := by
  intro selector
  have one : (pairedStates.offered "one").Perm [⟨"a", true, 0⟩, ⟨"b", true, 0⟩] :=
    RoutingStates.offered_ofLists_perm ..
  have two : (pairedStates.offered "two").Perm [⟨"b", false, 0⟩, ⟨"a", true, 0⟩] :=
    RoutingStates.offered_ofLists_perm ..
  have ranked {segment : String} {list : List Candidate}
      (offered : (pairedStates.offered segment).Perm list) (filled : list ≠ [])
      (all : ∀ candidate ∈ list, candidate.server ∈ ["b", "a"]) :
      pairedStates.Ranked ["b", "a"] segment :=
    ⟨fun none => filled (none ▸ offered).nil_eq.symm,
      fun candidate member => all candidate (offered.mem_iff.mp member)⟩
  have same (server : String) : server ∈ (pairedStates.offered "one").map Candidate.server ↔
      server ∈ (pairedStates.offered "two").map Candidate.server := by
    rw [(one.map _).mem_iff, (two.map _).mem_iff]
    simp [or_comm]
  have distinct : ["one", "other", "two"].Nodup := by decide
  obtain ⟨union, _, together⟩ := select_by_fixed_order selector ["b", "a"] rfl (by decide)
    pairedStates distinct 5 {}
  exact ⟨union, together ["two"] 6 {} (by decide) "one" (by decide) "two" (by decide)
    (ranked one (by decide) (by decide)) (ranked two (by decide) (by decide)) same⟩

end Selector

end SegmentPlacement

import SegmentPlacement.Proofs.RoutedSelection

/-! The turns of a request without a ranker. Its available segments are served one
after the other, each by the candidate that the base and its replica offset point
to. The offset goes round the replica groups in use, of which there are never more
than any segment so far had candidates. -/

namespace SegmentPlacement

theorem OrderedMap.size_le_of_numbered {set : NameSet} {bound : Nat} (name : Nat → Option String)
    (numbered : ∀ member ∈ set.keys, ∃ number < bound, name number = some member) :
    set.size ≤ bound := by
  have within : set.keys ⊆ (List.range bound).filterMap name := fun member listed => by
    obtain ⟨number, below, named⟩ := numbered member listed
    exact List.mem_filterMap.mpr ⟨number, List.mem_range.mpr below, named⟩
  calc set.size = set.keys.length := (OrderedMap.length_keys set).symm
    _ ≤ ((List.range bound).filterMap name).length := set.nodup_keys.length_le_of_subset within
    _ ≤ (List.range bound).length := List.length_filterMap_le name _
    _ = bound := List.length_range

namespace RoutingStates

variable {states : RoutingStates} {segment : String} {segments : List String}

/-- The segments of a query that have candidates. -/
def available (states : RoutingStates) (segments : List String) : List String :=
  segments.filter fun segment => states.offered segment ≠ []

def counts (states : RoutingStates) (segments : List String) : List Nat :=
  (states.available segments).map fun segment => (states.offered segment).length

theorem mem_available : segment ∈ states.available segments ↔
    segment ∈ segments ∧ states.offered segment ≠ [] := by
  rw [available, List.mem_filter, decide_eq_true_eq]

private theorem length_counts (states : RoutingStates) (segments : List String) :
    (states.counts segments).length = (states.available segments).length :=
  List.length_map ..

theorem pos_of_mem_counts {count : Nat} (listed : count ∈ states.counts segments) : 0 < count := by
  obtain ⟨segment, available, rfl⟩ := List.mem_map.mp listed
  exact List.length_pos_iff.mpr (mem_available.mp available).2

private theorem counts_cons_of_empty (empty : states.offered segment = []) (rest : List String) :
    states.counts (segment :: rest) = states.counts rest := by
  simp [counts, available, empty]

private theorem counts_cons_of_filled (filled : states.offered segment ≠ []) (rest : List String) :
    states.counts (segment :: rest) = (states.offered segment).length :: states.counts rest := by
  simp [counts, available, filled]

private theorem counts_append (earlier later : List String) :
    states.counts (earlier ++ later) = states.counts earlier ++ states.counts later := by
  simp only [counts, available, List.filter_append, List.map_append]

private theorem split_of_available {position : Nat}
    (listed : (states.available segments)[position]? = some segment) :
    ∃ earlier later, segments = earlier ++ segment :: later ∧
      (states.available earlier).length = position := by
  obtain ⟨inside, same⟩ := List.getElem?_eq_some_iff.mp listed
  have parts : states.available segments = (states.available segments).take position ++
      segment :: (states.available segments).drop (position + 1) := by
    rw [← same, List.getElem_cons_drop, List.take_append_drop]
  obtain ⟨front, back, rfl, fore, aft⟩ := List.filter_eq_append_iff.mp parts
  obtain ⟨skipped, later, rfl, untaken, _⟩ := List.filter_eq_cons_iff.mp aft
  refine ⟨front ++ skipped, later, (List.append_assoc ..).symm, ?_⟩
  rw [available, List.filter_append, List.filter_eq_nil_iff.mpr untaken, List.append_nil]
  exact (congrArg List.length fore).trans (List.length_take_of_le (Nat.le_of_lt inside))

end RoutingStates

namespace Selector

/-- The replica groups in use after segments with these numbers of candidates. -/
def groupsAfter (groups : Nat) (counts : List Nat) : Nat := counts.foldl min groups

/-- The replica offset of the segment at a position among those that are available. -/
def replicaOffset (groups : Nat) (counts : List Nat) : Nat → Nat
  | 0 => 0
  | position + 1 =>
    (replicaOffset groups counts position + 1) % groupsAfter groups (counts.take (position + 1))

-- The second segment leaves two of three groups, so the third one is served by the first again.
example : (List.range 3).map (replicaOffset 3 [3, 2, 3]) = [0, 1, 0] := rfl

theorem le_groupsAfter_iff {bound groups : Nat} {counts : List Nat} :
    bound ≤ groupsAfter groups counts ↔ bound ≤ groups ∧ ∀ count ∈ counts, bound ≤ count := by
  induction counts generalizing groups with
  | nil => simp [groupsAfter]
  | cons count rest ih =>
    rw [List.forall_mem_cons, ← and_assoc, ← Nat.le_min]
    exact ih

private theorem replicaOffset_lt {groups : Nat} {counts : List Nat} (used : 0 < groups)
    (filled : ∀ count ∈ counts, 0 < count) {position : Nat} (later : 0 < position) :
    replicaOffset groups counts position < groupsAfter groups (counts.take position) := by
  cases position with
  | zero => cases later
  | succ position =>
    refine Nat.mod_lt _ (le_groupsAfter_iff.mpr ⟨used, fun count listed => ?_⟩)
    exact filled count (List.mem_of_mem_take listed)

private theorem replicaOffset_lt_of_le {groups bound : Nat} {counts : List Nat} (used : 0 < groups)
    (filled : ∀ count ∈ counts, 0 < count) (room : 0 < bound) {position : Nat}
    (within : 0 < position → groupsAfter groups (counts.take position) ≤ bound) :
    replicaOffset groups counts position < bound := by
  rcases Nat.eq_zero_or_pos position with rfl | later
  · exact room
  · exact Nat.lt_of_lt_of_le (replicaOffset_lt used filled later) (within later)

theorem replicaOffset_lt_groups {groups : Nat} {counts : List Nat} (used : 0 < groups)
    (filled : ∀ count ∈ counts, 0 < count) (position : Nat) :
    replicaOffset groups counts position < groups :=
  replicaOffset_lt_of_le used filled used fun _ => (le_groupsAfter_iff.mp (Nat.le_refl _)).1

private theorem replicaOffset_lt_min {groups count : Nat} {counts : List Nat} (used : 0 < groups)
    (filled : 0 < count) (alike : ∀ other ∈ counts, other = count) {position : Nat}
    (inside : position < counts.length) :
    replicaOffset groups counts position < min groups count := by
  have room := Nat.lt_min.mpr ⟨used, filled⟩
  refine replicaOffset_lt_of_le used (fun other listed => alike other listed ▸ filled) room ?_
  intro later
  have shorter : (counts.take position).length = position :=
    List.length_take_of_le (Nat.le_of_lt inside)
  obtain ⟨first, listed⟩ := List.exists_mem_of_length_pos (Nat.lt_of_lt_of_eq later shorter.symm)
  obtain ⟨few, fewer⟩ :=
    le_groupsAfter_iff.mp (Nat.le_refl (groupsAfter groups (counts.take position)))
  have least := fewer first listed
  rw [alike first (List.mem_of_mem_take listed)] at least
  exact Nat.le_min.mpr ⟨few, least⟩

private theorem replicaOffset_append (groups : Nat) {earlier : List Nat} (later : List Nat)
    {position : Nat} (within : position ≤ earlier.length) :
    replicaOffset groups (earlier ++ later) position = replicaOffset groups earlier position := by
  induction position with
  | zero => rfl
  | succ position ih =>
    rw [replicaOffset, replicaOffset, ih (Nat.le_of_succ_le within),
      List.take_append_of_le_length within]

private theorem replicaOffset_concat (groups : Nat) (counts : List Nat) (count : Nat) :
    replicaOffset groups (counts ++ [count]) (counts.length + 1) =
      (replicaOffset groups counts counts.length + 1) % min (groupsAfter groups counts) count := by
  have all : (counts ++ [count]).take (counts.length + 1) = counts ++ [count] :=
    List.take_of_length_le (Nat.le_of_eq (List.length_append ..))
  rw [replicaOffset, all, replicaOffset_append groups [count] (Nat.le_refl _), groupsAfter,
    List.foldl_append]
  rfl

/-- What a base and a replica offset point to. -/
def inTurn? (items : List α) (base offset : Nat) : Option α :=
  items[(base + offset) % wordCount 64 % items.length]?

private theorem inTurn?_isSome {items : List α} (filled : items ≠ []) (base offset : Nat) :
    ∃ item, inTurn? items base offset = some item :=
  ⟨_, List.getElem?_eq_getElem (Nat.mod_lt _ (List.length_pos_iff.mpr filled))⟩

private theorem inTurn?_map (change : α → β) (items : List α) (base offset : Nat) :
    inTurn? (items.map change) base offset = (inTurn? items base offset).map change := by
  rw [inTurn?, inTurn?, List.length_map, List.getElem?_map]

/-- What turns are counted from: the request number, or the hash of the table. -/
def base (selector : Selector) (request : Nat) (options : QueryOptions) : Nat :=
  if options.usesFixedReplica selector.useFixedReplica then fixedReplicaHash selector.table
  else request

end Selector

open Selector

/-- How a selection goes through the available segments of a query from a base, with at most so many
replica groups. -/
structure Selection.TakesTurns (selection : Selection) (states : RoutingStates)
    (segments : List String) (groups base : Nat) : Prop where
  served : ∀ position segment, (states.available segments)[position]? = some segment →
    ∃ chosen, selection.Serves segment chosen ∧
      inTurn? (states.offered segment) base
        (replicaOffset groups (states.counts segments) position) = some chosen
  bounded : ∀ position, 0 < position →
    replicaOffset groups (states.counts segments) position <
      groupsAfter groups ((states.counts segments).take position)
  touched : ∀ servers : List String, (∀ segment ∈ states.available segments,
      (states.offered segment).map Candidate.server = servers) →
    selection.servers.size ≤ min groups (min servers.length (states.available segments).length)

namespace Selection

variable {choices : List (String × Option Candidate)}

private theorem chosen_of_get?_sent {online : Bool} {segment server : String}
    (found : (OrderedMap.ofList (sent online choices)).get? segment = some server) :
    ∃ chosen, (segment, some chosen) ∈ choices ∧ chosen.server = server := by
  rcases OrderedMap.get?_insertAll_cases found with none | listed
  · cases none
  · obtain ⟨⟨other, given⟩, member, made⟩ := List.mem_filterMap.mp listed
    obtain ⟨chosen, kept, same⟩ := Option.map_eq_some_iff.mp made
    obtain rfl := (Option.filter_eq_some_iff.mp kept).1
    cases same
    exact ⟨chosen, member, rfl⟩

private theorem chosen_of_mem_servers {server : String}
    (touched : server ∈ (ofChoices choices).servers.keys) :
    ∃ segment chosen, (segment, some chosen) ∈ choices ∧ chosen.server = server := by
  rw [servers, OrderedMap.mem_keys_ofKeys, List.mem_append, ofChoices_eq,
    OrderedMap.mem_values_iff, OrderedMap.mem_values_iff] at touched
  rcases touched with ⟨segment, found⟩ | ⟨segment, found⟩
  · exact ⟨segment, chosen_of_get?_sent found⟩
  · exact ⟨segment, chosen_of_get?_sent found⟩

end Selection

namespace Selector

variable {states : RoutingStates} {segment : String} {segments : List String}

/-- Going through a query from where earlier segments have left the groups and the offset. -/
theorem mem_chooseInTurn_of_split (stocked : states.Stocked) (groups base : Nat)
    (before : List Nat) (earlier : List String) (filled : states.offered segment ≠ [])
    (later : List String) :
    (segment, inTurn? (states.offered segment) base
        (replicaOffset groups (before ++ states.counts earlier)
          (before ++ states.counts earlier).length)) ∈
      chooseInTurn states base (groupsAfter groups before)
        (replicaOffset groups before before.length) (earlier ++ segment :: later) := by
  -- What is left of the groups and the offset is told by the counts of those gone through, so these
  -- are what the induction carries.
  induction earlier generalizing before with
  | nil =>
    obtain ⟨candidate, offered⟩ := List.exists_mem_of_ne_nil _ filled
    have found := RoutingStates.candidatesOf?_of_mem_offered offered
    rw [RoutingStates.counts, RoutingStates.available, List.filter_nil, List.map_nil,
      List.append_nil, List.nil_append, chooseInTurn, found]
    exact List.mem_cons_self
  | cons other rest ih =>
    rw [List.cons_append, chooseInTurn]
    cases found : states.candidatesOf? other with
    | none =>
      have empty : states.offered other = [] := by
        rw [RoutingStates.offered, found, Option.getD_none]
      rw [RoutingStates.counts_cons_of_empty empty]
      exact List.mem_cons_of_mem _ (ih before)
    | some candidates =>
      have same : states.offered other = candidates := by
        rw [RoutingStates.offered, found, Option.getD_some]
      have served := ih (before ++ [candidates.length])
      rw [List.length_append, List.length_singleton, replicaOffset_concat, groupsAfter,
        List.foldl_append, List.append_assoc] at served
      rw [RoutingStates.counts_cons_of_filled (same ▸ stocked other candidates found), same]
      exact List.mem_cons_of_mem _ served

theorem mem_chooseInTurn (stocked : states.Stocked) (groups base : Nat) {position : Nat}
    (listed : (states.available segments)[position]? = some segment) :
    (segment, inTurn? (states.offered segment) base
        (replicaOffset groups (states.counts segments) position)) ∈
      chooseInTurn states base groups 0 segments := by
  obtain ⟨earlier, later, rfl, rfl⟩ := RoutingStates.split_of_available listed
  have filled := (RoutingStates.mem_available.mp (List.mem_of_getElem? listed)).2
  have member := mem_chooseInTurn_of_split stocked groups base [] earlier filled later
  rw [List.nil_append, RoutingStates.length_counts] at member
  rwa [RoutingStates.counts_append,
    replicaOffset_append groups _ (Nat.le_of_eq (RoutingStates.length_counts ..).symm)]

private theorem choices_of_unranked {selector : Selector} (unranked : selector.ranker = none)
    (request : Nat) (options : QueryOptions) :
    selector.choices states segments request options =
      chooseInTurn states (selector.base request options) options.groupsToQuery 0 segments := by
  rw [choices, unranked, base]

/-- What an available segment is given does not depend on the segments after it. -/
theorem select_serves (selector : Selector) (unranked : selector.ranker = none)
    (stocked : states.Stocked) (distinct : segments.Nodup) (request : Nat) (options : QueryOptions)
    {position : Nat} (listed : (states.available segments)[position]? = some segment)
    {chosen : Candidate}
    (given : inTurn? (states.offered segment) (selector.base request options)
      (replicaOffset options.groupsToQuery (states.counts segments) position) = some chosen) :
    (selector.select states segments request options).Serves segment chosen := by
  have answers := (selector.choices_checked stocked segments request options).2
  refine Selection.serves_ofChoices (answers.names.symm ▸ distinct) ?_
  rw [choices_of_unranked unranked, ← given]
  exact mem_chooseInTurn stocked _ _ listed

private theorem exists_turn_of_touched {selector : Selector} (unranked : selector.ranker = none)
    (stocked : states.Stocked) (distinct : segments.Nodup) {request : Nat} {options : QueryOptions}
    {server : String}
    (touched : server ∈ (selector.select states segments request options).servers.keys) :
    ∃ position segment, (states.available segments)[position]? = some segment ∧
      inTurn? ((states.offered segment).map Candidate.server) (selector.base request options)
        (replicaOffset options.groupsToQuery (states.counts segments) position) = some server := by
  obtain ⟨segment, chosen, member, same⟩ := Selection.chosen_of_mem_servers touched
  have answers := (selector.choices_checked stocked segments request options).2
  have filled := List.ne_nil_of_mem ((answers.gives _ member).offers chosen rfl)
  have asked : segment ∈ segments := answers.names ▸ List.mem_map_of_mem member
  obtain ⟨position, listed⟩ :=
    List.mem_iff_getElem?.mp (RoutingStates.mem_available.mpr ⟨asked, filled⟩)
  have turn := mem_chooseInTurn stocked options.groupsToQuery (selector.base request options) listed
  rw [← choices_of_unranked unranked] at turn
  have agree := List.inj_on_of_nodup_map (answers.names.symm ▸ distinct) turn member rfl
  refine ⟨position, segment, listed, ?_⟩
  rw [inTurn?_map, (Prod.mk.inj agree).2, Option.map_some, same]

private theorem size_servers_le {selector : Selector} (unranked : selector.ranker = none)
    (stocked : states.Stocked) (distinct : segments.Nodup) (request : Nat) (options : QueryOptions)
    {servers : List String} (alike : ∀ segment ∈ states.available segments,
      (states.offered segment).map Candidate.server = servers) :
    (selector.select states segments request options).servers.size ≤
      min options.groupsToQuery (min servers.length (states.available segments).length) := by
  have served : ∀ server ∈ (selector.select states segments request options).servers.keys,
      ∃ position < (states.available segments).length,
        inTurn? servers (selector.base request options)
          (replicaOffset options.groupsToQuery (states.counts segments) position) = some server := by
    intro server touched
    obtain ⟨position, segment, listed, turn⟩ :=
      exists_turn_of_touched unranked stocked distinct touched
    rw [alike segment (List.mem_of_getElem? listed)] at turn
    exact ⟨position, (List.getElem?_eq_some_iff.mp listed).1, turn⟩
  have counted : ∀ count ∈ states.counts segments, count = servers.length := by
    intro count listed
    obtain ⟨segment, available, rfl⟩ := List.mem_map.mp listed
    rw [← alike segment available, List.length_map]
  -- Servers are numbered by the positions of segments, and again by the offsets that are in use.
  have few := OrderedMap.size_le_of_numbered _ served
  have fewer : (selector.select states segments request options).servers.size ≤
      min options.groupsToQuery servers.length := by
    refine OrderedMap.size_le_of_numbered (inTurn? servers (selector.base request options)) ?_
    intro server touched
    obtain ⟨position, inside, turn⟩ := served server touched
    have filled := Nat.zero_lt_of_lt (List.getElem?_eq_some_iff.mp turn).1
    rw [← RoutingStates.length_counts] at inside
    exact ⟨_, replicaOffset_lt_min options.groupsToQuery_pos filled counted inside, turn⟩
  exact Nat.le_min.mpr ⟨(Nat.le_min.mp fewer).1, Nat.le_min.mpr ⟨(Nat.le_min.mp fewer).2, few⟩⟩

/-- Without a ranker, the available segments of a query are served in turn. -/
theorem select_takesTurns (selector : Selector) (unranked : selector.ranker = none)
    (built : states.Built) (distinct : segments.Nodup) (request : Nat) (options : QueryOptions) :
    (selector.select states segments request options).TakesTurns states segments
      options.groupsToQuery (selector.base request options) where
  served position segment listed := by
    have filled := (RoutingStates.mem_available.mp (List.mem_of_getElem? listed)).2
    obtain ⟨chosen, given⟩ := inTurn?_isSome filled (selector.base request options)
      (replicaOffset options.groupsToQuery (states.counts segments) position)
    exact ⟨chosen,
      select_serves selector unranked built.stocked distinct request options listed given, given⟩
  bounded position later :=
    replicaOffset_lt options.groupsToQuery_pos (fun _ => RoutingStates.pos_of_mem_counts) later
  touched servers alike :=
    size_servers_le unranked built.stocked distinct request options alike

/-- Three segments with three, two and three candidates, and one without any. -/
def unevenStates : RoutingStates :=
  let online (server : String) : Candidate := ⟨server, true, 0⟩
  .ofLists (.ofList [("wide", ["a", "b", "c"].map online), ("narrow", ["a", "b"].map online),
    ("last", ["a", "b", "c"].map online), ("gone", [])]) {}

def threeGroups : QueryOptions := .ofList [("numReplicaGroupsToQuery", " 3 ")]

theorem uneven_takesTurns :
    (select { table := "t" } unevenStates ["wide", "gone", "narrow", "last"] 18446744073709551615
      threeGroups).TakesTurns unevenStates ["wide", "gone", "narrow", "last"] 3
        18446744073709551615 := by
  have groups : threeGroups.groupsToQuery = 3 := by decide +kernel
  have built : unevenStates.Built := .ofLists _ _
  have distinct : ["wide", "gone", "narrow", "last"].Nodup := by decide
  have turns := select_takesTurns { table := "t" } rfl built distinct 18446744073709551615
    threeGroups
  rwa [groups] at turns

end Selector

end SegmentPlacement

import SegmentPlacement.Proofs.Loads
import SegmentPlacement.Proofs.RoutingCandidates
import SegmentPlacement.Routing.Selector

/-! Where a selection puts the segments of a query. Every segment is in exactly one
part of the selection, and the part is told from its candidates. To see that nothing
is divided by zero or taken from beyond a list, the choices are made a second time
with every such step checked, and come out the same. -/

namespace SegmentPlacement

/-- A remainder; there is none by zero. -/
def remainder? (number divisor : Nat) : Option Nat :=
  if divisor = 0 then none else some (number % divisor)

private theorem remainder?_of_pos (number : Nat) {divisor : Nat} (positive : 0 < divisor) :
    remainder? number divisor = some (number % divisor) :=
  if_neg (Nat.ne_of_gt positive)

theorem QueryOptions.groupsToQuery_pos (options : QueryOptions) : 0 < options.groupsToQuery := by
  unfold groupsToQuery
  generalize (options.get? "numReplicaGroupsToQuery").bind _ = asked
  cases kept : asked.filter (0 < ·) with
  | none => exact Nat.one_pos
  | some groups => simpa using (Option.filter_eq_some_iff.mp kept).2

namespace Selection

def sent (online : Bool) (choices : List (String × Option Candidate)) : List (String × String) :=
  choices.filterMap fun choice => (choice.2.filter fun chosen => chosen.online = online).map
    fun chosen => (choice.1, chosen.server)

def unserved (choices : List (String × Option Candidate)) : List String :=
  (choices.filter fun choice => choice.2.isNone).map Prod.fst

variable {choices : List (String × Option Candidate)}

private theorem foldl_addChoice (selection : Selection) :
    choices.foldl (fun selection choice => selection.addChoice choice.1 choice.2) selection =
      { segments := selection.segments.insertAll (sent true choices)
        optional := selection.optional.insertAll (sent false choices)
        unavailable := selection.unavailable ++ unserved choices } := by
  induction choices generalizing selection with
  | nil => simp [sent, unserved, OrderedMap.insertAll]
  | cons choice rest ih =>
    obtain ⟨segment, given⟩ := choice
    rw [List.foldl_cons, ih]
    cases given with
    | none => simp [addChoice, sent, unserved]
    | some chosen =>
      obtain ⟨server, online, pool⟩ := chosen
      cases online <;> simp [addChoice, sent, unserved, OrderedMap.insertAll]

theorem ofChoices_eq (choices : List (String × Option Candidate)) : ofChoices choices =
    { segments := .ofList (sent true choices), optional := .ofList (sent false choices)
      unavailable := unserved choices } :=
  foldl_addChoice {}

private theorem parts_perm (choices : List (String × Option Candidate)) :
    ((sent true choices).map Prod.fst ++ (sent false choices).map Prod.fst ++
      unserved choices).Perm (choices.map Prod.fst) := by
  induction choices with
  | nil => exact List.Perm.nil
  | cons choice rest ih =>
    obtain ⟨segment, given⟩ := choice
    cases given with
    | none => exact List.perm_middle.trans (ih.cons segment)
    | some chosen =>
      obtain ⟨server, online, pool⟩ := chosen
      cases online with
      | true => exact ih.cons segment
      | false =>
        refine List.Perm.trans ?_ (ih.cons segment)
        exact List.perm_middle.append_right (unserved rest)

private theorem nodup_sent (distinct : (choices.map Prod.fst).Nodup) (online : Bool) :
    ((sent online choices).map Prod.fst).Nodup := by
  have all := ((parts_perm choices).nodup_iff.mpr distinct).of_append_left
  cases online with
  | true => exact all.of_append_left
  | false => exact all.of_append_right

theorem get?_sent (distinct : (choices.map Prod.fst).Nodup) {segment : String}
    {given : Option Candidate} (member : (segment, given) ∈ choices) (online : Bool) :
    (OrderedMap.ofList (sent online choices)).get? segment =
      (given.filter fun chosen => chosen.online = online).map Candidate.server := by
  cases kept : given.filter fun chosen => chosen.online = online with
  | some chosen =>
    have made : (segment, chosen.server) ∈ sent online choices :=
      List.mem_filterMap.mpr ⟨_, member, by rw [kept, Option.map_some]⟩
    exact OrderedMap.get?_insertAll_of_mem (nodup_sent distinct online) made
  | none =>
    refine OrderedMap.get?_insertAll_of_not_mem fun listed => ?_
    obtain ⟨⟨_, server⟩, sent, rfl⟩ := List.mem_map.mp listed
    obtain ⟨choice, other, made⟩ := List.mem_filterMap.mp sent
    obtain ⟨chosen, stays, same⟩ := Option.map_eq_some_iff.mp made
    cases same
    have agree := List.inj_on_of_nodup_map distinct other member rfl
    rw [agree, kept] at stays
    cases stays

/-- The segment is sent to a candidate, as one that may be missing there if that is not online. -/
def Serves (selection : Selection) (segment : String) (chosen : Candidate) : Prop :=
  selection.segments.get? segment = (if chosen.online then some chosen.server else none) ∧
  selection.optional.get? segment = (if chosen.online then none else some chosen.server)

def server? (selection : Selection) (segment : String) : Option String :=
  (selection.segments.get? segment).or (selection.optional.get? segment)

theorem Serves.server? {selection : Selection} {segment : String} {chosen : Candidate}
    (serves : selection.Serves segment chosen) : selection.server? segment = some chosen.server := by
  rw [Selection.server?, serves.1, serves.2]
  cases chosen.online <;> rfl

theorem serves_ofChoices (distinct : (choices.map Prod.fst).Nodup) {segment : String}
    {chosen : Candidate} (listed : (segment, some chosen) ∈ choices) :
    (ofChoices choices).Serves segment chosen := by
  rw [Serves, ofChoices_eq, get?_sent distinct listed, get?_sent distinct listed]
  cases online : chosen.online <;> simp [online]

/-- Where a selection puts the segments of a query: each in one part, unavailable when it has no
candidate and with one of its own candidates when it has some. -/
structure Sorts (selection : Selection) (states : RoutingStates) (segments : List String) :
    Prop where
  parts : (selection.segments.keys ++ selection.optional.keys ++ selection.unavailable).Perm
    segments
  unavailable : selection.unavailable = segments.filter fun segment =>
    (states.offered segment).isEmpty
  chosen : ∀ segment ∈ segments, states.offered segment ≠ [] →
    ∃ candidate ∈ states.offered segment,
      selection.segments.get? segment = (if candidate.online then some candidate.server else none) ∧
      selection.optional.get? segment = (if candidate.online then none else some candidate.server)

end Selection

namespace RoutingStates

variable {states : RoutingStates} {segment : String} {segments : List String}
  {given : Option Candidate} {choices : List (String × Option Candidate)}

/-- A segment is given one of its candidates, and nothing only when it has none. -/
structure Gives (states : RoutingStates) (segment : String) (given : Option Candidate) : Prop where
  offers : ∀ chosen ∈ given, chosen ∈ states.offered segment
  lacks : given = none → states.offered segment = []

theorem gives_none (found : states.candidatesOf? segment = none) : states.Gives segment none where
  offers chosen member := absurd member (Option.not_mem_none chosen)
  lacks _ := by rw [offered, found, Option.getD_none]

private theorem gives_some {candidates : List Candidate} {chosen : Candidate}
    (found : states.candidatesOf? segment = some candidates) (member : chosen ∈ candidates) :
    states.Gives segment (some chosen) where
  offers other same := by
    cases same
    rwa [offered, found, Option.getD_some]
  lacks absent := nomatch absent

private theorem Gives.isNone_eq (gives : states.Gives segment given) :
    given.isNone = (states.offered segment).isEmpty := by
  cases given with
  | none => rw [gives.lacks rfl, Option.isNone_none, List.isEmpty_nil]
  | some chosen =>
    have filled := List.ne_nil_of_mem (gives.offers chosen rfl)
    rw [Option.isNone_some, List.isEmpty_eq_false_iff.mpr filled]

/-- Choices that give every segment what it is to be given. -/
structure Answers (states : RoutingStates) (segments : List String)
    (choices : List (String × Option Candidate)) : Prop where
  names : choices.map Prod.fst = segments
  gives : ∀ choice ∈ choices, states.Gives choice.1 choice.2

namespace Answers

theorem nil : states.Answers [] [] where
  names := rfl
  gives _ member := absurd member List.not_mem_nil

theorem cons (gives : states.Gives segment given) (rest : states.Answers segments choices) :
    states.Answers (segment :: segments) ((segment, given) :: choices) where
  names := congrArg (segment :: ·) rest.names
  gives := List.forall_mem_cons.mpr ⟨gives, rest.gives⟩

theorem of_map (segments : List String) {give : String → Option Candidate}
    (gives : ∀ segment, states.Gives segment (give segment)) :
    states.Answers segments (segments.map fun segment => (segment, give segment)) where
  names := by simp only [List.map_map, Function.comp_def, List.map_id']
  gives := List.forall_mem_map.mpr fun segment _ => gives segment

theorem unserved_eq (answers : states.Answers segments choices) : Selection.unserved choices =
    segments.filter fun segment => (states.offered segment).isEmpty := by
  rw [← answers.names, List.filter_map]
  exact congrArg _ (List.filter_congr fun choice member => (answers.gives choice member).isNone_eq)

private theorem sorts (answers : states.Answers segments choices) (distinct : segments.Nodup) :
    (Selection.ofChoices choices).Sorts states segments := by
  have apart : (choices.map Prod.fst).Nodup := answers.names ▸ distinct
  refine ⟨?_, ?_, ?_⟩
  · rw [Selection.ofChoices_eq, ← answers.names]
    refine List.Perm.trans ?_ (Selection.parts_perm choices)
    exact ((OrderedMap.keys_ofList_perm (Selection.nodup_sent apart true)).append
      (OrderedMap.keys_ofList_perm (Selection.nodup_sent apart false))).append_right _
  · rw [Selection.ofChoices_eq, answers.unserved_eq]
  · intro segment member filled
    rw [← answers.names] at member
    obtain ⟨⟨_, given⟩, listed, rfl⟩ := List.mem_map.mp member
    cases given with
    | none => exact absurd ((answers.gives _ listed).lacks rfl) filled
    | some chosen =>
      exact ⟨chosen, (answers.gives _ listed).offers chosen rfl,
        Selection.serves_ofChoices apart listed⟩

end Answers

end RoutingStates

namespace Selector

section checked

variable (states : RoutingStates)

/-- Choices in turn, with every remainder and every access checked. -/
def chooseInTurn? (base : Nat) :
    Nat → Nat → List String → Option (List (String × Option Candidate))
  | _, _, [] => some []
  | groups, offset, segment :: rest =>
    match states.candidatesOf? segment with
    | none => (chooseInTurn? base groups offset rest).map ((segment, none) :: ·)
    | some candidates => do
      let position ← remainder? ((base + offset) % wordCount 64) candidates.length
      let chosen ← candidates[position]?
      let used := min groups candidates.length
      let next ← remainder? (offset + 1) used
      let others ← chooseInTurn? base used next rest
      some ((segment, some chosen) :: others)

/-- The best ranked candidate, checked; the candidate that the request number points to is looked
up first, whether or not it is needed. -/
def chooseRanked? (ranking : List String) (request : Nat) (candidates : List Candidate) :
    Option Candidate := do
  let position ← remainder? request candidates.length
  let inTurn ← candidates[position]?
  let ranks := candidates.map fun candidate => rankOf? ranking candidate.server
  if ranks.all Option.isSome then
    let rankAt (position : Nat) : Nat := (ranks[position]?.join).getD 0
    let best := (leastOf rankAt (List.range candidates.length)).bind fun position =>
      candidates[position]?
    some (best.getD inTurn)
  else some inTurn

/-- What a segment is given by its rank, checked; nothing when it has no candidate. -/
def giveRanked? (ranking : List String) (request : Nat) (segment : String) :
    Option (Option Candidate) :=
  match states.candidatesOf? segment with
  | none => some none
  | some candidates => (chooseRanked? ranking request candidates).map some

def choices? (selector : Selector) (segments : List String) (request : Nat)
    (options : QueryOptions) : Option (List (String × Option Candidate)) :=
  match selector.ranker with
  | some rank =>
    let ranking := rank (rankable states segments)
    segments.mapM fun segment =>
      (giveRanked? states ranking request segment).map fun given => (segment, given)
  | none =>
    let base :=
      if options.usesFixedReplica selector.useFixedReplica then fixedReplicaHash selector.table
      else request
    chooseInTurn? states base options.groupsToQuery 0 segments

/-- The selection, or none when a division by zero or an access beyond a list comes up. -/
def select? (selector : Selector) (segments : List String) (request : Nat)
    (options : QueryOptions) : Option Selection :=
  (selector.choices? states segments request options).map Selection.ofChoices

end checked

variable {states : RoutingStates}

/-- Choosing in turn never runs into a check as long as some group is in use. -/
theorem chooseInTurn_checked (stocked : states.Stocked) (base : Nat) {groups : Nat}
    (used : 0 < groups) (offset : Nat) (segments : List String) :
    chooseInTurn? states base groups offset segments =
        some (chooseInTurn states base groups offset segments) ∧
      states.Answers segments (chooseInTurn states base groups offset segments) := by
  induction segments generalizing groups offset with
  | nil => exact ⟨rfl, .nil⟩
  | cons segment rest ih =>
    unfold chooseInTurn? chooseInTurn
    cases found : states.candidatesOf? segment with
    | none =>
      obtain ⟨checked, answers⟩ := ih used offset
      exact ⟨by simp only [checked, Option.map_some], answers.cons (RoutingStates.gives_none found)⟩
    | some candidates =>
      -- the groups in use only shrink to a list that is kept, and no such list is empty
      have filled := List.length_pos_iff.mpr (stocked segment candidates found)
      have still : 0 < min groups candidates.length := Nat.lt_min.mpr ⟨used, filled⟩
      have inside := Nat.mod_lt ((base + offset) % wordCount 64) filled
      obtain ⟨checked, answers⟩ := ih still ((offset + 1) % min groups candidates.length)
      have gives := RoutingStates.gives_some found (List.getElem_mem inside)
      constructor
      · simp only [remainder?_of_pos _ filled, remainder?_of_pos _ still,
          List.getElem?_eq_getElem inside, checked, Option.bind_eq_bind, Option.bind_some]
      · simpa only [List.getElem?_eq_getElem inside] using answers.cons gives

theorem chooseRanked_checked (ranking : List String) (request : Nat) {candidates : List Candidate}
    (stocked : candidates ≠ []) :
    ∃ chosen ∈ candidates, chooseRanked? ranking request candidates = some chosen ∧
      chooseRanked ranking request candidates = some chosen := by
  have filled := List.length_pos_iff.mpr stocked
  have inside := Nat.mod_lt request filled
  simp only [chooseRanked?, chooseRanked, remainder?_of_pos _ filled,
    List.getElem?_eq_getElem inside, Option.bind_eq_bind, Option.bind_some]
  split
  · generalize (fun _ => _ : Nat → Nat) = rankAt
    cases best : leastOf rankAt (List.range candidates.length) with
    | none =>
      have empty := List.range_eq_nil.mp (leastOf_eq_none_iff.mp best)
      exact absurd empty (Nat.ne_of_gt filled)
    | some position =>
      have within := List.mem_range.mp (leastOf_spec best).1
      simp only [Option.bind_some, List.getElem?_eq_getElem within, Option.getD_some]
      exact ⟨_, List.getElem_mem within, rfl, rfl⟩
  · exact ⟨_, List.getElem_mem inside, rfl, rfl⟩

theorem giveRanked_checked (stocked : states.Stocked) (ranking : List String) (request : Nat)
    (segment : String) :
    let given := (states.candidatesOf? segment).bind (chooseRanked ranking request)
    giveRanked? states ranking request segment = some given ∧ states.Gives segment given := by
  unfold giveRanked?
  cases found : states.candidatesOf? segment with
  | none => exact ⟨rfl, RoutingStates.gives_none found⟩
  | some candidates =>
    obtain ⟨best, member, checked, same⟩ :=
      chooseRanked_checked ranking request (stocked segment candidates found)
    rw [Option.bind_some, same]
    exact ⟨congrArg (Option.map some) checked, RoutingStates.gives_some found member⟩

theorem choices_checked (selector : Selector) (stocked : states.Stocked) (segments : List String)
    (request : Nat) (options : QueryOptions) :
    selector.choices? states segments request options =
        some (selector.choices states segments request options) ∧
      states.Answers segments (selector.choices states segments request options) := by
  unfold choices? choices
  cases selector.ranker with
  | none => exact chooseInTurn_checked stocked _ options.groupsToQuery_pos 0 segments
  | some rank =>
    have given := giveRanked_checked stocked (rank (rankable states segments)) request
    constructor
    · simp only [(given _).1, Option.map_some]
      exact List.mapM_pure
    · exact .of_map segments fun segment => (given segment).2

/-- A selection puts every segment of a query where its candidates ask for, without dividing by
zero or reading beyond a list. With fixed replicas in force the request number does not matter. -/
theorem select_sorts (selector : Selector) (built : states.Built) {segments : List String}
    (distinct : segments.Nodup) (request : Nat) (options : QueryOptions) :
    selector.select? states segments request options =
        some (selector.select states segments request options) ∧
      (selector.select states segments request options).Sorts states segments ∧
      (selector.ranker = none → options.usesFixedReplica selector.useFixedReplica = true →
        ∀ other, selector.select states segments other options =
          selector.select states segments request options) := by
  obtain ⟨checked, answers⟩ := selector.choices_checked built.stocked segments request options
  refine ⟨?_, answers.sorts distinct, ?_⟩
  · rw [select?, checked, Option.map_some, select]
  · intro unranked fixed other
    simp only [select, choices, unranked, fixed, if_true]

/-- A segment on two servers, one that its only server still loads, and one without servers. -/
def loadingStates : RoutingStates :=
  .ofLists (.ofList [("old", [⟨"b", true, 1⟩, ⟨"a", true, 0⟩]), ("new", [⟨"b", false, 1⟩]),
    ("gone", [])]) {}

def fixedSelector : Selector := { table := "t_OFFLINE", useFixedReplica := true }

theorem fixedSelector_sorts :
    let selection := fixedSelector.select loadingStates ["old", "gone", "new"] 7 {}
    fixedSelector.select? loadingStates ["old", "gone", "new"] 7 {} = some selection ∧
      selection.Sorts loadingStates ["old", "gone", "new"] ∧
      ∀ other, fixedSelector.select loadingStates ["old", "gone", "new"] other {} = selection := by
  have built : loadingStates.Built := .ofLists _ _
  have distinct : ["old", "gone", "new"].Nodup := by decide
  obtain ⟨checked, sorts, fixed⟩ := select_sorts fixedSelector built distinct 7 {}
  exact ⟨checked, sorts, fixed rfl rfl⟩

end Selector

end SegmentPlacement

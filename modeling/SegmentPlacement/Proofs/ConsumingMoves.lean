import Mathlib.Data.List.Induction
import SegmentPlacement.Proofs.GatheredMap
import SegmentPlacement.Proofs.SummaryBalance
import SegmentPlacement.Rebalance.Consuming

/-! Consuming segments on the move. What is reported of them is told from the two
assignments and the offsets alone: which segments move, what every server takes on,
and which segments lag furthest behind, whatever the order in which they are met. -/

namespace SegmentPlacement

theorem Replicas.isConsuming_iff {replicas : Replicas} : replicas.isConsuming = true ↔
    (∃ server, replicas.get? server = some .consuming) ∧
      ∀ server, replicas.get? server ≠ some .online := by
  simp only [Replicas.isConsuming, Bool.and_eq_true, List.contains_iff_mem, Bool.not_eq_true',
    ← Bool.not_eq_true, OrderedMap.mem_values_iff, not_exists, ne_eq]

namespace ConsumingSummary
open Move

/-- A segment of the target moves when it has a consuming replica and none online, and its servers
change. -/
def Moves (current target : Assignment) (segment : String) : Prop :=
  ∃ before after, current.get? segment = some before ∧ target.get? segment = some after ∧
    ((∃ server, before.get? server = some .consuming) ∧
      ∀ server, before.get? server ≠ some .online) ∧
    ∃ server, ¬ (server ∈ before.keys ↔ server ∈ after.keys)

def newHosts (current target : Assignment) (segment : String) : List String :=
  gaining (current.replicasOf segment) (target.replicasOf segment)

/-- How far new replicas of a segment are behind the stream, when that can be told. -/
def behind (segments : OrderedMap String Segment) (offsets : Option OffsetSource)
    (name : String) : Option Int := do
  let segment ← segments.get? name
  let start ← segment.startOffset
  let source ← offsets
  match source segment.partition with
  | .given latest => latest.map fun latest => max (latest - start) 0
  | .failed | .late => none

/-- The sum of numbers that are all known, or -1. -/
def sumIfKnown (numbers : List (Option Int)) : Int :=
  if none ∈ numbers then -1 else numbers.foldl (fun sum number => sum + number.getD 0) 0

/-- Greater values come first, and equal ones by name. -/
def Precedes (first second : RankedSegment) : Prop :=
  second.value < first.value ∨ first.value = second.value ∧ first.segment < second.segment

/-- What a summary tells of the segments that move. -/
structure Tells (summary : ConsumingSummary) (current target : Assignment)
    (segments : OrderedMap String Segment) (offsets : Option OffsetSource)
    (movers : List String) : Prop where
  ordered : movers.Pairwise (· < ·)
  members : ∀ segment, segment ∈ movers ↔ Moves current target segment
  moving : summary.moving = movers.length
  /-- Servers are listed when they take a segment on, with the number of these segments and the
  offsets that all of them have to catch up. -/
  servers : ∀ server, summary.servers.get? server =
    let taken := movers.filter fun segment => server ∈ newHosts current target segment
    if taken = [] then none
    else some ⟨taken.length, sumIfKnown (taken.map (behind segments offsets))⟩
  unranked : summary.mostOffsets = none ↔ ∃ segment ∈ movers, behind segments offsets segment = none
  ranked : ∀ listed, summary.mostOffsets = some listed → ∃ ranking : List RankedSegment,
    ranking.Perm (movers.filterMap fun segment =>
      (behind segments offsets segment).map fun value => ⟨segment, value⟩) ∧
    ranking.Pairwise Precedes ∧ listed = ranking.take 10
  total : total (summary.servers.values.map ConsumingServer.added) =
    total (movers.map fun segment => (newHosts current target segment).length)

section moving

variable {current target : Assignment}

theorem movingSegment?_eq_some_iff {name : String} {held : Replicas} {moved : MovingSegment}
    (stored : current.get? name = some held) : movingSegment? target name held = some moved ↔
      Moves current target name ∧ ⟨name, newHosts current target name⟩ = moved := by
  have fits : ∀ after, target.get? name = some after →
      newHosts current target name = gaining held after := by
    intro after aimed
    simp only [newHosts, Assignment.replicasOf, stored, aimed, Option.getD_some]
  simp only [movingSegment?, Option.ite_none_right_eq_some, Option.ite_none_left_eq_some,
    Option.bind_eq_some_iff, Replicas.isConsuming_iff, OrderedMap.keys_eq_iff, not_forall,
    Option.some.injEq]
  constructor
  · intro found
    obtain ⟨consuming, after, aimed, changed, same⟩ := found
    exact ⟨⟨held, after, stored, aimed, consuming, changed⟩, fits after aimed ▸ same⟩
  · intro moves
    obtain ⟨⟨before, after, found, aimed, consuming, changed⟩, same⟩ := moves
    cases stored.symm.trans found
    exact ⟨consuming, after, aimed, changed, fits after aimed ▸ same⟩

def movers (current target : Assignment) : List String :=
  (movingSegments current target).map MovingSegment.name

theorem mem_movingSegments {moved : MovingSegment} : moved ∈ movingSegments current target ↔
    Moves current target moved.name ∧ newHosts current target moved.name = moved.added := by
  simp only [movingSegments, List.mem_filterMap, Prod.exists, ← OrderedMap.get?_eq_some_iff]
  constructor
  · intro ⟨name, held, stored, found⟩
    obtain ⟨moves, rfl⟩ := (movingSegment?_eq_some_iff stored).mp found
    exact ⟨moves, rfl⟩
  · intro ⟨moves, added⟩
    have ⟨held, _, stored, _⟩ := moves
    exact ⟨moved.name, held, stored, (movingSegment?_eq_some_iff stored).mpr ⟨moves, by rw [added]⟩⟩

theorem mem_movers {segment : String} :
    segment ∈ movers current target ↔ Moves current target segment := by
  simp only [movers, List.mem_map, mem_movingSegments]
  constructor
  · rintro ⟨moved, ⟨moves, _⟩, rfl⟩
    exact moves
  · exact fun moves => ⟨⟨segment, newHosts current target segment⟩, ⟨moves, rfl⟩, rfl⟩

private theorem pairwise_movers : (movers current target).Pairwise (· < ·) := by
  refine List.pairwise_map.mpr (List.pairwise_filterMap.mpr ?_)
  refine (List.pairwise_map.mp current.pairwise_keys_lt).imp_of_mem ?_
  intro first second here there below _ found _ other
  obtain ⟨_, rfl⟩ := (movingSegment?_eq_some_iff (OrderedMap.get?_eq_some_iff.mpr here)).mp found
  obtain ⟨_, rfl⟩ := (movingSegment?_eq_some_iff (OrderedMap.get?_eq_some_iff.mpr there)).mp other
  exact below

end moving

section offsets

variable {current target : Assignment} {segments : OrderedMap String Segment}
  {offsets : Option OffsetSource}

private theorem catchUp_of_mem {moving : List MovingSegment} {moved : MovingSegment}
    (member : moved ∈ moving) :
    catchUp segments (latestOffsets moving segments offsets) moved.name =
      behind segments offsets moved.name := by
  unfold catchUp behind
  cases stored : segments.get? moved.name with
  | none => rfl
  | some segment =>
    simp only [Option.bind_eq_bind, Option.bind_some]
    cases segment.startOffset with
    | none => rfl
    | some start =>
      cases offsets with
      | none => rfl
      | some source =>
        have asked : segment.partition ∈ moving.filterMap fun segment =>
            (segments.get? segment.name).map Segment.partition :=
          List.mem_filterMap.mpr ⟨moved, member, by rw [stored, Option.map_some]⟩
        obtain ⟨_, listed⟩ := OrderedMap.mem_keys_iff.mp (OrderedMap.mem_keys_ofKeys.mpr asked)
        simp only [latestOffsets, OrderedMap.get?_map, listed, Option.map_some, Option.join_some,
          Option.bind_some]
        cases source segment.partition with
        | given latest => cases latest <;> rfl
        | failed => rfl
        | late => rfl

private theorem behind_nonneg {segment : String} {value : Int}
    (known : behind segments offsets segment = some value) : 0 ≤ value := by
  simp only [behind, Option.bind_eq_bind, Option.bind_eq_some_iff] at known
  obtain ⟨_, _, start, _, source, _, told⟩ := known
  split at told
  · obtain ⟨latest, _, rfl⟩ := Option.map_eq_some_iff.mp told
    exact Int.le_max_right _ _
  all_goals cases told

end offsets

section totals

private theorem foldl_add_nonneg {numbers : List (Option Int)}
    (positive : ∀ value, some value ∈ numbers → 0 ≤ value) {start : Int} (begun : 0 ≤ start) :
    0 ≤ numbers.foldl (fun sum number => sum + number.getD 0) start := by
  induction numbers generalizing start with
  | nil => exact begun
  | cons first rest ih =>
    refine ih (fun value member => positive value (List.mem_cons_of_mem _ member)) ?_
    cases first with
    | none => exact Int.add_nonneg begun (Int.le_refl 0)
    | some value => exact Int.add_nonneg begun (positive value List.mem_cons_self)

theorem sumIfKnown_nonneg_iff {numbers : List (Option Int)}
    (positive : ∀ value, some value ∈ numbers → 0 ≤ value) :
    0 ≤ sumIfKnown numbers ↔ none ∉ numbers := by
  rw [sumIfKnown]
  split
  · rename_i unknown
    exact iff_of_false (by decide) (fun known => known unknown)
  · rename_i known
    exact iff_of_true (foldl_add_nonneg positive (Int.le_refl 0)) known

private theorem foldl_takeOn {numbers : List (Option Int)}
    (positive : ∀ value, some value ∈ numbers → 0 ≤ value) :
    numbers.foldl takeOn ⟨0, 0⟩ = ⟨numbers.length, sumIfKnown numbers⟩ := by
  -- The total so far is that of the numbers before the last one.
  induction numbers using List.reverseRecOn with
  | nil => rfl
  | append_singleton earlier last ih =>
    have before : ∀ value, some value ∈ earlier → 0 ≤ value := fun value member =>
      positive value (List.mem_append_left _ member)
    have known := sumIfKnown_nonneg_iff before
    rw [List.foldl_concat, ih before, List.length_append, List.length_singleton]
    cases last with
    | none => simp [takeOn, sumIfKnown]
    | some value =>
      by_cases unknown : none ∈ earlier
      · simp [takeOn, sumIfKnown, unknown]
      · have sum : sumIfKnown (earlier ++ [some value]) = sumIfKnown earlier + value := by
          simp [sumIfKnown, unknown]
        rw [sum, takeOn, if_pos (known.mpr unknown)]

private theorem serverTotals_eq (moving : List MovingSegment) (offsetsOf : String → Option Int) :
    serverTotals moving offsetsOf = OrderedMap.gather (fun _ => ⟨0, 0⟩) takeOn {}
      (moving.flatMap fun moved => moved.added.map fun server => (server, offsetsOf moved.name)) :=
  OrderedMap.foldl_sources (fun _ => (⟨0, 0⟩ : ConsumingServer)) takeOn {} MovingSegment.added
    (fun moved => offsetsOf moved.name) moving

end totals

section ranking

private theorem top_spec {ranked : List RankedSegment}
    (distinct : (ranked.map RankedSegment.segment).Nodup) : ∃ ranking : List RankedSegment,
      ranking.Perm ranked ∧ ranking.Pairwise Precedes ∧ top ranked = ranking.take 10 := by
  have permuted := List.mergeSort_perm ranked fun first second =>
    second.value < first.value
      || (first.value = second.value && first.segment ≤ second.segment)
  refine ⟨_, permuted, ?_, rfl⟩
  have apart := List.pairwise_map.mp ((permuted.map RankedSegment.segment).nodup_iff.mpr distinct)
  refine ((List.pairwise_mergeSort ?_ ?_ ranked).and apart).imp ?_
  · intro first second third before after
    simp only [Bool.or_eq_true, Bool.and_eq_true, decide_eq_true_eq] at before after ⊢
    rcases before with less | ⟨same, named⟩ <;> rcases after with later | ⟨equal, following⟩
    · exact Or.inl (Int.lt_trans later less)
    · exact Or.inl (equal ▸ less)
    · exact Or.inl (same ▸ later)
    · exact Or.inr ⟨same.trans equal, String.le_trans named following⟩
  · intro first second
    simp only [Bool.or_eq_true, Bool.and_eq_true, decide_eq_true_eq]
    rcases Int.lt_trichotomy first.value second.value with less | same | greater
    · exact Or.inr (Or.inl less)
    · exact (String.le_total first.segment second.segment).imp (fun named => Or.inr ⟨same, named⟩)
        fun named => Or.inr ⟨same.symm, named⟩
    · exact Or.inl (Or.inl greater)
  · intro first second ⟨ordered, different⟩
    simp only [Bool.or_eq_true, Bool.and_eq_true, decide_eq_true_eq] at ordered
    refine ordered.imp_right fun ⟨same, named⟩ => ⟨same, ?_⟩
    exact String.not_le.mp fun other => different (String.le_antisymm named other)

end ranking

section compute

variable (current target : Assignment) (segments : OrderedMap String Segment)
  (offsets : Option OffsetSource)

def told : List (String × Option Int) :=
  (movers current target).flatMap fun segment =>
    (newHosts current target segment).map fun server => (server, behind segments offsets segment)

private theorem itemsOf_told (server : String) :
    OrderedMap.itemsOf (told current target segments offsets) server =
      ((movers current target).filter fun segment => server ∈ newHosts current target segment).map
        (behind segments offsets) :=
  OrderedMap.itemsOf_flatMap_of_nodup
    (fun segment _ => ((target.replicasOf segment).nodup_keys.filter _)) server

theorem servers_compute (now : Int) : (compute current target segments offsets now).servers =
    OrderedMap.gather (fun _ => ⟨0, 0⟩) takeOn {} (told current target segments offsets) := by
  rw [compute, serverTotals_eq, told, movers, List.flatMap_map]
  refine congrArg _ (List.flatMap_congr fun moved member => ?_)
  rw [catchUp_of_mem member, (mem_movingSegments.mp member).2]

private theorem foldl_takeOn_told (server : String) :
    (OrderedMap.itemsOf (told current target segments offsets) server).foldl takeOn ⟨0, 0⟩ =
      ⟨(OrderedMap.itemsOf (told current target segments offsets) server).length,
        sumIfKnown (OrderedMap.itemsOf (told current target segments offsets) server)⟩ := by
  refine foldl_takeOn fun value member => ?_
  rw [itemsOf_told] at member
  obtain ⟨_, _, known⟩ := List.mem_map.mp member
  exact behind_nonneg known

/-- The movers with what their new replicas are behind, as far as that is known. -/
def ranked : List RankedSegment :=
  (movers current target).filterMap fun segment =>
    (behind segments offsets segment).map fun value => ⟨segment, value⟩

private theorem nodup_ranked :
    ((ranked current target segments offsets).map RankedSegment.segment).Nodup := by
  rw [ranked, List.map_filterMap]
  have distinct : (movers current target).Nodup := pairwise_movers.imp String.ne_of_lt
  refine distinct.filterMap fun first second name one other => ?_
  simp only [Option.map_map, Option.mem_def, Option.map_eq_some_iff, Function.comp_apply] at one other
  obtain ⟨_, _, rfl⟩ := one
  obtain ⟨_, _, same⟩ := other
  exact same.symm

theorem length_ranked_iff :
    (ranked current target segments offsets).length = (movers current target).length ↔
      ∀ segment ∈ movers current target, behind segments offsets segment ≠ none := by
  simp only [ranked, List.filterMap_length_eq_length, Option.isSome_map, Option.isSome_iff_ne_none]

private theorem mostOffsets_compute (now : Int) :
    (compute current target segments offsets now).mostOffsets =
      if (ranked current target segments offsets).length = (movers current target).length
      then some (top (ranked current target segments offsets)) else none := by
  have known : ((movingSegments current target).filterMap fun moved =>
      (catchUp segments (latestOffsets (movingSegments current target) segments offsets)
        moved.name).map fun value => (⟨moved.name, value⟩ : RankedSegment)) =
      ranked current target segments offsets := by
    rw [ranked, movers, List.filterMap_map]
    refine List.filterMap_congr fun moved member => ?_
    rw [catchUp_of_mem member, Function.comp_apply]
  simp only [compute, known, movers, List.length_map]

/-- The summary of consuming segments tells which of them move and where to, and what the servers
that take them are behind, as far as every offset is known. -/
theorem compute_tells (now : Int) :
    (compute current target segments offsets now).Tells current target segments offsets
      (movers current target) := by
  constructor
  case ordered => exact pairwise_movers
  case members => exact fun segment => mem_movers
  case moving => exact (List.length_map _).symm
  case servers =>
    intro server
    rw [servers_compute, OrderedMap.get?_gather, OrderedMap.get?_empty, Option.getD_none,
      foldl_takeOn_told, itemsOf_told]
    simp only [List.map_eq_nil_iff, List.length_map]
  case unranked =>
    simp only [mostOffsets_compute, length_ranked_iff, ite_eq_right_iff, reduceCtorEq, imp_false,
      not_forall, not_not, exists_prop]
  case ranked =>
    intro listed found
    rw [mostOffsets_compute] at found
    obtain ⟨_, same⟩ := Option.ite_none_right_eq_some.mp found
    obtain ⟨ranking, permuted, ordered, cut⟩ :=
      top_spec (nodup_ranked current target segments offsets)
    exact ⟨ranking, permuted, ordered, (Option.some.inj same).symm.trans cut⟩
  case total =>
    have counts := fun server =>
      congrArg ConsumingServer.added (foldl_takeOn_told current target segments offsets server)
    rw [servers_compute, OrderedMap.total_values_gather ConsumingServer.added counts, told,
      List.length_flatMap]
    simp only [List.length_map]
    rfl

end compute

end ConsumingSummary

end SegmentPlacement

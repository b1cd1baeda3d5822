import Mathlib.Algebra.BigOperators.Group.Finset.Piecewise
import Mathlib.Algebra.Order.BigOperators.Group.Finset
import SegmentPlacement.Proofs.SettledPlacement

/-! How many segments aligned placement leaves where they are. An index keeps the
segments that match it best up to the average, and as many crowded indices as the
remainder says keep one more. No indices that are spread evenly leave more segments
at the index that they match best. -/

namespace SegmentPlacement

private theorem Loads.above_eq_sum (limit : Nat) (loads : Loads) :
    loads.above limit =
      ∑ position ∈ Finset.range loads.length, (loads.carried position - limit) := by
  induction loads with
  | nil => rfl
  | cons load rest ih =>
    rw [List.length_cons, Finset.sum_range_succ', Nat.add_comm]
    exact congrArg (load - limit + ·) ih

namespace Aligned

section matching

variable {lists : List (List String)} {slots index : Nat} {replicas : Replicas}

/-- An index at which most of the servers hold the segment, the lowest such index, and some server
does. -/
def MatchesBest (lists : List (List String)) (slots : Nat) (replicas : Replicas) (index : Nat) :
    Prop :=
  (index < slots ∧ 0 < hits lists replicas index) ∧
    ∀ other < slots, hits lists replicas other < hits lists replicas index ∨
      hits lists replicas other = hits lists replicas index ∧ index ≤ other

instance (lists : List (List String)) (slots : Nat) (replicas : Replicas) (index : Nat) :
    Decidable (MatchesBest lists slots replicas index) :=
  inferInstanceAs (Decidable (_ ∧ _))

theorem bestIndex?_eq_some_iff :
    bestIndex? lists slots replicas = some index ↔ MatchesBest lists slots replicas index := by
  have sorted : ((List.range slots).filter fun index =>
      0 < hits lists replicas index).Pairwise (· < ·) := List.pairwise_lt_range.filter _
  have listed (other : Nat) : other ∈ (List.range slots).filter (fun index =>
      0 < hits lists replicas index) ↔ other < slots ∧ 0 < hits lists replicas other := by
    rw [List.mem_filter, List.mem_range, decide_eq_true_iff]
  rw [bestIndex?, greatestOf_eq_some_iff sorted, listed]
  refine and_congr_right fun ⟨_, positive⟩ => ⟨fun best other inside => ?_,
    fun best other member => best other ((listed other).mp member).1⟩
  rcases Nat.eq_zero_or_pos (hits lists replicas other) with zero | hit
  · exact Or.inl (zero ▸ positive)
  · exact best other ((listed other).mpr ⟨inside, hit⟩)

end matching

section staying

variable {slots : Nat} {best : List (Option Nat)} {indices : List Nat}

/-- The indices of the segments that stay at the index that they match best. -/
def staying (best : List (Option Nat)) (indices : List Nat) : List Nat :=
  ((best.zip indices).filter fun pair => pair.1 = some pair.2).map Prod.snd

private theorem staying_sublist (length : indices.length = best.length) :
    (staying best indices).Sublist indices := by
  have front := (List.filter_sublist (l := best.zip indices)
    (p := fun pair => pair.1 = some pair.2)).map Prod.snd
  rwa [List.map_snd_zip (by omega)] at front

private theorem map_staying_sublist (length : indices.length = best.length) :
    ((staying best indices).map some).Sublist best := by
  have same : (staying best indices).map some =
      ((best.zip indices).filter fun pair => pair.1 = some pair.2).map Prod.fst := by
    rw [staying, List.map_map]
    refine List.map_congr_left fun pair member => ?_
    exact (of_decide_eq_true (List.mem_filter.mp member).2).symm
  have front := (List.filter_sublist (l := best.zip indices)
    (p := fun pair => pair.1 = some pair.2)).map Prod.fst
  rwa [List.map_fst_zip (by omega), ← same] at front

private theorem sum_count (inside : ∀ index ∈ indices, index < slots) :
    ∑ index ∈ Finset.range slots, indices.count index = indices.length := by
  have whole := Multiset.sum_count_eq_card (s := Finset.range slots) (m := (indices : Multiset Nat))
    fun index member => Finset.mem_range.mpr (inside index member)
  simpa using whole

/-- How many of the segments can stay when none of the indices may have two more than another: up to
the average at every index, and one more at as many crowded indices as the remainder says. -/
def mostStaying (slots count : Nat) (matching : Nat → Nat) : Nat :=
  ∑ index ∈ Finset.range slots, min (matching index) (count / slots) +
    min (count % slots)
      ((Finset.range slots).filter fun index => count / slots < matching index).card

/-- Indices for so many segments, none of them with two segments more than another. -/
structure Spread (slots count : Nat) (indices : List Nat) : Prop where
  length : indices.length = count
  inside : ∀ index ∈ indices, index < slots
  even : ∀ first < slots, ∀ second < slots, indices.count first ≤ indices.count second + 1

private theorem Spread.length_staying_le (spread : Spread slots best.length indices) :
    (staying best indices).length ≤
      mostStaying slots best.length fun index => best.count (some index) := by
  obtain ⟨length, inside, even⟩ := spread
  let average := best.length / slots
  let loads := (Loads.zero slots).addAll indices
  have slots_eq : loads.length = slots := by simp [loads]
  have carried : ∀ index < slots, loads.carried index = indices.count index := by
    intro index below
    rw [Loads.carried_addAll _ _ (by simpa using below), Loads.carried_zero, Nat.zero_add]
  have whole : total loads = best.length := by
    rw [Loads.total_addAll _ (by simpa using inside), Loads.total_zero, Nat.zero_add, length]
  have level : ∀ first < loads.length, ∀ second < loads.length,
      loads.carried first ≤ loads.carried second + 1 := by
    intro first here second there
    rw [slots_eq] at here there
    rw [carried first here, carried second there]
    exact even first here second there
  have allows := Share.allows_of_even level
  rw [whole, slots_eq] at allows
  -- Of the segments at an index, those above the average count against the extra.
  have each : ∀ index ∈ Finset.range slots, (staying best indices).count index ≤
      min (best.count (some index)) average +
        if average < best.count (some index) then loads.carried index - average else 0 := by
    intro index member
    have below := Finset.mem_range.mp member
    have here := (staying_sublist length).count_le index
    have there := (map_staying_sublist length).count_le (some index)
    rw [List.count_map_of_injective _ _ (Option.some_injective _)] at there
    rw [carried index below]
    split <;> omega
  have stay : ∀ index ∈ staying best indices, index < slots := fun index member =>
    inside index ((staying_sublist length).subset member)
  calc (staying best indices).length
    _ = ∑ index ∈ Finset.range slots, (staying best indices).count index := (sum_count stay).symm
    _ ≤ ∑ index ∈ Finset.range slots, (min (best.count (some index)) average +
          if average < best.count (some index) then loads.carried index - average else 0) :=
      Finset.sum_le_sum each
    _ = ∑ index ∈ Finset.range slots, min (best.count (some index)) average +
          ∑ index ∈ Finset.range slots,
            if average < best.count (some index) then loads.carried index - average else 0 :=
      Finset.sum_add_distrib
    _ ≤ mostStaying slots best.length fun index => best.count (some index) := by
      refine Nat.add_le_add_left (le_min ?_ ?_) _
      · have spare := allows.spare
        rw [Loads.above_eq_sum, slots_eq] at spare
        refine le_trans (Finset.sum_le_sum fun index _ => ?_) spare
        split
        · exact Nat.le_refl _
        · exact Nat.zero_le _
      · rw [Finset.card_filter]
        refine Finset.sum_le_sum fun index _ => ?_
        have bounded : loads.carried index ≤ average + 1 := allows.bounded index
        split <;> omega

/-- As many segments can stay as are kept within the average, and above it until the remainder is
used up. -/
theorem mostStaying_le {count : Nat} {matching kept : Nat → Nat}
    (full : ∀ index < slots, kept index < matching index → count / slots ≤ kept index ∧
      (kept index = count / slots →
        count % slots ≤ ∑ other ∈ Finset.range slots, (kept other - count / slots))) :
    mostStaying slots count matching ≤ ∑ index ∈ Finset.range slots, kept index := by
  let average := count / slots
  have split : ∑ index ∈ Finset.range slots, kept index =
      ∑ index ∈ Finset.range slots, min (kept index) average +
        ∑ index ∈ Finset.range slots, (kept index - average) := by
    rw [← Finset.sum_add_distrib]
    refine Finset.sum_congr rfl fun index _ => ?_
    omega
  rw [split]
  refine Nat.add_le_add (Finset.sum_le_sum fun index member => ?_) ?_
  · by_cases fewer : kept index < matching index
    · have enough := (full index (Finset.mem_range.mp member) fewer).1
      exact le_min (Nat.le_trans (Nat.min_le_right ..) enough) (Nat.min_le_right ..)
    · exact min_le_min_right _ (Nat.le_of_not_lt fewer)
  by_cases spent : ∃ index < slots, kept index < matching index ∧ kept index = average
  · obtain ⟨index, inside, fewer, same⟩ := spent
    exact Nat.le_trans (Nat.min_le_left ..) ((full index inside fewer).2 same)
  · refine Nat.le_trans (Nat.min_le_right ..) ?_
    rw [Finset.card_filter]
    refine Finset.sum_le_sum fun index member => ?_
    have inside := Finset.mem_range.mp member
    split <;> rename_i crowded
    · by_cases fewer : kept index < matching index
      · have enough := (full index inside fewer).1
        have other : kept index ≠ average := fun same => spent ⟨index, inside, fewer, same⟩
        omega
      · omega
    · exact Nat.zero_le _

end staying

/-- An index that keeps fewer segments than match it has kept the average, and either one more or
nothing is left of the extra. -/
theorem keepIndices_full {share : Share} {loads after : Loads} {best kept : List (Option Nat)}
    (inside : ∀ index, some index ∈ best → index < loads.length)
    (result : keepIndices share loads best = (kept, after)) {index : Nat}
    (fewer : after.carried index < loads.carried index + best.count (some index)) :
    share.average ≤ after.carried index ∧ (after.carried index = share.average →
      share.extra + loads.above share.average ≤ after.above share.average) := by
  induction best generalizing share loads kept after with
  | nil =>
    cases result
    exact absurd fewer (Nat.lt_irrefl _)
  | cons first rest ih =>
    have later := fun other member => inside other (List.mem_cons_of_mem first member)
    cases first with
    | none =>
      rcases remaining : keepIndices share loads rest with ⟨others, final⟩
      simp only [keepIndices, remaining, Prod.mk.injEq] at result
      obtain ⟨rfl, rfl⟩ := result
      exact ih later remaining (by simpa using fewer)
    | some best =>
      have here := inside best List.mem_cons_self
      cases allowed : share.keep? (loads.carried best) with
      | some left =>
        rcases remaining : keepIndices left (loads.add best) rest with ⟨others, final⟩
        simp only [keepIndices, allowed, remaining, Prod.mk.injEq] at result
        obtain ⟨rfl, rfl⟩ := result
        obtain ⟨_, average, extra⟩ := Share.keep?_spec allowed
        have grown := loads.above_add share.average here
        have less : final.carried index <
            (loads.add best).carried index + rest.count (some index) := by
          rw [List.count_cons] at fewer
          rw [Loads.carried_add here]
          by_cases same : best = index
          · simp only [same, beq_self_eq_true, if_true] at fewer ⊢
            omega
          · simpa [same] using fewer
        have spent := ih (by simpa using later) remaining less
        rw [average] at spent
        refine ⟨spent.1, fun same => ?_⟩
        have := spent.2 same
        omega
      | none =>
        rcases remaining : keepIndices share loads rest with ⟨others, final⟩
        simp only [keepIndices, allowed, remaining, Prod.mk.injEq] at result
        obtain ⟨rfl, rfl⟩ := result
        by_cases less : final.carried index < loads.carried index + rest.count (some index)
        · exact ih later remaining less
        obtain rfl : best = index := by
          by_contra other
          exact less (by simpa [other] using fewer)
        -- The index has been refused, so it has its share already.
        obtain ⟨reached, spent⟩ := Share.average_le_of_keep?_eq_none allowed
        obtain ⟨rfl, _⟩ := keepIndices_kept remaining
        obtain ⟨_, _, part⟩ := keepIndices_spec remaining
        have within : ∀ other ∈ others.reduceOption, other < loads.length := fun other member =>
          later other (part other (List.reduceOption_mem_iff.mp member))
        refine ⟨by omega, fun same => ?_⟩
        rw [spent (by omega), Nat.zero_add]
        exact Loads.above_le_above_addAll share.average loads within

private theorem staying_cons (best : Option Nat) (others : List (Option Nat)) (index : Nat)
    (indices : List Nat) :
    staying (best :: others) (index :: indices) =
      if best = some index then index :: staying others indices else staying others indices := by
  simp only [staying, List.zip_cons_cons, List.filter_cons, decide_eq_true_eq]
  split <;> rfl

theorem keepIndices_staying {share : Share} {loads after : Loads} {best kept : List (Option Nat)}
    (result : keepIndices share loads best = (kept, after)) (start : Loads) :
    kept.reduceOption.Sublist (staying best (fillIndices start kept)) := by
  induction best generalizing share loads kept after start with
  | nil =>
    cases result
    exact .slnil
  | cons first rest ih =>
    cases first with
    | none =>
      rcases later : keepIndices share loads rest with ⟨others, final⟩
      simp only [keepIndices, later, Prod.mk.injEq] at result
      obtain ⟨rfl, rfl⟩ := result
      rw [List.reduceOption_cons_of_none, fillIndices, staying_cons, if_neg (by simp)]
      exact ih later _
    | some index =>
      cases allowed : share.keep? (loads.carried index) with
      | none =>
        rcases later : keepIndices share loads rest with ⟨others, final⟩
        simp only [keepIndices, allowed, later, Prod.mk.injEq] at result
        obtain ⟨rfl, rfl⟩ := result
        rw [List.reduceOption_cons_of_none, fillIndices, staying_cons]
        split
        · exact (ih later _).cons _
        · exact ih later _
      | some left =>
        rcases later : keepIndices left (loads.add index) rest with ⟨others, final⟩
        simp only [keepIndices, allowed, later, Prod.mk.injEq] at result
        obtain ⟨rfl, rfl⟩ := result
        rw [List.reduceOption_cons_of_some, fillIndices, staying_cons, if_pos rfl]
        exact (ih later _).cons_cons index

variable {slots : Nat} {best : List (Option Nat)}

private theorem spread_balancedIndices (positive : 0 < slots)
    (below : ∀ index, some index ∈ best → index < slots) :
    Spread slots best.length (balancedIndices slots best) := by
  obtain ⟨length, inside⟩ := balancedIndices_spec positive below
  refine ⟨length, inside, fun first here second there => ?_⟩
  let loads := (Loads.zero slots).addAll (balancedIndices slots best)
  have slots_eq : loads.length = slots := by simp [loads]
  have whole : total loads = best.length := by
    rw [Loads.total_addAll _ (by simpa using inside), Loads.total_zero, Nat.zero_add, length]
  have allows : (Share.divide (total loads) loads.length).Allows loads := by
    rw [whole, slots_eq]
    exact balancedIndices_allows positive below
  have even := allows.even first (slots_eq.symm ▸ here) second (slots_eq.symm ▸ there)
  simpa only [loads, Loads.carried_addAll, Loads.length_zero, here, there, Loads.carried_zero,
    Nat.zero_add] using even

private theorem length_staying_balancedIndices (positive : 0 < slots)
    (below : ∀ index, some index ∈ best → index < slots) :
    (staying best (balancedIndices slots best)).length =
      mostStaying slots best.length fun index => best.count (some index) := by
  refine Nat.le_antisymm (spread_balancedIndices positive below).length_staying_le ?_
  rcases result : keepIndices (Share.divide best.length slots) (Loads.zero slots) best with
    ⟨kept, loads⟩
  obtain ⟨same, _⟩ := keepIndices_kept result
  obtain ⟨_, slots_eq, part⟩ := keepIndices_spec result
  rw [Loads.length_zero] at slots_eq
  have within : ∀ index ∈ kept.reduceOption, index < slots := fun index member =>
    below index (part index (List.reduceOption_mem_iff.mp member))
  have carried : ∀ index < slots, loads.carried index = kept.reduceOption.count index := by
    intro index inside
    rw [same, Loads.carried_addAll _ _ (by simpa using inside), Loads.carried_zero, Nat.zero_add]
  have full : ∀ index < slots, loads.carried index < best.count (some index) →
      best.length / slots ≤ loads.carried index ∧ (loads.carried index = best.length / slots →
        best.length % slots ≤
          ∑ other ∈ Finset.range slots, (loads.carried other - best.length / slots)) := by
    intro index inside fewer
    have spent := keepIndices_full (by simpa using below) result
      (by rwa [Loads.carried_zero, Nat.zero_add])
    rwa [Loads.above_zero, Nat.add_zero, Loads.above_eq_sum, slots_eq] at spent
  calc mostStaying slots best.length fun index => best.count (some index)
    _ ≤ ∑ index ∈ Finset.range slots, loads.carried index := mostStaying_le full
    _ = ∑ index ∈ Finset.range slots, kept.reduceOption.count index :=
      Finset.sum_congr rfl fun index member => carried index (Finset.mem_range.mp member)
    _ = kept.reduceOption.length := sum_count within
    _ ≤ (staying best (balancedIndices slots best)).length := by
      simp only [balancedIndices, result]
      exact (keepIndices_staying result loads).length_le

private theorem nodup_serversAt {lists : List (List String)} {slots index : Nat}
    (equal : ∀ list ∈ lists, list.length = slots) (disjoint : lists.Pairwise List.Disjoint)
    (inside : index < slots) : (serversAt lists index).Nodup := by
  refine List.pairwise_map.mpr (disjoint.imp_of_mem fun {first second} here there apart same => ?_)
  have lower : index < first.length := (equal first here).symm ▸ inside
  have upper : index < second.length := (equal second there).symm ▸ inside
  exact apart (getD_mem lower) (same ▸ getD_mem upper)

/-- How many of the segments match an index best. -/
def matching (lists : List (List String)) (slots : Nat) (prior : Assignment)
    (members : List Member) (index : Nat) : Nat :=
  members.countP fun member => MatchesBest lists slots ((prior.get? member.name).getD {}) index

def kept (lists : List (List String)) (slots : Nat) (prior : Assignment) (members : List Member)
    (indices : List Nat) : Nat :=
  (members.zip indices).countP fun pair =>
    MatchesBest lists slots ((prior.get? pair.1.name).getD {}) pair.2

section members

variable {lists : List (List String)} {slots : Nat} {prior : Assignment} {members : List Member}

/-- The index that each of the segments matches best. -/
def bestIndices (lists : List (List String)) (slots : Nat) (prior : Assignment)
    (members : List Member) : List (Option Nat) :=
  members.map fun member => (prior.get? member.name).bind (bestIndex? lists slots)

theorem bind_bestIndex?_eq_some_iff {name : String} {index : Nat} :
    (prior.get? name).bind (bestIndex? lists slots) = some index ↔
      MatchesBest lists slots ((prior.get? name).getD {}) index := by
  cases prior.get? name with
  | some replicas => exact bestIndex?_eq_some_iff
  | none =>
    have zero : hits lists {} index = 0 := List.countP_eq_zero.mpr fun _ _ => Bool.false_ne_true
    constructor
    · rintro ⟨⟩
    · intro best
      have positive : 0 < hits lists {} index := best.1.2
      omega

private theorem count_bestIndices (index : Nat) :
    (bestIndices lists slots prior members).count (some index) =
      matching lists slots prior members index := by
  rw [List.count, bestIndices, List.countP_map, matching]
  refine List.countP_congr fun member _ => ?_
  simp only [Function.comp_apply, beq_iff_eq, bind_bestIndex?_eq_some_iff, decide_eq_true_eq]

private theorem length_staying_bestIndices (indices : List Nat) :
    (staying (bestIndices lists slots prior members) indices).length =
      kept lists slots prior members indices := by
  rw [staying, List.length_map, ← List.countP_eq_length_filter, bestIndices, List.zip_map_left,
    List.countP_map, kept]
  refine List.countP_congr fun pair _ => ?_
  simp only [Function.comp_apply, Prod.map_fst, Prod.map_snd, id_eq, bind_bestIndex?_eq_some_iff,
    decide_eq_true_eq]

end members

end Aligned

namespace TableConfig
open Aligned

/-- Placement of the segments of one partition across groups that share no server. Every segment is
on the servers of one index, and none of the indices has two segments more than another. As many
segments as possible are kept at the index that they match best: at every index as many as the
average, and one more at as many crowded indices as the remainder says. -/
theorem placePartition_keeps (table : TableConfig) (layout : Layout) (prior : Assignment)
    (partition : Nat) (members : List Member) (valid : layout.validate = .ok ())
    (loose : table.routing.strictReplicaGroup = false) (known : partition < layout.numPartitions)
    (equal : ∀ list ∈ layout.listsOf partition,
      list.length = ((layout.listsOf partition).headD []).length)
    (disjoint : (layout.listsOf partition).Pairwise List.Disjoint) :
    let lists := layout.listsOf partition
    let slots := (lists.headD []).length
    ∃ indices, table.placePartition layout prior partition members =
        .ok ((members.map Member.name).zip (indices.map (serversAt lists))) ∧
      (∀ index ∈ indices, index < slots ∧
        (serversAt lists index).length = layout.numGroups ∧ (serversAt lists index).Nodup) ∧
      Spread slots members.length indices ∧
      kept lists slots prior members indices =
        mostStaying slots members.length (matching lists slots prior members) ∧
      ∀ other, Spread slots members.length other →
        kept lists slots prior members other ≤ kept lists slots prior members indices := by
  intro lists slots
  have sound := Layout.validate_iff.mp valid
  have read := Layout.partitionLists_of_lengths sound known equal
  obtain ⟨_, positive⟩ := Layout.headD_pos_of_partitionLists sound known read
  let best := bestIndices lists slots prior members
  have length : best.length = members.length := List.length_map _
  have below : ∀ index, some index ∈ best → index < slots := by
    intro index chosen
    obtain ⟨member, _, matched⟩ := List.mem_map.mp chosen
    exact (bind_bestIndex?_eq_some_iff.mp matched).1.1
  have spread := spread_balancedIndices positive below
  have most := length_staying_balancedIndices positive below
  simp only [best, count_bestIndices, length_staying_bestIndices] at most
  refine ⟨balancedIndices slots best, ?_, fun index member => ⟨spread.inside index member, ?_, ?_⟩,
    length ▸ spread, ?_, fun other others => ?_⟩
  · refine bind_eq_ok_iff.mpr ⟨lists, read, ?_⟩
    simp only [alignedIndices, loose, Bool.false_eq_true, if_false]
    rfl
  · simp [lists, serversAt, Layout.listsOf]
  · exact nodup_serversAt equal disjoint (spread.inside index member)
  · rw [most, length]
  · have bound := (length.symm ▸ others : Spread slots best.length other).length_staying_le
    simp only [best, count_bestIndices, length_staying_bestIndices] at bound
    rw [most]
    exact bound

def pairedGroups : Layout :=
  { name := "events_OFFLINE", numPartitions := 1, numGroups := 2
    slots := OrderedMap.ofList [("0_0", ["a", "b"]), ("0_1", ["c", "d"])] }

/-- Four segments match the first pair of servers best, one of them with one server, and the last
matches the second pair. -/
def crowdedIndex : Assignment :=
  OrderedMap.ofList
    [("s1", .uniform ["a", "c"] .online), ("s2", .uniform ["a", "c"] .online),
      ("s3", .uniform ["a", "c"] .online), ("s4", .uniform ["a"] .online),
      ("s5", .uniform ["b", "x"] .online)]

def fiveMembers : List Member :=
  ["s1", "s2", "s3", "s4", "s5"].map fun name =>
    { name, partition := 0, consuming := false, home := some (.kind .offline) }

/-- The first index may keep one more than the average of two. -/
theorem placePartition_keeps_four :
    ∃ indices, Balanced.pairedTable.placePartition pairedGroups crowdedIndex 0 fiveMembers =
        .ok ((fiveMembers.map Member.name).zip
          (indices.map (serversAt (pairedGroups.listsOf 0)))) ∧
      kept (pairedGroups.listsOf 0) 2 crowdedIndex fiveMembers indices = 4 ∧
      ∀ other, Spread 2 5 other →
        kept (pairedGroups.listsOf 0) 2 crowdedIndex fiveMembers other ≤ 4 := by
  obtain ⟨indices, placed, _, _, most, bound⟩ := placePartition_keeps Balanced.pairedTable
    pairedGroups crowdedIndex 0 fiveMembers (by decide +kernel) rfl (by decide) (by decide +kernel)
    (by decide +kernel)
  have four : mostStaying 2 5 (matching (pairedGroups.listsOf 0) 2 crowdedIndex fiveMembers) =
      4 := by
    decide +kernel
  have kept_four : kept (pairedGroups.listsOf 0) 2 crowdedIndex fiveMembers indices = 4 :=
    most.trans four
  exact ⟨indices, placed, kept_four, fun other spread => kept_four ▸ bound other spread⟩

end TableConfig

end SegmentPlacement

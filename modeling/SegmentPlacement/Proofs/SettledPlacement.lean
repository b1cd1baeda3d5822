import SegmentPlacement.Proofs.MirroredPlacement
import SegmentPlacement.Proofs.SettledBalance
import Mathlib.Data.List.ReduceOption

/-! Placement by one layout comes to rest. Where no server is in two groups, a
segment matches the index that it was placed at and no other, and indices that
were handed out fairly are all kept. So segments that are where they were placed
stay there when they are placed again. -/

namespace SegmentPlacement

/-- No server is in two groups of a partition. -/
def Layout.GroupsDisjoint (layout : Layout) : Prop :=
  ∀ partition < layout.numPartitions, ∀ first < layout.numGroups, ∀ second < layout.numGroups,
    first ≠ second → ((layout.servers? partition first).getD []).Disjoint
      ((layout.servers? partition second).getD [])

instance decidableDisjoint [DecidableEq α] (first second : List α) :
    Decidable (first.Disjoint second) :=
  decidable_of_iff (∀ item ∈ first, item ∉ second) Iff.rfl

instance Layout.decidableGroupsDisjoint (layout : Layout) : Decidable layout.GroupsDisjoint :=
  inferInstanceAs (Decidable (∀ partition < layout.numPartitions, _))

namespace Aligned

/-- Lists of one length of which each holds servers of its own, each of them once. -/
structure Apart (lists : List (List String)) (slots : Nat) : Prop where
  nonempty : lists ≠ []
  positive : 0 < slots
  lengths : ∀ list ∈ lists, list.length = slots
  distinct : ∀ list ∈ lists, list.Nodup
  apart : ∀ first ∈ lists, ∀ second ∈ lists, ∀ server ∈ first, server ∈ second → first = second

variable {lists : List (List String)} {slots index : Nat}

theorem Apart.hits_pos_iff (apart : Apart lists slots) (inside : index < slots)
    (state : ReplicaState) {other : Nat} (within : other < slots) :
    0 < hits lists (.uniform (serversAt lists index) state) other ↔ other = index := by
  simp only [hits, List.countP_pos_iff, Replicas.contains_uniform, serversAt, List.mem_map]
  constructor
  · rintro ⟨_, ⟨first, here, rfl⟩, second, there, same⟩
    have lower : other < first.length := (apart.lengths first here).symm ▸ within
    have upper : index < second.length := (apart.lengths second there).symm ▸ inside
    obtain rfl := apart.apart first here second there _ (getD_mem lower) (same ▸ getD_mem upper)
    exact getD_inj (apart.distinct first here) lower upper same.symm
  · rintro rfl
    obtain ⟨list, member⟩ := List.exists_mem_of_ne_nil lists apart.nonempty
    exact ⟨_, ⟨list, member, rfl⟩, list, member, rfl⟩

theorem Apart.bestIndex?_serversAt (apart : Apart lists slots) (inside : index < slots)
    (state : ReplicaState) :
    bestIndex? lists slots (.uniform (serversAt lists index) state) = some index := by
  have matching : ∀ other, other ∈ (List.range slots).filter (fun other =>
      0 < hits lists (.uniform (serversAt lists index) state) other) ↔ other = index := by
    intro other
    rw [List.mem_filter, List.mem_range]
    constructor
    · intro ⟨within, hit⟩
      exact (apart.hits_pos_iff inside state within).mp (by simpa using hit)
    · rintro rfl
      exact ⟨inside, by simpa using (apart.hits_pos_iff inside state inside).mpr rfl⟩
  cases best : bestIndex? lists slots (.uniform (serversAt lists index) state) with
  | none =>
    have member := (matching index).mpr rfl
    rw [greatestOf_eq_none_iff.mp best] at member
    cases member
  | some other => exact congrArg some ((matching other).mp (greatestOf_spec best).1)

theorem keepIndices_kept {share : Share} {loads after : Loads} {best kept : List (Option Nat)}
    (result : keepIndices share loads best = (kept, after)) :
    after = loads.addAll kept.reduceOption ∧
      ∃ left, share.keepAll? loads kept.reduceOption = some left := by
  induction best generalizing share loads kept after with
  | nil =>
    cases result
    exact ⟨rfl, share, rfl⟩
  | cons first rest ih =>
    cases first with
    | none =>
      rcases later : keepIndices share loads rest with ⟨others, final⟩
      simp only [keepIndices, later, Prod.mk.injEq] at result
      obtain ⟨rfl, rfl⟩ := result
      rw [List.reduceOption_cons_of_none]
      exact ih later
    | some index =>
      cases allowed : share.keep? (loads.carried index) with
      | none =>
        rcases later : keepIndices share loads rest with ⟨others, final⟩
        simp only [keepIndices, allowed, later, Prod.mk.injEq] at result
        obtain ⟨rfl, rfl⟩ := result
        rw [List.reduceOption_cons_of_none]
        exact ih later
      | some left =>
        rcases later : keepIndices left (loads.add index) rest with ⟨others, final⟩
        simp only [keepIndices, allowed, later, Prod.mk.injEq] at result
        obtain ⟨rfl, rfl⟩ := result
        obtain ⟨same, last, kept⟩ := ih later
        rw [List.reduceOption_cons_of_some]
        exact ⟨same, last, by simp only [Share.keepAll?, allowed, Option.bind_some, kept]⟩

private theorem keepIndices_of_keepAll? {share left : Share} {loads : Loads} {indices : List Nat}
    (kept : share.keepAll? loads indices = some left) :
    (keepIndices share loads (indices.map some)).1 = indices.map some := by
  induction indices generalizing share loads with
  | nil => rfl
  | cons index rest ih =>
    obtain ⟨middle, allowed, later⟩ := Option.bind_eq_some_iff.mp kept
    simp only [List.map_cons, keepIndices, allowed, ih later]

private theorem fillIndices_map_some (loads : Loads) (indices : List Nat) :
    fillIndices loads (indices.map some) = indices := by
  induction indices with
  | nil => rfl
  | cons index rest ih => exact congrArg (index :: ·) ih

private theorem fillIndices_allows {count : Nat} {loads : Loads} {kept : List (Option Nat)}
    (positive : 0 < loads.length)
    (missing : total loads + kept.countP Option.isNone = count)
    (allows : (Share.divide count loads.length).Allows loads) :
    ∃ added, (fillIndices loads kept).Perm (kept.reduceOption ++ added) ∧
      (Share.divide count loads.length).Allows (loads.addAll added) := by
  induction kept generalizing loads with
  | nil => exact ⟨[], .refl _, allows⟩
  | cons first rest ih =>
    cases first with
    | some index =>
      obtain ⟨added, filled, allowed⟩ := ih positive (by simpa using missing) allows
      exact ⟨added, filled.cons index, allowed⟩
    | none =>
      obtain ⟨index, least⟩ := Option.isSome_iff_exists.mp (loads.least?_isSome [] positive)
      obtain ⟨⟨inside, _⟩, lowest⟩ := Loads.least?_eq_some_iff.mp least
      rw [List.countP_cons_of_pos rfl] at missing
      have grown := allows.add inside (by omega) fun other within => by
        have order := lowest other within List.not_mem_nil
        omega
      have length : (loads.add index).length = loads.length := Loads.length_add ..
      have left : total (loads.add index) + rest.countP Option.isNone = count := by
        rw [Loads.total_add inside]
        omega
      obtain ⟨added, filled, allowed⟩ := ih (length.symm ▸ positive) left (length.symm ▸ grown)
      rw [length] at allowed
      refine ⟨index :: added, ?_, allowed⟩
      simp only [fillIndices, least, Option.getD_some, List.reduceOption_cons_of_none]
      exact (filled.cons index).trans List.perm_middle.symm

theorem balancedIndices_of_allows {indices : List Nat} (inside : ∀ index ∈ indices, index < slots)
    (allows : (Share.divide indices.length slots).Allows ((Loads.zero slots).addAll indices)) :
    balancedIndices slots (indices.map some) = indices := by
  obtain ⟨left, kept⟩ := allows.keepAll?_isSome inside
  have all := keepIndices_of_keepAll? kept
  rw [balancedIndices, List.length_map]
  simp only [all, fillIndices_map_some]

theorem balancedIndices_allows {best : List (Option Nat)} (positive : 0 < slots)
    (below : ∀ index, some index ∈ best → index < slots) :
    (Share.divide best.length slots).Allows
      ((Loads.zero slots).addAll (balancedIndices slots best)) := by
  rcases result : keepIndices (Share.divide best.length slots) (Loads.zero slots) best with
    ⟨kept, loads⟩
  obtain ⟨kept_length, same, part⟩ := keepIndices_spec result
  obtain ⟨rfl, left, all⟩ := keepIndices_kept result
  rw [Loads.length_zero] at same
  have within : ∀ index ∈ kept.reduceOption, index < (Loads.zero slots).length := by
    intro index member
    rw [Loads.length_zero]
    exact below index (part index (List.reduceOption_mem_iff.mp member))
  have begun := Share.allows_of_keepAll? (fun position => by simp) within all
  rw [Loads.above_zero, Nat.add_zero] at begun
  have missing : total ((Loads.zero slots).addAll kept.reduceOption) +
      kept.countP Option.isNone = best.length := by
    rw [Loads.total_addAll _ within, Loads.total_zero, Nat.zero_add, List.countP_eq_length_filter,
      ← kept_length]
    exact (List.length_eq_reduceOption_length_add_filter_none ..).symm
  obtain ⟨added, filled, allows⟩ := fillIndices_allows (same.symm ▸ positive) missing
    (same.symm ▸ begun)
  rw [same, ← Loads.addAll_append, ← Loads.addAll_perm filled] at allows
  simp only [balancedIndices, result]
  exact allows

/-- Indices that were balanced are balanced. -/
theorem balancedIndices_again {best : List (Option Nat)} (positive : 0 < slots)
    (below : ∀ index, some index ∈ best → index < slots) :
    balancedIndices slots ((balancedIndices slots best).map some) = balancedIndices slots best := by
  obtain ⟨length, inside⟩ := balancedIndices_spec positive below
  refine balancedIndices_of_allows inside ?_
  rw [length]
  exact balancedIndices_allows positive below

end Aligned

namespace Layout

variable {layout : Layout} {partition : Nat} {lists : List (List String)}

theorem partitionLists_eq_ok (read : layout.partitionLists partition = .ok lists) :
    lists = layout.listsOf partition ∧ ∀ list ∈ lists, list.length = (lists.headD []).length := by
  obtain ⟨found, steps, checked⟩ := bind_eq_ok_iff.mp read
  simp only at checked
  split at checked
  · rename_i equal
    cases checked
    refine ⟨?_, fun list member => by simpa using List.all_eq_true.mp equal list member⟩
    have named : List.Forall₂ (fun group servers =>
        (layout.servers? partition group).getD [] = servers) (List.range layout.numGroups) lists :=
      forall₂_of_mapM steps fun group _ servers found => by
        split at found <;> cases found
        rename_i held
        rw [held, Option.getD_some]
    have same := List.forall₂_map_left_iff.mpr named
    rw [List.forall₂_eq_eq_eq] at same
    exact same.symm
  · cases checked

theorem mem_listsOf (valid : layout.Valid) (known : partition < layout.numPartitions)
    {list : List String} (member : list ∈ layout.listsOf partition) :
    ∃ group < layout.numGroups, layout.servers? partition group = some list ∧ list ≠ [] := by
  obtain ⟨group, inside, rfl⟩ := List.mem_map.mp member
  rw [List.mem_range] at inside
  obtain ⟨servers, found, some⟩ := valid.filled partition known group inside
  exact ⟨group, inside, by rw [found, Option.getD_some], by rwa [found]⟩

theorem headD_pos_of_partitionLists (valid : layout.Valid)
    (known : partition < layout.numPartitions)
    (read : layout.partitionLists partition = .ok lists) :
    lists ≠ [] ∧ 0 < (lists.headD []).length := by
  obtain ⟨rfl, equal⟩ := partitionLists_eq_ok read
  have nonempty : layout.listsOf partition ≠ [] := by simp [listsOf, valid.groups.ne']
  obtain ⟨list, member⟩ := List.exists_mem_of_ne_nil _ nonempty
  obtain ⟨_, _, _, some⟩ := mem_listsOf valid known member
  exact ⟨nonempty, equal list member ▸ List.length_pos_iff.mpr some⟩

theorem apart_of_groupsDisjoint (valid : layout.Valid) (disjoint : layout.GroupsDisjoint)
    (known : partition < layout.numPartitions)
    (read : layout.partitionLists partition = .ok lists) :
    Aligned.Apart lists (lists.headD []).length := by
  obtain ⟨nonempty, positive⟩ := headD_pos_of_partitionLists valid known read
  obtain ⟨rfl, equal⟩ := partitionLists_eq_ok read
  refine ⟨nonempty, positive, equal, ?_, ?_⟩
  · intro list member
    obtain ⟨_, _, found, _⟩ := mem_listsOf valid known member
    exact valid.distinct _ _ found
  · intro first here second there server inside within
    obtain ⟨one, below, found, _⟩ := mem_listsOf valid known here
    obtain ⟨other, under, held, _⟩ := mem_listsOf valid known there
    by_cases same : one = other
    · subst same
      exact Option.some.inj (found.symm.trans held)
    · have never := disjoint partition known one below other under same
      rw [found, held] at never
      exact absurd within (never inside)

end Layout

namespace TableConfig
open Aligned SegmentPlacement.Balanced

variable {table : TableConfig} {layout : Layout} {prior after : Assignment}
  {members : List Member} {placed : List (String × List String)}

theorem checkReplication_eq_ok_iff {available : Nat} :
    table.checkReplication available = .ok () ↔ table.replication ≤ available := by
  unfold checkReplication
  split <;> simp <;> omega

private theorem placePartition_again (valid : layout.Valid) (disjoint : layout.GroupsDisjoint)
    {partition : Nat} (known : partition < layout.numPartitions)
    (done : table.placePartition layout prior partition members = .ok placed)
    (settled : ∀ entry ∈ placed, ∃ state, after.get? entry.1 = some (.uniform entry.2 state)) :
    table.placePartition layout after partition members = .ok placed := by
  obtain ⟨lists, read, same⟩ := bind_eq_ok_iff.mp done
  cases same
  have apart := Layout.apart_of_groupsDisjoint valid disjoint known read
  obtain ⟨length, below⟩ := table.alignedIndices_spec layout apart.positive members prior
  refine bind_eq_ok_iff.mpr ⟨lists, read, ?_⟩
  suffices again : table.alignedIndices layout lists members after =
      table.alignedIndices layout lists members prior by
    rw [again]
    rfl
  have best : members.map (fun member =>
        (after.get? member.name).bind (bestIndex? lists (lists.headD []).length)) =
      (table.alignedIndices layout lists members prior).map some := by
    refine List.ext_getElem (by simp [length]) fun position here there => ?_
    rw [List.length_map] at here there
    have inside := below _ (List.getElem_mem there)
    obtain ⟨state, found⟩ := settled (members[position].name, serversAt lists
        (table.alignedIndices layout lists members prior)[position])
      (List.mem_iff_getElem.mpr ⟨position, by simp [here, there], by simp⟩)
    rw [List.getElem_map, List.getElem_map, found, Option.bind_some,
      apart.bestIndex?_serversAt inside]
  unfold alignedIndices at best ⊢
  by_cases strict : table.routing.strictReplicaGroup
  · simp only [if_pos strict]
  · simp only [if_neg strict] at best ⊢
    rw [best]
    refine balancedIndices_again apart.positive fun index chosen => ?_
    obtain ⟨member, _, matched⟩ := List.mem_map.mp chosen
    obtain ⟨_, _, found⟩ := Option.bind_eq_some_iff.mp matched
    exact bestIndex?_lt found

private theorem placePartition_spec (valid : layout.Valid) {partition : Nat}
    (known : partition < layout.numPartitions)
    (done : table.placePartition layout prior partition members = .ok placed) :
    placed.map Prod.fst = members.map Member.name ∧ ∀ entry ∈ placed, entry.2 ≠ [] := by
  obtain ⟨lists, read, same⟩ := bind_eq_ok_iff.mp done
  cases same
  obtain ⟨nonempty, positive⟩ := Layout.headD_pos_of_partitionLists valid known read
  obtain ⟨length, _⟩ := table.alignedIndices_spec layout positive members prior
  refine ⟨List.map_fst_zip (by simp only [List.length_map, length, Nat.le_refl]), ?_⟩
  intro entry member
  obtain ⟨index, _, same⟩ := List.mem_map.mp (List.of_mem_zip member).2
  simpa [← same, serversAt] using nonempty

theorem placePartitions_spec (valid : layout.Valid) {parts : List (List (String × List String))}
    (steps : (OrderedMap.ofKeys
        (members.map fun member => member.partition % layout.numPartitions)).keys.mapM
      (fun partition => table.placePartition layout prior partition
        (members.filter fun member => member.partition % layout.numPartitions = partition)) =
      .ok parts) :
    (parts.flatten.map Prod.fst).Perm (members.map Member.name) ∧
      ∀ entry ∈ parts.flatten, entry.2 ≠ [] := by
  let partitionOf (member : Member) : Nat := member.partition % layout.numPartitions
  let partitions := (OrderedMap.ofKeys (members.map partitionOf)).keys
  have spec : ∀ partition ∈ partitions, ∀ part, table.placePartition layout prior partition
        (members.filter fun member => partitionOf member = partition) = .ok part →
      (members.filter fun member => partitionOf member = partition).map Member.name =
        part.map Prod.fst ∧ ∀ entry ∈ part, entry.2 ≠ [] := by
    intro partition listed part here
    obtain ⟨resident, _, rfl⟩ := mem_partitions.mp listed
    obtain ⟨names, some⟩ :=
      placePartition_spec valid (Nat.mod_lt resident.partition valid.partitions) here
    exact ⟨names.symm, some⟩
  constructor
  · have each := forall₂_of_mapM steps fun partition listed part here =>
      (spec partition listed part here).1
    have names := List.forall₂_map_left_iff.mpr (List.forall₂_map_right_iff.mpr each)
    rw [List.forall₂_eq_eq_eq] at names
    have distinct : partitions.Nodup := OrderedMap.nodup_keys _
    have sorted := perm_flatten_filter partitionOf distinct fun member listed =>
      mem_partitions.mpr ⟨member, listed, rfl⟩
    have named := sorted.map Member.name
    rw [List.map_flatten, List.map_map] at named
    rwa [List.map_flatten, ← names]
  · intro entry member
    obtain ⟨part, listed, inside⟩ := List.mem_flatten.mp member
    obtain ⟨partition, known, here⟩ := exists_of_mem_mapM steps listed
    exact (spec partition known part here).2 entry inside

/-- Placement by a layout places every segment once, and on some server if it is replicated. -/
theorem placeMembers_spec (done : table.placeMembers layout prior members = .ok placed) :
    (placed.map Prod.fst).Perm (members.map Member.name) ∧
      (0 < table.replication → ∀ entry ∈ placed, entry.2 ≠ []) := by
  obtain ⟨_, checked, done⟩ := bind_eq_ok_iff.mp done
  split at done
  · obtain ⟨_, enough, same⟩ := bind_eq_ok_iff.mp done
    cases same
    obtain ⟨last, balanced, _, same⟩ := place_spec (members.map Member.name) prior
      (checkReplication_eq_ok_iff.mp enough)
    rw [same]
    refine ⟨?_, fun replicated entry member => ?_⟩
    · rw [balanced.names_named]
    · obtain ⟨kept, taken, servers⟩ := mem_named member
      have length := balanced.full kept taken
      rw [servers, ← List.length_pos_iff, length_namesAt, length]
      exact replicated
  · obtain ⟨parts, steps, same⟩ := bind_eq_ok_iff.mp done
    cases same
    obtain ⟨names, some⟩ := placePartitions_spec (Layout.validate_iff.mp checked) steps
    exact ⟨names, fun _ => some⟩

/-- Segments that are where a layout placed them stay on their servers when they are placed by it
again. -/
theorem placeMembers_again (disjoint : layout.GroupsDisjoint)
    (done : table.placeMembers layout prior members = .ok placed)
    (settled : ∀ entry ∈ placed, ∃ state, after.get? entry.1 = some (.uniform entry.2 state)) :
    ∃ again, table.placeMembers layout after members = .ok again ∧
      List.Forall₂ SameServers placed again := by
  obtain ⟨_, checked, done⟩ := bind_eq_ok_iff.mp done
  have valid := Layout.validate_iff.mp checked
  simp only [placeMembers, checked]
  split at done
  · rename_i flat
    obtain ⟨_, enough, same⟩ := bind_eq_ok_iff.mp done
    cases same
    rw [if_pos flat]
    have distinct : ((layout.servers? 0 0).getD []).Nodup := by
      obtain ⟨servers, found, _⟩ := valid.filled 0 valid.partitions 0 valid.groups
      rw [found]
      exact valid.distinct _ _ found
    have room := checkReplication_eq_ok_iff.mp enough
    refine ⟨_, bind_eq_ok_iff.mpr ⟨(), rfl, bind_eq_ok_iff.mpr ⟨(), enough, rfl⟩⟩, ?_⟩
    exact place_again distinct room settled
  · rename_i spread
    rw [if_neg spread]
    obtain ⟨parts, steps, same⟩ := bind_eq_ok_iff.mp done
    cases same
    have again : ∃ others, List.mapM (fun partition =>
        table.placePartition layout after partition (members.filter fun member =>
          member.partition % layout.numPartitions = partition)) _ = Except.ok others ∧
        List.Forall₂ Eq parts others := mapM_related steps fun partition listed value member here => by
      obtain ⟨resident, _, rfl⟩ := mem_partitions.mp listed
      have known := Nat.mod_lt resident.partition valid.partitions
      exact ⟨value, placePartition_again valid disjoint known here fun entry inside =>
        settled entry (List.mem_flatten.mpr ⟨value, member, inside⟩), rfl⟩
    obtain ⟨others, again, same⟩ := again
    rw [List.forall₂_eq_eq_eq] at same
    subst same
    refine ⟨parts.flatten, bind_eq_ok_iff.mpr ⟨(), rfl, bind_eq_ok_iff.mpr ⟨parts, again, rfl⟩⟩, ?_⟩
    exact List.forall₂_same.mpr fun entry _ => ⟨rfl, .refl _⟩

end TableConfig

end SegmentPlacement

import SegmentPlacement.Proofs.ComputedLayout

/-! Computing a layout once more, with itself as the layout to keep. A flat layout
comes out as it is. A grouped one does exactly if the servers that have more slots
of their group than they may keep return to the same slots. -/

namespace SegmentPlacement.Layout

private theorem flatServers_again (pool : List String) (kept : Option (List String)) :
    flatServers pool (some (flatServers pool kept)) = flatServers pool kept := by
  have all : (flatServers pool kept).filter pool.contains = flatServers pool kept :=
    List.filter_eq_self.mpr fun server member => List.contains_iff_mem.mpr (mem_flatServers.mp member)
  have rest : (pool.filter fun server => ¬ (flatServers pool kept).contains server) = [] := by
    refine List.filter_eq_nil_iff.mpr fun server member => ?_
    simpa using mem_flatServers.mpr member
  generalize flatServers pool kept = servers at all rest
  simp only [flatServers, all, rest, List.append_nil]

private theorem compute_flat_again {name : String} {pool : List String} {settings : GroupSettings}
    {prior first : Layout} (flat : ¬ settings.groupBased)
    (done : compute name pool settings (some prior) true = .ok first) :
    compute name pool settings (some first) true = .ok first := by
  obtain ⟨some, filled⟩ := (compute_flat_eq_ok_iff flat).mp done
  refine (compute_flat_eq_ok_iff flat).mpr ⟨some, ?_⟩
  simp only [if_true, Option.bind_some] at filled ⊢
  rw [servers?_single filled, flatServers_again, filled]

/-- In every group the servers past their share return to their slots. -/
def Settles (layout : Layout) (name : String) (pool : List String) (settings : GroupSettings) :
    Prop :=
  ∀ size perPartition, groupSize name pool settings = .ok size →
    slotSize name size settings = .ok perPartition →
    ∀ (group : Nat) members,
      (groups pool settings.numGroups size (some layout))[group]? = some members →
        Settled size (slotShare members settings.numPartitions perPartition)
          (positionsIn members (layout.formerSlots settings.numPartitions group))

theorem mem_formerSlots {layout : Layout} {numPartitions group : Nat} {slot : List String}
    (member : slot ∈ layout.formerSlots numPartitions group) : slot ⊆ layout.groupMembers group := by
  obtain ⟨partition, _, rfl⟩ := List.mem_map.mp member
  split
  · rename_i inside
    exact fun server here => mem_groupMembers.mpr ⟨partition, inside.2, here⟩
  · exact List.nil_subset _

section grouped

variable {name : String} {pool : List String} {settings : GroupSettings} {prior first : Layout}
  {size perPartition : Nat}

theorem formerSlots_computed (distinct : pool.Nodup)
    (sized : groupSize name pool settings = .ok size)
    (filled : fillGroups ⟨name, settings.numPartitions, settings.numGroups, {}⟩
      (groupSlots pool settings size perPartition (some prior)) = .ok first) {group : Nat}
    {members : List String}
    (listed : (groups pool settings.numGroups size (some prior))[group]? = some members) :
    first.formerSlots settings.numPartitions group =
      steadySlots members settings.numPartitions perPartition prior group := by
  have known := (List.getElem?_eq_some_iff.mp listed).1
  rw [(groups_spec distinct sized (some prior)).1] at known
  exact formerSlots_of_fillGroups filled (getElem?_groupSlots listed) known (length_steadySlots ..)

theorem formerSlots_sound (distinct : pool.Nodup)
    (sized : groupSize name pool settings = .ok size) (fits : perPartition ≤ size)
    (filled : fillGroups ⟨name, settings.numPartitions, settings.numGroups, {}⟩
      (groupSlots pool settings size perPartition (some prior)) = .ok first) {group : Nat}
    {now : List String}
    (listed : (groups pool settings.numGroups size (some first))[group]? = some now) :
    ∀ slot ∈ first.formerSlots settings.numPartitions group,
      slot.Nodup ∧ slot ⊆ now ∧ slot.length = perPartition := by
  obtain ⟨shape, _⟩ := fillGroups_spec filled
  obtain ⟨count, sound⟩ := groups_spec distinct sized (some prior)
  have filledBy : ∀ (group : Nat) members,
      (groups pool settings.numGroups size (some prior))[group]? = some members →
      ∀ slot ∈ first.formerSlots settings.numPartitions group,
        slot.Nodup ∧ slot ⊆ members ∧ slot.length = perPartition := by
    intro group members listed slot member
    obtain ⟨apart, length, _⟩ := sound members (List.mem_of_getElem? listed)
    rw [formerSlots_computed distinct sized filled listed] at member
    exact mem_steadySlots apart (length ▸ fits) member
  have known := (List.getElem?_eq_some_iff.mp listed).1
  rw [(groups_spec distinct sized (some first)).1] at known
  have within : ∀ (group : Nat) members,
      (groups pool settings.numGroups size (some prior))[group]? = some members →
        first.groupMembers group ⊆ members := by
    intro group members listed server member
    have below := (List.getElem?_eq_some_iff.mp listed).1
    obtain ⟨partition, inside, here⟩ := mem_groupMembers.mp member
    refine (filledBy group members listed _ (List.mem_map.mpr ⟨partition, ?_, rfl⟩)).2.1 ?_
    · exact List.mem_range.mpr (Nat.lt_of_lt_of_eq inside shape.partitions)
    · rwa [if_pos ⟨by rw [shape.groups]; exact count ▸ below, inside⟩]
  intro slot member
  have before := List.getElem?_eq_getElem (count.symm ▸ known)
  obtain ⟨apart, _, length⟩ := filledBy group _ before slot member
  have kept := groups_keep distinct within listed (by rw [shape.groups]; exact known)
  exact ⟨apart, fun server here => kept (mem_formerSlots member here), length⟩

theorem groupSlots_again_iff (distinct : pool.Nodup)
    (sized : groupSize name pool settings = .ok size) (fits : perPartition ≤ size)
    (filled : fillGroups ⟨name, settings.numPartitions, settings.numGroups, {}⟩
      (groupSlots pool settings size perPartition (some prior)) = .ok first) :
    fillGroups ⟨name, settings.numPartitions, settings.numGroups, {}⟩
        (groupSlots pool settings size perPartition (some first)) = .ok first ↔
      ∀ (group : Nat) members,
        (groups pool settings.numGroups size (some first))[group]? = some members →
          Settled size (slotShare members settings.numPartitions perPartition)
            (positionsIn members (first.formerSlots settings.numPartitions group)) := by
  obtain ⟨count, sound⟩ := groups_spec distinct sized (some first)
  have settled : ∀ (group : Nat) members,
      (groups pool settings.numGroups size (some first))[group]? = some members →
      (steadySlots members settings.numPartitions perPartition first group =
          first.formerSlots settings.numPartitions group ↔
        Settled size (slotShare members settings.numPartitions perPartition)
          (positionsIn members (first.formerSlots settings.numPartitions group))) := by
    intro group members listed
    obtain ⟨apart, length, _⟩ := sound members (List.mem_of_getElem? listed)
    have same := steadySlots_eq_iff apart (length ▸ fits)
      (formerSlots_sound distinct sized fits filled listed)
    rwa [length] at same
  constructor
  · intro again group members listed
    exact (settled group members listed).mp (formerSlots_computed distinct sized again listed).symm
  · intro settles
    have same : groupSlots pool settings size perPartition (some first) =
        groupSlots pool settings size perPartition (some prior) := by
      have before := (groups_spec distinct sized (some prior)).1
      refine List.ext_getElem (by simp [groupSlots, count, before]) fun group here there => ?_
      simp only [groupSlots, List.length_map, List.length_zipIdx] at here there
      have now := List.getElem?_eq_getElem here
      have former := List.getElem?_eq_getElem there
      have fresh := (settled group _ now).mpr (settles group _ now)
      rw [formerSlots_computed distinct sized filled former] at fresh
      simp only [groupSlots, List.getElem_map, List.getElem_zipIdx, Nat.zero_add, slotsOf]
      exact fresh
    rw [same, filled]

end grouped

/-- A layout that was computed from a layout to keep is computed again from itself exactly if it
settles. -/
theorem compute_again_iff {name : String} {pool : List String} {settings : GroupSettings}
    {prior first : Layout} (distinct : pool.Nodup)
    (done : compute name pool settings (some prior) true = .ok first) :
    compute name pool settings (some first) true = .ok first ↔
      (settings.groupBased → first.Settles name pool settings) := by
  by_cases grouped : settings.groupBased
  · obtain ⟨counts, size, perPartition, sized, slotted, filled⟩ :=
      (compute_grouped_eq_ok_iff grouped).mp done
    simp only [if_true] at slotted filled
    rw [headD_groups_length distinct sized counts.2.1] at slotted
    have again := groupSlots_again_iff distinct sized (slotSize_le slotted) filled
    rw [compute_grouped_eq_ok_iff grouped]
    simp only [if_true, grouped, true_imp_iff]
    constructor
    · rintro ⟨_, other, others, otherSized, otherSlotted, refilled⟩
      rw [headD_groups_length distinct otherSized counts.2.1] at otherSlotted
      cases sized.symm.trans otherSized
      cases slotted.symm.trans otherSlotted
      intro accepted share acceptedSize acceptedShare
      cases sized.symm.trans acceptedSize
      cases slotted.symm.trans acceptedShare
      exact again.mp refilled
    · intro settles
      refine ⟨counts, size, perPartition, sized, ?_, again.mpr (settles _ _ sized slotted)⟩
      rw [headD_groups_length distinct sized counts.2.1, slotted]
  · exact iff_of_true (compute_flat_again grouped done) fun based => absurd based grouped

/-- Three servers in one group, and two of them in each of three slots. -/
def pairsOfThree : GroupSettings :=
  { groupBased := true, numGroups := 1, serversPerGroup := 3, numPartitions := 3
    serversPerPartition := 2 }

def pairsLayout (slots : List (List String)) : Layout :=
  ⟨"t", 3, 1, OrderedMap.ofList (["0_0", "1_0", "2_0"].zip slots)⟩

private theorem compute_pairs : compute "t" ["a", "b", "c"] pairsOfThree
    (some (pairsLayout [["a", "x"], ["b", "c"], ["b", "c"]])) true =
      .ok (pairsLayout [["a", "b"], ["b", "c"], ["b", "c"]]) := by cbv

private theorem compute_pairs_again : compute "t" ["a", "b", "c"] pairsOfThree
    (some (pairsLayout [["a", "b"], ["b", "c"], ["b", "c"]])) true =
      .ok (pairsLayout [["a", "b"], ["b", "c"], ["c", "a"]]) := by cbv

/-- The first slot has only `b` to fill up with, although that takes `b` past its share, and `b`
does not return to the last slot. -/
theorem pairsLayout_unsettled :
    ¬ (pairsLayout [["a", "b"], ["b", "c"], ["b", "c"]]).Settles "t" ["a", "b", "c"]
      pairsOfThree := by
  intro settles
  have again := (compute_again_iff (by decide) compute_pairs).mpr fun _ => settles
  rw [compute_pairs_again] at again
  exact absurd again (by decide +kernel)

/-- So a second computation may move servers, even of a layout that was computed from a valid one
for a sorted pool. -/
theorem compute_again_moves :
    ¬ ∀ (name : String) (pool : List String) (settings : GroupSettings) (prior first : Layout),
      pool.Nodup → pool.Pairwise (· ≤ ·) → prior.validate = .ok () →
      compute name pool settings (some prior) true = .ok first →
      compute name pool settings (some first) true = .ok first := by
  intro stable
  have again := stable _ _ _ _ _ (by decide) (by decide) (by decide +kernel) compute_pairs
  rw [compute_pairs_again] at again
  exact absurd again (by decide +kernel)

end SegmentPlacement.Layout

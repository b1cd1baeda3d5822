import SegmentPlacement.Proofs.BalancedPlacement
import SegmentPlacement.Proofs.FairShares
import SegmentPlacement.Proofs.SteadySlots

/-! When the slots of a group give no member more than its share. Keeping slots never
exceeds it, but filling them up takes the least loaded members that are left, and these
may all have their share already. -/

namespace SegmentPlacement

namespace Loads

variable {loads : Loads} {share size missing position : Nat} {taken : List Nat}
  {lists : List (List Nat)}

def Within (share : Nat) (loads : Loads) : Prop :=
  ∀ position < loads.length, loads.carried position ≤ share

/-- The positions below the share that are not taken. -/
def vacant (share : Nat) (loads : Loads) (taken : List Nat) : List Nat :=
  loads.positions.filter fun position => position ∉ taken ∧ loads.carried position < share

theorem mem_vacant : position ∈ loads.vacant share taken ↔
    position < loads.length ∧ position ∉ taken ∧ loads.carried position < share := by
  simp only [vacant, List.mem_filter, mem_positions, decide_eq_true_eq]

private theorem Within.of_addAll {added : List Nat} (within : Within share (loads.addAll added)) :
    Within share loads := fun position inside =>
  Nat.le_trans (carried_le_addAll loads added position) (within position (by simpa using inside))

theorem Within.add (within : Within share loads) (inside : position < loads.length)
    (light : loads.carried position < share) : Within share (loads.add position) := by
  intro other below
  rw [length_add] at below
  rw [carried_add inside]
  split <;> rename_i same
  · exact same ▸ light
  · exact within other below

private theorem vacant_add (inside : position < loads.length) :
    (loads.add position).vacant share (taken ++ [position]) =
      (loads.vacant share taken).erase position := by
  have distinct : (loads.vacant share taken).Nodup := List.nodup_range.filter _
  rw [distinct.erase_eq_filter, vacant, vacant, positions, length_add, List.filter_filter]
  refine List.filter_congr fun other _ => ?_
  rw [carried_add inside, Bool.eq_iff_iff]
  by_cases same : position = other
  · subst same
    simp
  · simp [same, Ne.symm same]

theorem fill_within_share_iff (within : Within share loads)
    (room : taken.length + missing ≤ loads.length) :
    Within share (fill missing loads taken).2 ↔
      missing ≤ (loads.vacant share taken).length := by
  induction missing generalizing loads taken with
  | zero => exact iff_of_true within (Nat.zero_le _)
  | succ missing ih =>
    obtain ⟨position, found⟩ := Option.isSome_iff_exists.mp (least?_isSome loads taken (by omega))
    obtain ⟨⟨inside, free⟩, least⟩ := least?_eq_some_iff.mp found
    simp only [fill, found]
    by_cases light : loads.carried position < share
    · have member := mem_vacant.mpr ⟨inside, free, light⟩
      have some := List.length_pos_of_mem member
      rw [ih (within.add inside light) (by rw [List.length_append, length_add]; simp; omega),
        vacant_add inside, List.length_erase_of_mem member]
      omega
    · -- The least loaded position has its share, so all that are left have theirs.
      have none : loads.vacant share taken = [] := by
        refine List.eq_nil_iff_forall_not_mem.mpr fun other member => ?_
        obtain ⟨below, untaken, lighter⟩ := mem_vacant.mp member
        have first := least other below untaken
        omega
      rw [none]
      refine iff_of_false (fun all => ?_) (Nat.not_succ_le_zero missing)
      obtain ⟨added, filled, _⟩ := fill_spec missing (loads.add position) (taken ++ [position])
      rw [filled] at all
      have heavy := all.of_addAll position (by rwa [length_add])
      rw [carried_add inside, if_pos rfl] at heavy
      omega

private theorem fillAll_eq_addAll (size : Nat) (loads : Loads) (lists : List (List Nat)) :
    ∃ added, (fillAll size loads lists).2 = loads.addAll added := by
  induction lists generalizing loads with
  | nil => exact ⟨[], rfl⟩
  | cons taken rest ih =>
    obtain ⟨first, filled, _⟩ := fill_spec (size - taken.length) loads taken
    obtain ⟨later, same⟩ := ih (loads.addAll first)
    exact ⟨first ++ later, by simp only [fillAll, filled, same, addAll_append]⟩

/-- When its turn comes, every list finds enough vacant positions to fill up with. -/
def FindsRoom (share size : Nat) (loads : Loads) (lists : List (List Nat)) : Prop :=
  ∀ before taken rest, lists = before ++ taken :: rest →
    size ≤ taken.length + ((fillAll size loads before).2.vacant share taken).length

/-- Filling up lists stays within the share if every one of them finds room. -/
theorem fillAll_within_share_iff (within : Within share loads) (room : size ≤ loads.length)
    (fits : ∀ taken ∈ lists, taken.length ≤ size) :
    Within share (fillAll size loads lists).2 ↔ FindsRoom share size loads lists := by
  induction lists generalizing loads with
  | nil => exact iff_of_true within fun before taken rest same => by simp at same
  | cons taken rest ih =>
    obtain ⟨here, later⟩ := List.forall_mem_cons.mp fits
    obtain ⟨added, filled, _⟩ := fill_spec (size - taken.length) loads taken
    have first : Within share (fill (size - taken.length) loads taken).2 ↔ _ :=
      fill_within_share_iff within (by omega)
    rw [filled] at first
    have others (within : Within share (loads.addAll added)) :=
      ih within (by rwa [length_addAll]) later
    simp only [fillAll, filled]
    constructor
    · intro all
      obtain ⟨more, same⟩ := fillAll_eq_addAll size (loads.addAll added) rest
      have next : Within share (loads.addAll added) := (same ▸ all).of_addAll
      intro before other after split
      cases before with
      | nil =>
        obtain ⟨rfl, rfl⟩ := List.cons.inj split
        have enough := first.mp next
        simp only [fillAll]
        omega
      | cons head tail =>
        obtain ⟨rfl, remaining⟩ := List.cons.inj split
        simpa only [fillAll, filled] using (others next).mp all tail other after remaining
    · intro finds
      have enough := finds [] taken rest rfl
      refine (others (first.mpr ?_)).mpr fun before other after split => ?_
      · simp only [fillAll] at enough
        omega
      · simpa only [fillAll, filled] using
          finds (taken :: before) other after (congrArg (taken :: ·) split)

theorem total_fillAll (room : size ≤ loads.length) (fits : ∀ taken ∈ lists, taken.length ≤ size) :
    total (fillAll size loads lists).2 + lists.flatten.length =
      total loads + lists.length * size := by
  induction lists generalizing loads with
  | nil => simp [fillAll]
  | cons taken rest ih =>
    obtain ⟨here, later⟩ := List.forall_mem_cons.mp fits
    obtain ⟨added, filled, _, inside, _, full⟩ := fill_spec (size - taken.length) loads taken
    have others : total (fillAll size (loads.addAll added) rest).2 + _ = _ :=
      ih (by rwa [length_addAll]) later
    rw [total_addAll loads inside, full (by omega)] at others
    simp only [fillAll, filled, List.flatten_cons, List.length_append, List.length_cons,
      Nat.succ_mul]
    omega

theorem findsRoom_single (some : 1 ≤ loads.length) (fits : ∀ taken ∈ lists, taken.length ≤ 1)
    (carried : total loads = lists.flatten.length) (enough : lists.length ≤ loads.length * share) :
    FindsRoom share 1 loads lists := by
  rintro before taken rest rfl
  by_contra short
  simp only [Nat.not_le, Nat.lt_one_iff, Nat.add_eq_zero_iff, List.length_eq_zero_iff] at short
  obtain ⟨rfl, none⟩ := short
  have length := length_loads_fillAll 1 loads before
  -- Nobody is below the share, so the positions together carry as much as all lists can hold.
  have least : ∀ position < (fillAll 1 loads before).2.length,
      share ≤ (fillAll 1 loads before).2.carried position := by
    intro position inside
    by_contra light
    have member := mem_vacant.mpr ⟨inside, List.not_mem_nil, Nat.lt_of_not_le light⟩
    rw [none] at member
    exact List.not_mem_nil member
  have whole := above_of_least least
  have front := total_fillAll some fun taken member => fits taken (List.mem_append_left _ member)
  have others : rest.flatten.length ≤ rest.length := by
    have bound := length_flatten_le fun taken (member : taken ∈ rest) =>
      fits taken (List.mem_append_right _ (List.mem_cons_of_mem _ member))
    rwa [Nat.one_mul] at bound
  simp only [List.flatten_append, List.flatten_cons, List.nil_append, List.length_append,
    List.length_cons] at carried enough
  rw [length] at whole
  omega

end Loads

namespace Layout

variable {members : List String} {share perPartition numPartitions group : Nat} {prior : Layout}

private theorem keptSlots_within {loads after : Loads} {former : List (List String)}
    {slots : List (List Nat)} (within : loads.Within share)
    (result : keptSlots members share perPartition loads former = (slots, after)) :
    after.Within share := by
  induction former generalizing loads slots after with
  | nil =>
    cases result
    exact within
  | cons slot rest ih =>
    rcases first : keptSlot members share perPartition loads slot with ⟨kept, next⟩
    rcases later : keptSlots members share perPartition next rest with ⟨others, last⟩
    simp only [keptSlots, first, later, Prod.mk.injEq] at result
    obtain ⟨_, rfl⟩ := result
    obtain ⟨⟨distinct, _, _⟩, light, rfl⟩ := keptSlot_spec first
    refine ih (fun position inside => ?_) later
    rw [Loads.length_addAll] at inside
    rw [Loads.carried_addAll _ _ inside]
    by_cases member : position ∈ kept
    · rw [List.count_eq_one_of_mem distinct member]
      exact light position member
    · rw [List.count_eq_zero_of_not_mem member]
      exact within position inside

private theorem carried_refilled (distinct : members.Nodup) (room : perPartition ≤ members.length)
    {position : Nat} (below : position < members.length) :
    let kept := keptSlots members (slotShare members numPartitions perPartition) perPartition
      (Loads.zero members.length) (prior.formerSlots numPartitions group)
    (Loads.fillAll perPartition kept.2 kept.1).2.carried position =
      (steadySlots members numPartitions perPartition prior group).countP
        (·.contains (members.getD position "")) := by
  intro kept
  obtain ⟨_, _, same⟩ := keptSlots_spec (rfl : keptSlots members _ _ _ _ = (kept.1, kept.2))
  have inside : position < kept.2.length := by
    rwa [same, Loads.length_addAll, Loads.length_zero]
  have before : kept.2.carried position = kept.1.flatten.count position := by
    rw [same, Loads.carried_addAll _ _ (by simpa using below), Loads.carried_zero, Nat.zero_add]
  have counted := Loads.carried_fillAll perPartition kept.2 kept.1 inside
  let filled := slotPositions members numPartitions perPartition (some prior) group
  have placed : ∀ positions ∈ filled, positions.Nodup ∧
      (∀ position ∈ positions, position < members.length) ∧ positions.length = perPartition :=
    fun positions => mem_slotPositions room
  calc (Loads.fillAll perPartition kept.2 kept.1).2.carried position
    _ = filled.flatten.count position := by
      rw [before] at counted
      exact Nat.add_right_cancel (counted.trans (Nat.add_comm ..))
    _ = filled.countP (·.contains position) :=
      Balanced.count_flatten_of_nodup (fun positions member => (placed positions member).1) position
    _ = _ := (countP_map_namesAt distinct
      (fun positions member => (placed positions member).2.1) below).symm

private theorem le_slotShare (some : 0 < members.length) (numPartitions perPartition : Nat) :
    numPartitions * perPartition ≤
      members.length * slotShare members numPartitions perPartition := by
  have parts := Nat.div_add_mod (numPartitions * perPartition + members.length - 1) members.length
  have rest := Nat.mod_lt (numPartitions * perPartition + members.length - 1) some
  rw [slotShare]
  omega

theorem forall_countP_le_iff (distinct : members.Nodup) (room : perPartition ≤ members.length) :
    let share := slotShare members numPartitions perPartition
    let kept := keptSlots members share perPartition (Loads.zero members.length)
      (prior.formerSlots numPartitions group)
    (∀ server ∈ members, (steadySlots members numPartitions perPartition prior group).countP
        (·.contains server) ≤ share) ↔ Loads.FindsRoom share perPartition kept.2 kept.1 := by
  intro share kept
  have result : keptSlots members share perPartition (Loads.zero members.length)
    (prior.formerSlots numPartitions group) = (kept.1, kept.2) := rfl
  obtain ⟨sound, _, same⟩ := keptSlots_spec result
  have length : kept.2.length = members.length := by
    rw [same, Loads.length_addAll, Loads.length_zero]
  have begun : kept.2.Within share := keptSlots_within (fun position _ => by simp) result
  rw [← Loads.fillAll_within_share_iff begun (length ▸ room)
    fun taken member => (sound taken member).2.2, Loads.Within, Loads.length_loads_fillAll, length,
    List.forall_mem_iff_getElem]
  refine forall₂_congr fun position below => ?_
  rw [carried_refilled distinct room below, List.getD_eq_getElem _ _ below]

private theorem keptSlots_findsRoom (some : 1 ≤ members.length) (numPartitions group : Nat)
    (prior : Layout) :
    let share := slotShare members numPartitions 1
    let kept := keptSlots members share 1 (Loads.zero members.length)
      (prior.formerSlots numPartitions group)
    Loads.FindsRoom share 1 kept.2 kept.1 := by
  intro share kept
  obtain ⟨sound, count, same⟩ := keptSlots_spec (rfl : keptSlots members _ _ _ _ = (kept.1, kept.2))
  have length : kept.2.length = members.length := by
    rw [same, Loads.length_addAll, Loads.length_zero]
  have inside : ∀ position ∈ kept.1.flatten, position < members.length := by
    intro position taken
    obtain ⟨slot, listed, here⟩ := List.mem_flatten.mp taken
    exact (sound slot listed).2.1 position here
  refine Loads.findsRoom_single (length ▸ some) (fun taken listed => (sound taken listed).2.2) ?_ ?_
  · rw [same, Loads.total_addAll _ (by simpa using inside), Loads.total_zero, Nat.zero_add]
  · have enough := le_slotShare some numPartitions 1
    rw [count, length, formerSlots, List.length_map, List.length_range]
    rwa [Nat.mul_one] at enough

/-- No member gets more than its share of the slots of its group exactly if every slot finds room:
when its turn comes, as many members that it has not kept are below the share as it lacks. Slots of
one server always find it, and slots of all members need none. -/
theorem steadySlots_within_iff (members : List String) (numPartitions perPartition : Nat)
    (prior : Layout) (group : Nat) (distinct : members.Nodup)
    (room : perPartition ≤ members.length) :
    let share := slotShare members numPartitions perPartition
    let slots := steadySlots members numPartitions perPartition prior group
    let kept := keptSlots members share perPartition (Loads.zero members.length)
      (prior.formerSlots numPartitions group)
    ((∀ server ∈ members, slots.countP (·.contains server) ≤ share) ↔
        Loads.FindsRoom share perPartition kept.2 kept.1) ∧
      (perPartition = 1 ∨ perPartition = members.length →
        ∀ server ∈ members, slots.countP (·.contains server) ≤ share) := by
  intro share slots kept
  refine ⟨forall_countP_le_iff distinct room, ?_⟩
  rintro (rfl | rfl) server member
  · exact (forall_countP_le_iff distinct room).mpr (keptSlots_findsRoom room _ _ _) server member
  · have some := List.length_pos_of_mem member
    have most : slots.countP (·.contains server) ≤ numPartitions :=
      List.countP_le_length.trans (length_steadySlots ..).le
    have enough := le_slotShare some numPartitions members.length
    rw [Nat.mul_comm] at enough
    exact most.trans (Nat.le_of_mul_le_mul_left enough some)

def singlesLayout : Layout :=
  ⟨"t", 3, 1, OrderedMap.ofList [("0_0", ["a"]), ("1_0", ["b"]), ("2_0", ["c"])]⟩

/-- With two servers to a slot the first two slots are filled up with `b` and `a`, and the last one
finds nobody below the share. -/
theorem singlesLayout_finds_no_room :
    let members := ["a", "b", "c"]
    let share := slotShare members 3 2
    let kept := keptSlots members share 2 (Loads.zero members.length) (singlesLayout.formerSlots 3 0)
    members.Nodup ∧ 2 ≤ members.length ∧ singlesLayout.validate = .ok () ∧
      ¬ Loads.FindsRoom share 2 kept.2 kept.1 := by
  intro members share kept
  refine ⟨by decide, by decide, by decide +kernel, fun finds => ?_⟩
  have within := (steadySlots_within_iff members 3 2 singlesLayout 0 (by decide) (by decide)).1.mpr
    finds "a" (by decide)
  exact absurd within (by decide +kernel)

/-- So `a` has a place in all three slots, one more than its share, although an even layout could
keep every server in its slot. -/
theorem not_all_steadySlots_within :
    ¬ ∀ (members : List String) (numPartitions perPartition : Nat) (prior : Layout) (group : Nat),
      members.Nodup → perPartition ≤ members.length → ∀ server ∈ members,
        (steadySlots members numPartitions perPartition prior group).countP (·.contains server) ≤
          slotShare members numPartitions perPartition := by
  intro bounded
  have within := bounded ["a", "b", "c"] 3 2 singlesLayout 0 (by decide) (by decide) "a" (by decide)
  exact absurd within (by decide +kernel)

end Layout

end SegmentPlacement

import Mathlib.Algebra.Order.BigOperators.Group.List
import SegmentPlacement.Proofs.LayoutSeats
import SegmentPlacement.Proofs.LayoutStability
import SegmentPlacement.Proofs.LightServers

/-! How little a layout moves that is computed from one whose groups fit. Every server
stays in its group and keeps all its seats there up to an equal share, so what moves
is at most what servers have beyond that. -/

namespace SegmentPlacement

/-- The most seats of its group that a member may keep: an equal share, rounded up. -/
def GroupSettings.seatShare (settings : GroupSettings) (members : Nat) : Nat :=
  (settings.numPartitions * settings.perSlot members + members - 1) / members

namespace Layout
open SegmentPlacement.Balanced

section slots

variable {members : List String} {share perPartition numPartitions position : Nat}
  {slots : List (List Nat)} {prior : Layout} {group : Nat} {server : String}

private theorem keeps_staying (share position : Nat) (before rest : List (List Nat)) :
    Keeps position (staying share before rest) rest := by
  induction rest generalizing before with
  | nil => exact .nil
  | cons slot rest ih => exact .cons List.mem_of_mem_filter (ih _)

private theorem lost_refilled_le (distinct : members.Nodup) (share : Nat)
    (sound : ∀ slot ∈ slots, slot.Nodup ∧ (∀ position ∈ slot, position < members.length) ∧
      slot.length ≤ perPartition) (below : position < members.length) :
    let kept := keptSlots members share perPartition (Loads.zero members.length)
      (slots.map (namesAt members))
    lost position slots (Loads.fillAll perPartition kept.2 kept.1).1 ≤
      slots.countP (·.contains position) - share := by
  obtain ⟨after, stayed, _, counted⟩ := keptSlots_namesAt distinct share []
    (Loads.zero members.length) sound (by simp) (by simp [held])
  obtain ⟨parts, _, same⟩ := keptSlots_spec stayed
  have carried := counted position below
  rw [same, Loads.carried_addAll _ _ (by simpa using below), Loads.carried_zero, Nat.zero_add,
    count_flatten_of_nodup fun kept member => (parts kept member).1, List.nil_append, held,
    count_flatten_of_nodup fun slot member => (sound slot member).1] at carried
  have gone := (keeps_staying share position [] slots).lost_add
  have refilled := (fillAll_keeps perPartition position after (staying share [] slots)).lost_anti slots
  simp only [stayed]
  omega

theorem mem_map_idxOf_iff (distinct : members.Nodup) {slot : List String}
    (inside : slot ⊆ members) (below : position < members.length) :
    position ∈ slot.map (fun server => members.idxOf server) ↔
      members.getD position "" ∈ slot := by
  have within : ∀ other ∈ slot.map fun server => members.idxOf server, other < members.length := by
    intro other taken
    obtain ⟨server, here, rfl⟩ := List.mem_map.mp taken
    exact List.idxOf_lt_length_of_mem (inside here)
  rw [← getD_mem_namesAt_iff distinct within below, namesAt_idxOf inside]

private theorem lost_positionsIn (distinct : members.Nodup) {former : List (List String)}
    (inside : ∀ slot ∈ former, slot ⊆ members)
    (within : ∀ slot ∈ slots, ∀ position ∈ slot, position < members.length)
    (below : position < members.length) :
    lost position (positionsIn members former) slots =
      (former.zip (slots.map (namesAt members))).countP fun pair =>
        pair.1.contains (members.getD position "") &&
          !pair.2.contains (members.getD position "") := by
  rw [lost, positionsIn, List.zip_map_left, List.zip_map_right, List.countP_map, List.countP_map]
  refine List.countP_congr fun pair member => ?_
  obtain ⟨before, after⟩ := List.of_mem_zip member
  simp only [Function.comp_apply, Prod.map_fst, Prod.map_snd, id_eq, Bool.and_eq_true,
    Bool.not_eq_true', ← Bool.not_eq_true, List.contains_iff_mem,
    mem_map_idxOf_iff distinct (inside pair.1 before) below,
    getD_mem_namesAt_iff distinct (within pair.2 after) below]

/-- Of the slots of its group that it had a member loses only those beyond its share. -/
theorem countP_steadySlots_le (distinct : members.Nodup) (room : perPartition ≤ members.length)
    (sound : ∀ slot ∈ prior.formerSlots numPartitions group,
      slot.Nodup ∧ slot ⊆ members ∧ slot.length ≤ perPartition) (member : server ∈ members) :
    ((prior.formerSlots numPartitions group).zip
        (steadySlots members numPartitions perPartition prior group)).countP
        (fun pair => pair.1.contains server && !pair.2.contains server) ≤
      (prior.formerSlots numPartitions group).countP (·.contains server) -
        slotShare members numPartitions perPartition := by
  obtain ⟨position, below, rfl⟩ := List.mem_iff_getElem.mp member
  have placed := mem_positionsIn (· ≤ perPartition) sound
  have inside := fun slot listed => (sound slot listed).2.1
  have bound := lost_refilled_le distinct (slotShare members numPartitions perPartition) placed below
  rw [map_namesAt_positionsIn inside] at bound
  have held : (positionsIn members (prior.formerSlots numPartitions group)).countP
      (·.contains position) =
        (prior.formerSlots numPartitions group).countP (·.contains members[position]) := by
    rw [positionsIn, List.countP_map]
    refine List.countP_congr fun slot listed => ?_
    rw [Function.comp_apply, List.contains_iff_mem, List.contains_iff_mem,
      mem_map_idxOf_iff distinct (inside slot listed) below, List.getD_eq_getElem _ _ below]
  have within : ∀ slot ∈ slotPositions members numPartitions perPartition (some prior) group,
      ∀ position ∈ slot, position < members.length := fun slot filled =>
    (mem_slotPositions room filled).2.1
  have same := lost_positionsIn distinct inside within below
  rw [List.getD_eq_getElem _ _ below] at same
  rw [← held]
  exact same.symm.le.trans bound

end slots

/-- The groups of a layout fit into those of the settings: they are as many, share no server, are
no larger and all pooled, and have no more partitions and no larger slots. -/
structure FitsIn (prior : Layout) (pool : List String) (settings : GroupSettings) (size : Nat) :
    Prop where
  groups : prior.numGroups = settings.numGroups
  partitions : prior.numPartitions ≤ settings.numPartitions
  apart : ∀ first < prior.numGroups, ∀ second < prior.numGroups,
    ∀ server ∈ prior.groupMembers first, server ∈ prior.groupMembers second → first = second
  pooled : ∀ group < prior.numGroups, prior.groupMembers group ⊆ pool
  bounded : ∀ group < prior.numGroups, (prior.groupMembers group).length ≤ size
  slots : ∀ partition < prior.numPartitions, ∀ group < prior.numGroups,
    (prior.slot partition group).length ≤ settings.perSlot size

section layouts

variable {name : String} {pool members : List String} {settings : GroupSettings}
  {prior next : Layout} {size numPartitions group : Nat} {server : String}

private theorem getElem?_formerGroups (known : group < settings.numGroups)
    (inside : group < prior.numGroups) :
    (prior.formerGroups settings.numGroups)[group]? = some (prior.groupMembers group) := by
  simp [formerGroups, known, inside]

namespace FitsIn

variable (fits : prior.FitsIn pool settings size)
include fits

theorem grouping : Grouping pool size (prior.formerGroups settings.numGroups) := by
  have listed : prior.formerGroups settings.numGroups =
      (List.range prior.numGroups).map prior.groupMembers := by
    rw [formerGroups, ← fits.groups]
    exact List.map_congr_left fun group known => if_pos (List.mem_range.mp known)
  rw [listed]
  refine ⟨List.nodup_flatten.mpr ⟨?_, ?_⟩, ?_, ?_⟩
  · intro members member
    obtain ⟨group, _, rfl⟩ := List.mem_map.mp member
    exact OrderedMap.nodup_keys _
  · refine List.pairwise_map.mpr (List.nodup_range.imp_of_mem fun first second other => ?_)
    exact fun server here there => other (fits.apart _ (List.mem_range.mp first) _
      (List.mem_range.mp second) server here there)
  · intro server member
    obtain ⟨members, listed, here⟩ := List.mem_flatten.mp member
    obtain ⟨group, known, rfl⟩ := List.mem_map.mp listed
    exact fits.pooled group (List.mem_range.mp known) here
  · intro members member
    obtain ⟨group, known, rfl⟩ := List.mem_map.mp member
    exact fits.bounded group (List.mem_range.mp known)

theorem keeps_members (distinct : pool.Nodup) (room : size * settings.numGroups ≤ pool.length)
    (inside : group < prior.numGroups)
    (listed : (Layout.groups pool settings.numGroups size (some prior))[group]? = some members) :
    prior.groupMembers group ⊆ members := by
  have steady : Layout.groups pool settings.numGroups size (some prior) =
      steadyGroups pool settings.numGroups size prior := if_neg (Nat.not_lt.mpr room)
  rw [steady] at listed
  exact steadyGroups_keeps distinct room fits.grouping
    (getElem?_formerGroups (fits.groups ▸ inside) inside) listed

/-- What a group is to keep is made of its members, and fits into slots. -/
theorem formerSlots_sound (valid : prior.Valid) :
    ∀ slot ∈ prior.formerSlots settings.numPartitions group,
      slot.Nodup ∧ slot ⊆ prior.groupMembers group ∧ slot.length ≤ settings.perSlot size := by
  intro slot member
  have within := mem_formerSlots member
  obtain ⟨partition, _, rfl⟩ := List.mem_map.mp member
  by_cases known : group < prior.numGroups ∧ partition < prior.numPartitions
  · rw [if_pos known] at within ⊢
    exact ⟨valid.nodup_slot partition group, within, fits.slots partition known.2 group known.1⟩
  · rw [if_neg known]
    exact ⟨.nil, List.nil_subset _, Nat.zero_le _⟩

end FitsIn

theorem countP_zip_formerSlots (inside : group < prior.numGroups) (also : group < next.numGroups)
    (enough : prior.numPartitions ≤ numPartitions) (more : numPartitions ≤ next.numPartitions) :
    ((prior.formerSlots numPartitions group).zip (next.formerSlots numPartitions group)).countP
        (fun pair => pair.1.contains server && !pair.2.contains server) =
      (prior.partitionsOf group server).countP (· ∉ next.partitionsOf group server) := by
  rw [countP_partitionsOf inside enough, formerSlots, formerSlots, List.zip_map', List.countP_map]
  refine List.countP_congr fun partition known => ?_
  have here : group < next.numGroups ∧ partition < next.numPartitions :=
    ⟨also, Nat.lt_of_lt_of_le (List.mem_range.mp known) more⟩
  simp only [Function.comp_apply, Bool.and_eq_true, Bool.not_eq_true', ← Bool.not_eq_true,
    decide_eq_true_eq, mem_partitionsOf, here, if_true, true_and, List.contains_iff_mem,
    slot]

section computed

variable (distinct : pool.Nodup) (room : size * settings.numGroups ≤ pool.length)
  (fits : prior.FitsIn pool settings size)
  (sized : groupSize name pool settings = .ok size) (small : settings.perSlot size ≤ size)
  (filled : fillGroups ⟨name, settings.numPartitions, settings.numGroups, {}⟩
    (groupSlots pool settings size (settings.perSlot size) (some prior)) = .ok next)
  (inside : group < prior.numGroups) (member : server ∈ prior.groupMembers group)
include distinct room fits sized small filled inside member

private theorem countP_lost_le (valid : prior.Valid) :
    (prior.partitionsOf group server).countP (· ∉ next.partitionsOf group server) ≤
      (prior.partitionsOf group server).length - settings.seatShare size := by
  obtain ⟨count, sound⟩ := groups_spec distinct sized (some prior)
  have known : group < settings.numGroups := fits.groups ▸ inside
  have listed := List.getElem?_eq_getElem (known.trans_eq count.symm)
  generalize (groups pool settings.numGroups size (some prior))[group] = members at listed
  obtain ⟨apart, length, _⟩ := sound members (List.mem_of_getElem? listed)
  obtain ⟨shape, _⟩ := fillGroups_spec filled
  have keeps := fits.keeps_members distinct room inside listed
  have bound := countP_steadySlots_le apart (length ▸ small)
    (fun slot former => (fits.formerSlots_sound valid slot former).imp_right
      (And.imp_left (List.Subset.trans · keeps))) (keeps member)
  rwa [← formerSlots_computed distinct sized filled listed, countP_formerSlots inside
    fits.partitions, countP_zip_formerSlots inside (shape.groups ▸ known) fits.partitions
    shape.partitions.ge, slotShare, length] at bound

private theorem le_length_kept (valid : prior.Valid) :
    min (prior.partitionsOf group server).length (settings.seatShare size) ≤
      ((prior.partitionsOf group server).filter (· ∈ next.partitionsOf group server)).length := by
  have gone := countP_lost_le distinct room fits sized small filled inside member valid
  have parts := List.length_eq_countP_add_countP
    (l := prior.partitionsOf group server) (· ∈ next.partitionsOf group server)
  simp only [decide_eq_true_eq] at parts
  rw [← List.countP_eq_length_filter]
  omega

private theorem eq_of_mem_groupMembers {other : Nat} (there : server ∈ next.groupMembers other) :
    other = group := by
  have known : group < settings.numGroups := fits.groups ▸ inside
  have listed := List.getElem?_eq_getElem
    (known.trans_eq (groups_spec distinct sized (some prior)).1.symm)
  obtain ⟨partition, seated⟩ := mem_groupMembers_iff.mp there
  obtain ⟨members, found, here⟩ :=
    mem_group_of_slot distinct sized small filled (mem_partitionsOf.mp seated).2
  exact eq_of_mem_groups distinct room found listed here
    (fits.keeps_members distinct room inside listed member)

theorem mem_groupMembers_of_share (valid : prior.Valid) (positive : 0 < settings.seatShare size) :
    server ∈ next.groupMembers group := by
  obtain ⟨partition, seated⟩ := mem_groupMembers_iff.mp member
  have left := Nat.lt_of_lt_of_le
    (Nat.lt_min.mpr ⟨List.length_pos_of_mem seated, positive⟩)
    (le_length_kept distinct room fits sized small filled inside member valid)
  obtain ⟨stays, remains⟩ := List.exists_mem_of_length_pos left
  exact mem_groupMembers_iff.mpr ⟨stays, of_decide_eq_true (List.mem_filter.mp remains).2⟩

end computed

private theorem seatShare_pos (positive : 0 < settings.numPartitions) (some : 0 < size)
    (filled : 0 < settings.perSlot size) : 0 < settings.seatShare size := by
  have slots := Nat.mul_pos positive filled
  exact Nat.div_pos (by omega) some

def memberships (layout : Layout) : List (Nat × String) :=
  (List.range layout.numGroups).flatMap fun group =>
    (layout.groupMembers group).map fun server => (group, server)

theorem mem_memberships : (group, server) ∈ prior.memberships ↔
    group < prior.numGroups ∧ server ∈ prior.groupMembers group := by
  simp only [memberships, List.mem_flatMap, List.mem_range, List.mem_map, Prod.mk.injEq]
  constructor
  · rintro ⟨_, inside, _, member, rfl, rfl⟩
    exact ⟨inside, member⟩
  · rintro ⟨inside, member⟩
    exact ⟨group, inside, server, member, rfl, rfl⟩

private theorem nodup_memberships (layout : Layout) : layout.memberships.Nodup := by
  refine List.nodup_flatMap.mpr ⟨fun group _ => ?_, ?_⟩
  · exact (OrderedMap.nodup_keys _).map fun _ _ same => (Prod.mk.inj same).2
  · refine List.nodup_range.imp fun apart pair here there => apart ?_
    obtain ⟨_, _, rfl⟩ := List.mem_map.mp here
    obtain ⟨_, _, same⟩ := List.mem_map.mp there
    exact (Prod.mk.inj same).1.symm

theorem length_filter_seats (valid : prior.Valid) (same : next.numGroups = prior.numGroups) :
    (prior.seats.filter (· ∉ next.seats)).length =
      total (prior.memberships.map fun (group, server) =>
        (prior.partitionsOf group server).countP (· ∉ next.partitionsOf group server)) := by
  have covered : ∀ seat ∈ prior.seats.filter (· ∉ next.seats),
      (seat.group, seat.server) ∈ prior.memberships := by
    intro seat member
    obtain ⟨known, inside, listed⟩ := mem_seats.mp (List.mem_of_mem_filter member)
    exact mem_memberships.mpr ⟨inside, mem_groupMembers.mpr ⟨seat.partition, known, listed⟩⟩
  rw [← total_countP (fun seat : Seat => (seat.group, seat.server)) prior.nodup_memberships covered]
  refine congrArg total (List.map_congr_left fun (group, server) member => ?_)
  obtain ⟨inside, _⟩ := mem_memberships.mp member
  simp only
  rw [← valid.countP_seats inside, List.countP_filter]
  refine List.countP_congr fun seat _ => ?_
  simp only [Prod.mk.injEq, Bool.and_eq_true, decide_eq_true_eq]
  refine and_congr_right fun ⟨here, its⟩ => not_congr ?_
  rw [mem_seats, mem_partitionsOf, here, its]
  simp only [same, inside, true_and]

end layouts

/-- A layout that is computed from one that fits moves little. Every member of a group stays in
its group and in no other, keeps all its seats there up to an equal share, and no more seats move
than there are beyond these shares. -/
theorem compute_keeps_seats (name : String) (pool : List String) (settings : GroupSettings)
    (prior next : Layout) (size : Nat) (distinct : pool.Nodup) (grouped : settings.groupBased)
    (resolved : settings.membersPerGroup? pool.length = some size)
    (room : size * settings.numGroups ≤ pool.length) (checked : prior.validate = .ok ())
    (fits : prior.FitsIn pool settings size)
    (done : compute name pool settings (some prior) true = .ok next) :
    let share := settings.seatShare size
    (∀ group < prior.numGroups, ∀ server ∈ prior.groupMembers group,
      (∀ other, server ∈ next.groupMembers other ↔ other = group) ∧
      min (prior.partitionsOf group server).length share ≤
        ((prior.partitionsOf group server).filter
          (· ∈ next.partitionsOf group server)).length) ∧
    (prior.seats.filter (· ∉ next.seats)).length ≤
      total (prior.memberships.map fun (group, server) =>
        (prior.partitionsOf group server).length - share) := by
  intro share
  have valid := validate_iff.mp checked
  obtain ⟨own, perPartition, sized, slotted, positive, small, filled, _⟩ :=
    compute_grouped_spec distinct grouped done
  obtain rfl : own = size :=
    Option.some.inj ((groupSize_eq_ok_iff.mp sized).1.symm.trans resolved)
  obtain ⟨rfl, _⟩ := slotSize_eq_ok_iff.mp slotted
  obtain ⟨⟨_, _, partitions⟩, _⟩ := (compute_grouped_eq_ok_iff grouped).mp done
  obtain ⟨shape, _⟩ := fillGroups_spec filled
  have some : 0 < share := seatShare_pos (Nat.pos_of_ne_zero partitions)
    (Nat.lt_of_lt_of_le positive small) positive
  refine ⟨fun group inside server member => ⟨fun other => ⟨?_, ?_⟩, ?_⟩, ?_⟩
  · exact eq_of_mem_groupMembers distinct room fits sized small filled inside member
  · rintro rfl
    exact mem_groupMembers_of_share distinct room fits sized small filled inside member valid some
  · exact le_length_kept distinct room fits sized small filled inside member valid
  · rw [length_filter_seats valid (shape.groups.trans fits.groups.symm)]
    refine List.sum_le_sum fun (group, server) member => ?_
    obtain ⟨inside, listed⟩ := mem_memberships.mp member
    exact countP_lost_le distinct room fits sized small filled inside listed valid

def threePairs : GroupSettings :=
  { groupBased := true, numGroups := 2, serversPerGroup := 3, numPartitions := 3,
    serversPerPartition := 2 }

/-- The first group has no server but two, in all of its slots. -/
def crowdedLayout : Layout :=
  ⟨"t", 3, 2, OrderedMap.ofList [("0_0", ["a", "b"]), ("0_1", ["d"]), ("1_0", ["a", "b"]),
    ("1_1", ["e"]), ("2_0", ["a", "b"]), ("2_1", ["e", "d"])]⟩

private theorem crowdedLayout_fits :
    crowdedLayout.FitsIn ["a", "b", "c", "d", "e", "f"] threePairs 3 where
  groups := rfl
  partitions := by decide
  apart := by decide +kernel
  pooled := by decide +kernel
  bounded := by decide +kernel
  slots := by decide +kernel

/-- Of ten seats at most the two beyond the shares move: the servers of the first group keep two of
their three seats each. -/
theorem crowdedLayout_keeps_seats :
    let pool := ["a", "b", "c", "d", "e", "f"]
    pool.Nodup ∧ threePairs.membersPerGroup? pool.length = some 3 ∧
    3 * threePairs.numGroups ≤ pool.length ∧ crowdedLayout.validate = .ok () ∧
    crowdedLayout.FitsIn pool threePairs 3 ∧
    ∃ next, compute "t" pool threePairs (some crowdedLayout) true = .ok next ∧
      "a" ∈ next.groupMembers 0 ∧ "a" ∉ next.groupMembers 1 ∧
      2 ≤ ((crowdedLayout.partitionsOf 0 "a").filter (· ∈ next.partitionsOf 0 "a")).length ∧
      (crowdedLayout.seats.filter (· ∉ next.seats)).length ≤ 2 := by
  intro pool
  have succeeds : (compute "t" pool threePairs (some crowdedLayout) true).toOption.isSome = true := by
    cbv
  obtain ⟨next, same⟩ := Option.isSome_iff_exists.mp succeeds
  have done := eq_ok_of_toOption same
  have checked : crowdedLayout.validate = .ok () := by decide +kernel
  obtain ⟨keeps, moved⟩ := compute_keeps_seats "t" pool threePairs crowdedLayout next 3 (by decide)
    rfl rfl (by decide) checked crowdedLayout_fits done
  obtain ⟨stays, kept⟩ := keeps 0 (by decide) "a" (by decide +kernel)
  exact ⟨by decide, rfl, by decide, checked, crowdedLayout_fits, next, done, (stays 0).mpr rfl,
    fun other => absurd ((stays 1).mp other) (by decide), Nat.le_trans (by decide +kernel) kept,
    Nat.le_trans moved (by decide +kernel)⟩

end Layout

end SegmentPlacement

import Mathlib.Data.Int.CardIntervalMod
import SegmentPlacement.Proofs.BalancedPlacement
import SegmentPlacement.Proofs.GroupedLayouts

/-! The seats that servers have in the slots of a layout. A layout that is dealt out
afresh gives every member of its groups the same number of seats, or one more. -/

namespace SegmentPlacement.Layout

/-- The place of a server in a slot. -/
structure Seat where
  partition : Nat
  group : Nat
  server : String
  deriving DecidableEq

def slot (layout : Layout) (partition group : Nat) : List String :=
  (layout.servers? partition group).getD []

def seats (layout : Layout) : List Seat :=
  (List.range layout.numPartitions).flatMap fun partition =>
    (List.range layout.numGroups).flatMap fun group =>
      (layout.slot partition group).map fun server => ⟨partition, group, server⟩

/-- The partitions in which a server has a seat of the group. -/
def partitionsOf (layout : Layout) (group : Nat) (server : String) : List Nat :=
  (List.range layout.numPartitions).filter fun partition =>
    (layout.slot partition group).contains server

def seatCount (layout : Layout) (server : String) : Nat :=
  layout.seats.countP fun seat => seat.server = server

section seats

variable {layout : Layout} {group partition numPartitions : Nat} {server : String} {seat : Seat}

theorem mem_seats : seat ∈ layout.seats ↔ seat.partition < layout.numPartitions ∧
    seat.group < layout.numGroups ∧ seat.server ∈ layout.slot seat.partition seat.group := by
  obtain ⟨partition, group, server⟩ := seat
  simp only [seats, List.mem_flatMap, List.mem_range, List.mem_map, Seat.mk.injEq]
  constructor
  · rintro ⟨_, known, _, inside, _, listed, rfl, rfl, rfl⟩
    exact ⟨known, inside, listed⟩
  · rintro ⟨known, inside, listed⟩
    exact ⟨partition, known, group, inside, server, listed, rfl, rfl, rfl⟩

theorem mem_partitionsOf : partition ∈ layout.partitionsOf group server ↔
    partition < layout.numPartitions ∧ server ∈ layout.slot partition group := by
  simp only [partitionsOf, List.mem_filter, List.mem_range, List.contains_iff_mem]

private theorem nodup_partitionsOf : (layout.partitionsOf group server).Nodup :=
  List.nodup_range.filter _

theorem mem_groupMembers_iff : server ∈ layout.groupMembers group ↔
    ∃ partition, partition ∈ layout.partitionsOf group server := by
  simp only [mem_groupMembers, mem_partitionsOf, slot]

theorem Valid.nodup_slot (valid : layout.Valid) (partition group : Nat) :
    (layout.slot partition group).Nodup := by
  unfold slot
  cases held : layout.servers? partition group with
  | none => exact .nil
  | some servers => exact valid.distinct _ _ held

private theorem Valid.nodup_seats (valid : layout.Valid) : layout.seats.Nodup := by
  refine List.nodup_flatMap.mpr ⟨fun partition _ => List.nodup_flatMap.mpr ⟨fun group _ => ?_, ?_⟩, ?_⟩
  · exact (valid.nodup_slot partition group).map fun _ _ same => (Seat.mk.inj same).2.2
  · refine List.nodup_range.imp fun apart seat here there => apart ?_
    obtain ⟨_, _, rfl⟩ := List.mem_map.mp here
    obtain ⟨_, _, same⟩ := List.mem_map.mp there
    exact (Seat.mk.inj same).2.1.symm
  · refine List.nodup_range.imp fun apart seat here there => apart ?_
    obtain ⟨_, _, first⟩ := List.mem_flatMap.mp here
    obtain ⟨_, _, second⟩ := List.mem_flatMap.mp there
    obtain ⟨_, _, rfl⟩ := List.mem_map.mp first
    obtain ⟨_, _, same⟩ := List.mem_map.mp second
    exact (Seat.mk.inj same).1.symm

theorem Valid.countP_seats (valid : layout.Valid) (inside : group < layout.numGroups)
    (server : String) (holds : Nat → Bool) :
    layout.seats.countP (fun seat =>
        (seat.group = group ∧ seat.server = server) ∧ holds seat.partition) =
      (layout.partitionsOf group server).countP holds := by
  rw [List.countP_eq_length_filter, List.countP_eq_length_filter,
    ← List.length_map (f := Seat.partition)]
  refine List.Perm.length_eq ((List.perm_ext_iff_of_nodup ?_ (nodup_partitionsOf.filter _)).mpr ?_)
  · refine (valid.nodup_seats.filter _).map_on ?_
    rintro ⟨_, _, _⟩ here ⟨_, _, _⟩ there rfl
    simp only [List.mem_filter, decide_eq_true_eq] at here there
    obtain ⟨_, ⟨rfl, rfl⟩, _⟩ := here
    obtain ⟨_, ⟨rfl, rfl⟩, _⟩ := there
    rfl
  · intro partition
    simp only [List.mem_map, List.mem_filter, mem_seats, mem_partitionsOf, decide_eq_true_eq]
    constructor
    · rintro ⟨seat, ⟨⟨known, _, listed⟩, ⟨rfl, rfl⟩, true⟩, rfl⟩
      exact ⟨⟨known, listed⟩, true⟩
    · rintro ⟨⟨known, listed⟩, true⟩
      exact ⟨⟨partition, group, server⟩, ⟨⟨known, inside, listed⟩, ⟨rfl, rfl⟩, true⟩, rfl⟩

theorem countP_partitionsOf (inside : group < layout.numGroups)
    (enough : layout.numPartitions ≤ numPartitions) (server : String) (holds : Nat → Bool) :
    (layout.partitionsOf group server).countP holds =
      (List.range numPartitions).countP fun partition =>
        (if group < layout.numGroups ∧ partition < layout.numPartitions then
          layout.slot partition group else []).contains server && holds partition := by
  rw [List.countP_eq_length_filter, List.countP_eq_length_filter]
  refine List.Perm.length_eq ((List.perm_ext_iff_of_nodup (nodup_partitionsOf.filter _)
    (List.nodup_range.filter _)).mpr fun partition => ?_)
  simp only [List.mem_filter, List.mem_range, mem_partitionsOf, inside, true_and, Bool.and_eq_true]
  constructor
  · rintro ⟨⟨known, listed⟩, true⟩
    rw [if_pos known]
    exact ⟨Nat.lt_of_lt_of_le known enough, List.contains_iff_mem.mpr listed, true⟩
  · rintro ⟨_, listed, true⟩
    split at listed
    · rename_i known
      exact ⟨⟨known, List.contains_iff_mem.mp listed⟩, true⟩
    · cases listed

/-- The slots that a group is to keep show in which partitions a server has a seat. -/
theorem countP_formerSlots (inside : group < layout.numGroups)
    (enough : layout.numPartitions ≤ numPartitions) (server : String) :
    (layout.formerSlots numPartitions group).countP (·.contains server) =
      (layout.partitionsOf group server).length := by
  have counted := countP_partitionsOf inside enough server fun _ => true
  simp only [List.countP_true, Bool.and_true] at counted
  rw [counted, formerSlots, List.countP_map]
  rfl

end seats

section dealt

variable {name : String} {pool members : List String} {settings : GroupSettings}
  {size perPartition numPartitions group : Nat} {layout : Layout} {server : String}

theorem flatten_dealtPositions (members : List String) (numPartitions perPartition group : Nat) :
    (slotPositions members numPartitions perPartition none group).flatten =
      (List.range (numPartitions * perPartition)).map (· % members.length) := by
  induction numPartitions with
  | zero => simp [slotPositions]
  | succ numPartitions ih =>
    simp only [slotPositions] at ih ⊢
    rw [List.range_succ, List.map_append, List.flatten_append, ih, Nat.succ_mul, List.range_add,
      List.map_append, List.map_map]
    simp only [List.map_cons, List.map_nil, List.flatten_cons, List.flatten_nil, List.append_nil,
      Function.comp_def]

private theorem countP_dealtSlots (distinct : members.Nodup) (room : perPartition ≤ members.length)
    {position : Nat} (inside : position < members.length) (numPartitions group : Nat) :
    (slotsOf members numPartitions perPartition none group).countP
        (·.contains (members.getD position "")) =
      numPartitions * perPartition / members.length +
        if position < numPartitions * perPartition % members.length then 1 else 0 := by
  let dealt := slotPositions members numPartitions perPartition none group
  have sound : ∀ positions ∈ dealt, positions.Nodup ∧
      ∀ other ∈ positions, other < members.length := fun positions member =>
    (mem_slotPositions room member).imp_right And.left
  have turns := Nat.count_modEq_card (numPartitions * perPartition)
    (Nat.zero_lt_of_lt inside) position
  rw [Nat.mod_eq_of_lt inside, Nat.count] at turns
  calc (slotsOf members numPartitions perPartition none group).countP
          (·.contains (members.getD position ""))
    _ = dealt.countP (·.contains position) := by
      rw [slotsOf_eq]
      exact countP_map_namesAt distinct (fun positions member => (sound positions member).2) inside
    _ = dealt.flatten.count position :=
      (Balanced.count_flatten_of_nodup (fun positions member => (sound positions member).1)
        position).symm
    _ = (List.range (numPartitions * perPartition)).countP (· ≡ position [MOD members.length]) := by
      rw [flatten_dealtPositions, List.count, List.countP_map]
      refine List.countP_congr fun turn _ => ?_
      rw [Function.comp_apply, beq_iff_eq, decide_eq_true_eq, Nat.ModEq, Nat.mod_eq_of_lt inside]
    _ = _ := turns

private theorem seatCount_of_apart (valid : layout.Valid) (inside : group < layout.numGroups)
    (apart : ∀ seat ∈ layout.seats, seat.server = server → seat.group = group) :
    layout.seatCount server = (layout.partitionsOf group server).length := by
  have counted := valid.countP_seats inside server fun _ => true
  rw [List.countP_true] at counted
  rw [← counted, seatCount]
  refine List.countP_congr fun seat member => ?_
  simp only [decide_eq_true_eq, and_true]
  exact ⟨fun same => ⟨apart seat member same, same⟩, And.right⟩

private theorem flatten_dealtGroups_perm {numGroups : Nat} (distinct : pool.Nodup)
    (room : size * numGroups ≤ pool.length) :
    (dealtGroups pool numGroups size).flatten.Perm (pool.take (size * numGroups)) := by
  obtain ⟨count, grouping, full⟩ := dealtGroups_spec distinct room
  have front : (dealtGroups pool numGroups size).flatten ⊆ pool.take (size * numGroups) := by
    intro server member
    obtain ⟨members, listed, here⟩ := List.mem_flatten.mp member
    obtain ⟨group, known, rfl⟩ := List.mem_map.mp listed
    obtain ⟨turn, within, rfl⟩ := List.mem_map.mp here
    have next : (turn + 1) * numGroups ≤ size * numGroups :=
      Nat.mul_le_mul_right _ (List.mem_range.mp within)
    have before : turn * numGroups + group < size * numGroups := by
      rw [Nat.succ_mul] at next
      exact Nat.lt_of_lt_of_le (Nat.add_lt_add_left (List.mem_range.mp known) _) next
    have inside := Nat.lt_of_lt_of_le before room
    rw [List.getD_eq_getElem _ _ inside]
    exact List.mem_take_iff_getElem.mpr ⟨_, Nat.lt_min.mpr ⟨before, inside⟩, rfl⟩
  refine (grouping.distinct.subperm front).perm_of_length_le ?_
  rw [length_flatten_of_length full, count, List.length_take, Nat.mul_comm]
  exact Nat.min_le_left ..

theorem mem_group_of_slot {partition : Nat} {kept : Option Layout} (distinct : pool.Nodup)
    (sized : groupSize name pool settings = .ok size) (small : perPartition ≤ size)
    (filled : fillGroups ⟨name, settings.numPartitions, settings.numGroups, {}⟩
      (groupSlots pool settings size perPartition kept) = .ok layout)
    (listed : server ∈ layout.slot partition group) :
    ∃ members, (groups pool settings.numGroups size kept)[group]? = some members ∧
      server ∈ members := by
  unfold slot at listed
  cases held : layout.servers? partition group with
  | none =>
    rw [held] at listed
    cases listed
  | some servers =>
    rw [held] at listed
    obtain ⟨members, found, within⟩ := subset_group_of_slot distinct sized small filled held
    exact ⟨members, found, within listed⟩

/-- How many seats a member of a dealt group has. -/
theorem seatCount_dealt (distinct : pool.Nodup)
    (sized : groupSize name pool settings = .ok size) (small : perPartition ≤ size)
    (room : size * settings.numGroups ≤ pool.length) (valid : layout.Valid)
    (filled : fillGroups ⟨name, settings.numPartitions, settings.numGroups, {}⟩
      (groupSlots pool settings size perPartition none) = .ok layout)
    (listed : (groups pool settings.numGroups size none)[group]? = some members) {position : Nat}
    (inside : position < members.length) :
    layout.seatCount (members.getD position "") =
      settings.numPartitions * perPartition / size +
        if position < settings.numPartitions * perPartition % size then 1 else 0 := by
  obtain ⟨count, sound⟩ := groups_spec distinct sized none
  obtain ⟨apart, length, _⟩ := sound members (List.mem_of_getElem? listed)
  obtain ⟨shape, _⟩ := fillGroups_spec filled
  have known : group < settings.numGroups := count ▸ (List.getElem?_eq_some_iff.mp listed).1
  have here : group < layout.numGroups := known.trans_eq shape.groups.symm
  have slots : layout.formerSlots settings.numPartitions group =
      slotsOf members settings.numPartitions perPartition none group :=
    formerSlots_of_fillGroups filled (getElem?_groupSlots listed) known
      (by rw [slotsOf_eq, List.length_map, length_slotPositions])
  have own : ∀ seat ∈ layout.seats, seat.server = members.getD position "" →
      seat.group = group := by
    intro seat member same
    obtain ⟨others, found, there⟩ :=
      mem_group_of_slot distinct sized small filled (mem_seats.mp member).2.2
    exact eq_of_mem_groups distinct room found listed (same ▸ there) (getD_mem inside)
  rw [seatCount_of_apart valid here own, ← countP_formerSlots here shape.partitions.le, slots,
    countP_dealtSlots apart (length.symm ▸ small) inside, length]

end dealt

/-- A layout that keeps nothing deals out its slots evenly. The members of its groups are the
servers at the front of the pool, as many as the groups have room for, and nobody else has a seat.
Each member has an equal share of the seats of its group, and the first members of the group one
more, so that no two members differ by more than one seat, however many partitions there are and
however many servers a slot has. -/
theorem compute_deals_evenly (name : String) (pool : List String) (settings : GroupSettings)
    (prior : Option Layout) (minimize : Bool) (layout : Layout) (size : Nat)
    (distinct : pool.Nodup) (grouped : settings.groupBased)
    (fresh : minimize = false ∨ prior = none)
    (resolved : settings.membersPerGroup? pool.length = some size)
    (room : size * settings.numGroups ≤ pool.length)
    (done : compute name pool settings prior minimize = .ok layout) :
    let dealt := groups pool settings.numGroups size none
    let seats := settings.numPartitions * settings.perSlot size
    dealt.flatten.Perm (pool.take (size * settings.numGroups)) ∧
    (∀ server, server ∉ dealt.flatten → layout.seatCount server = 0) ∧
    (∀ members ∈ dealt, ∀ position (inside : position < members.length),
      layout.seatCount members[position] =
        seats / size + if position < seats % size then 1 else 0) ∧
    ∀ first ∈ dealt.flatten, ∀ second ∈ dealt.flatten,
      layout.seatCount first ≤ layout.seatCount second + 1 := by
  intro dealt seats
  obtain ⟨own, perPartition, sized, slotted, _, small, filled, _⟩ :=
    compute_grouped_spec distinct grouped done
  obtain rfl : own = size :=
    Option.some.inj ((groupSize_eq_ok_iff.mp sized).1.symm.trans resolved)
  obtain ⟨rfl, _⟩ := slotSize_eq_ok_iff.mp slotted
  have nothing : (if minimize then prior else none) = none := by
    rcases fresh with rfl | rfl
    · rfl
    · exact ite_self none
  rw [nothing] at filled
  obtain ⟨_, _, valid⟩ := compute_spec distinct done
  have share : ∀ members ∈ dealt, ∀ position (inside : position < members.length),
      layout.seatCount members[position] =
        seats / own + if position < seats % own then 1 else 0 := by
    intro members listed position inside
    obtain ⟨group, found⟩ := List.mem_iff_getElem?.mp listed
    rw [← seatCount_dealt distinct sized small room valid filled found inside,
      List.getD_eq_getElem _ _ inside]
  refine ⟨?_, ?_, share, ?_⟩
  · have fresh : dealt = dealtGroups pool settings.numGroups own := if_neg (Nat.not_lt.mpr room)
    rw [fresh]
    exact flatten_dealtGroups_perm distinct room
  · intro server outside
    refine List.countP_eq_zero.mpr fun seat member => ?_
    obtain ⟨members, found, there⟩ :=
      mem_group_of_slot distinct sized small filled (mem_seats.mp member).2.2
    rw [decide_eq_true_eq]
    rintro rfl
    exact outside (List.mem_flatten_of_mem (List.mem_of_getElem? found) there)
  · have counted : ∀ server ∈ dealt.flatten, ∃ position,
        layout.seatCount server = seats / own + if position < seats % own then 1 else 0 := by
      intro server member
      obtain ⟨members, listed, here⟩ := List.mem_flatten.mp member
      obtain ⟨position, inside, rfl⟩ := List.mem_iff_getElem.mp here
      exact ⟨position, share members listed position inside⟩
    intro first here second there
    obtain ⟨_, one⟩ := counted first here
    obtain ⟨_, other⟩ := counted second there
    rw [one, other]
    split <;> split <;> omega

/-- Two groups of three, with five partitions of two servers each. -/
def fivePairs : GroupSettings :=
  { groupBased := true, numGroups := 2, serversPerGroup := 3, numPartitions := 5,
    serversPerPartition := 2 }

/-- Ten seats of a group for three members, of which one has four and the others have three. The
last server of the pool is in no group. -/
theorem fivePairs_dealt_evenly :
    let pool := ["a", "b", "c", "d", "e", "f", "g"]
    pool.Nodup ∧ fivePairs.membersPerGroup? pool.length = some 3 ∧
    3 * fivePairs.numGroups ≤ pool.length ∧
    ∃ layout, compute "t" pool fivePairs none false = .ok layout ∧
      layout.seatCount "a" = 4 ∧ layout.seatCount "f" = 3 ∧
      layout.seatCount "a" ≤ layout.seatCount "f" + 1 ∧
      layout.seatCount "f" ≤ layout.seatCount "a" + 1 ∧ layout.seatCount "g" = 0 := by
  intro pool
  have succeeds : (compute "t" pool fivePairs none false).toOption.isSome = true := by
    decide +kernel
  obtain ⟨layout, same⟩ := Option.isSome_iff_exists.mp succeeds
  have done := eq_ok_of_toOption same
  obtain ⟨_, others, shares, even⟩ := compute_deals_evenly "t" pool fivePairs none false layout 3
    (by decide) rfl (Or.inl rfl) rfl (by decide) done
  exact ⟨by decide, rfl, by decide, layout, done,
    shares ["a", "c", "e"] (by decide) 0 (by decide),
    shares ["b", "d", "f"] (by decide) 2 (by decide), even "a" (by decide) "f" (by decide),
    even "f" (by decide) "a" (by decide), others "g" (by decide)⟩

end SegmentPlacement.Layout

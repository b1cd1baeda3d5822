import SegmentPlacement.Proofs.FilledLayout
import SegmentPlacement.Proofs.LayoutMirrors
import SegmentPlacement.Proofs.TaggedServers

/-! When a grouped layout can be computed. The settings alone decide it, with the
size of the pool: once the groups and the slots have a size that fits, no slot is
ever refused, whatever layout was to be kept. -/

namespace SegmentPlacement

namespace Layout

variable {name : String} {pool : List String} {settings : GroupSettings} {kept : Option Layout}
  {size perPartition : Nat} {layout : Layout}

theorem slotSize_eq_ok_iff : slotSize name size settings = .ok perPartition ↔
    settings.perSlot size = perPartition ∧ perPartition ≤ size := by
  unfold slotSize GroupSettings.perSlot
  split
  · rw [Except.ok.injEq]
    exact ⟨fun same => ⟨same, same.ge⟩, And.left⟩
  · split
    · rename_i crowded
      constructor
      · rintro ⟨⟩
      · rintro ⟨rfl, fits⟩
        exact absurd fits (Nat.not_le.mpr crowded)
    · rename_i fits
      rw [Except.ok.injEq]
      exact ⟨fun same => ⟨same, same ▸ Nat.le_of_not_lt fits⟩, And.left⟩

def fillsOf (groups : List (List (List String))) : List Fill :=
  groups.zipIdx.flatMap fun group => group.1.zipIdx.map fun slot => ⟨slot.2, group.2, slot.1⟩

theorem mem_fillsOf {groups : List (List (List String))} {fill : Fill} :
    fill ∈ fillsOf groups ↔
      ∃ slots, groups[fill.group]? = some slots ∧ slots[fill.partition]? = some fill.servers := by
  simp only [fillsOf, List.mem_flatMap, List.mem_map, Prod.exists, List.mem_zipIdx_iff_getElem?]
  constructor
  · rintro ⟨slots, group, listed, servers, partition, held, rfl⟩
    exact ⟨slots, listed, held⟩
  · rintro ⟨slots, listed, held⟩
    exact ⟨slots, _, listed, _, _, held, rfl⟩

private theorem fillGroups_eq_setAll (layout : Layout) (groups : List (List (List String))) :
    layout.fillGroups groups = layout.setAll (fillsOf groups) := by
  have chain : ∀ (rest : List (List (List String) × Nat)) (layout : Layout),
      rest.foldlM (fun layout group => layout.setGroup group.2 group.1) layout =
        layout.setAll (rest.flatMap fun group =>
          group.1.zipIdx.map fun slot => ⟨slot.2, group.2, slot.1⟩) := by
    intro rest
    induction rest with
    | nil => exact fun _ => rfl
    | cons group rest ih =>
      intro layout
      rw [List.foldlM_cons, List.flatMap_cons, setAll, List.foldlM_append, List.foldlM_map]
      exact bind_congr fun next => ih next
  exact chain groups.zipIdx layout

private theorem fits_of_groupSlots (distinct : pool.Nodup)
    (sized : groupSize name pool settings = .ok size) (positive : 0 < perPartition)
    (small : perPartition ≤ size) :
    ∀ fill ∈ fillsOf (groupSlots pool settings size perPartition kept),
      fill.Fits settings.numPartitions settings.numGroups := by
  intro fill member
  obtain ⟨slots, listed, slot⟩ := mem_fillsOf.mp member
  obtain ⟨count, sound⟩ := groups_spec distinct sized kept
  have within : fill.group < (groups pool settings.numGroups size kept).length := by
    simpa [groupSlots] using (List.getElem?_eq_some_iff.mp listed).1
  obtain ⟨members, found⟩ : ∃ members,
      (groups pool settings.numGroups size kept)[fill.group]? = some members :=
    ⟨_, List.getElem?_eq_getElem within⟩
  obtain ⟨apart, length, _⟩ := sound members (List.mem_of_getElem? found)
  rw [getElem?_groupSlots found, Option.some.injEq, slotsOf_eq] at listed
  subst listed
  rw [List.getElem?_map, Option.map_eq_some_iff] at slot
  obtain ⟨positions, placed, servers⟩ := slot
  obtain ⟨each, inside, full⟩ := mem_slotPositions (length ▸ small) (List.mem_of_getElem? placed)
  refine ⟨?_, count ▸ within, ?_, ?_⟩
  · rw [← length_slotPositions members settings.numPartitions perPartition kept fill.group]
    exact (List.getElem?_eq_some_iff.mp placed).1
  · rw [← servers, ← List.length_pos_iff, length_namesAt, full]
    exact positive
  · rw [← servers]
    exact nodup_namesAt apart inside each

private theorem exists_fillGroups (distinct : pool.Nodup)
    (sized : groupSize name pool settings = .ok size) (positive : 0 < perPartition)
    (small : perPartition ≤ size) (kept : Option Layout) :
    ∃ layout, fillGroups ⟨name, settings.numPartitions, settings.numGroups, {}⟩
      (groupSlots pool settings size perPartition kept) = .ok layout := by
  rw [fillGroups_eq_setAll]
  exact ⟨_, setAll_eq_ok_iff.mpr ⟨fits_of_groupSlots distinct sized positive small, rfl⟩⟩

private theorem constructible_of_fillGroups {numPartitions numGroups : Nat}
    {groups : List (List (List String))} (partitions : 0 < numPartitions) (some : 0 < numGroups)
    (filled : fillGroups ⟨name, numPartitions, numGroups, {}⟩ groups = .ok layout)
    (held : ∀ partition < numPartitions, ∀ group < numGroups,
      ∃ servers, layout.servers? partition group = .some servers) : layout.Constructible := by
  obtain ⟨shape, stored⟩ := fillGroups_spec filled
  rw [Constructible, shape.name, shape.partitions, shape.groups]
  rw [fillGroups_eq_setAll] at filled
  refine ⟨fillsOf groups, _, create_eq_ok_iff.mpr ⟨⟨partitions, some⟩, rfl⟩, filled, ?_⟩
  intro partition known group inside
  obtain ⟨servers, found⟩ := held partition known group inside
  rw [stored, Option.or_eq_some_iff] at found
  obtain listed | ⟨_, ⟨⟩⟩ := found
  obtain ⟨slots, table, slot⟩ := Option.bind_eq_some_iff.mp listed
  exact ⟨⟨partition, group, servers⟩, mem_fillsOf.mpr ⟨slots, table, slot⟩, rfl, rfl⟩

private theorem Proper.size_slots (proper : layout.Proper) :
    layout.slots.size = layout.numPartitions * layout.numGroups := by
  have filled : ∀ slot ∈ slotNumbers layout.numPartitions layout.numGroups,
      (layout.servers? slot.1 slot.2).isSome = true := by
    intro slot member
    obtain ⟨known, inside⟩ := mem_slotNumbers.mp member
    exact Option.isSome_iff_exists.mpr (proper.present _ known _ inside)
  have stored := (entries_perm (proper_iff.mp proper).2).length_eq
  rw [List.filter_eq_self.mpr filled, List.length_map, slotNumbers, List.length_product,
    List.length_range, List.length_range] at stored
  exact stored

/-- What a layout of groups is. Every slot of the settings is there and nothing else, and holds
distinct servers of the pool, as many as a slot has. It passes its checks, and its groups share no
server if the pool has enough for all of them. -/
structure DealsOut (layout : Layout) (pool : List String) (settings : GroupSettings) (size : Nat) :
    Prop where
  partitions : layout.numPartitions = settings.numPartitions
  groups : layout.numGroups = settings.numGroups
  count : layout.slots.size = settings.numPartitions * settings.numGroups
  filled : ∀ partition < settings.numPartitions, ∀ group < settings.numGroups,
    ∃ servers, layout.servers? partition group = some servers ∧
      servers.length = settings.perSlot size ∧ servers.Nodup ∧ servers ⊆ pool
  passes : layout.validate = .ok ()
  apart : size * settings.numGroups ≤ pool.length →
    ∀ partition group servers otherPartition otherGroup others server,
      layout.servers? partition group = some servers →
      layout.servers? otherPartition otherGroup = some others →
      server ∈ servers → server ∈ others → group = otherGroup

/-- Grouped layouts are computed for exactly the settings that fit the pool, and then they deal it
out, whatever layout was to be kept. -/
theorem compute_deals_out (name : String) (pool : List String) (settings : GroupSettings)
    (prior : Option Layout) (minimize : Bool) (distinct : pool.Nodup)
    (grouped : settings.groupBased) :
    ((∃ layout, compute name pool settings prior minimize = .ok layout) ↔
      pool ≠ [] ∧ 0 < settings.numGroups ∧ 0 < settings.numPartitions ∧
        ∃ size, settings.membersPerGroup? pool.length = some size ∧
          settings.HasRoom pool.length size ∧ settings.perSlot size ≤ size) ∧
    ∀ layout, compute name pool settings prior minimize = .ok layout →
      ∃ size, settings.membersPerGroup? pool.length = some size ∧
        layout.DealsOut pool settings size := by
  refine ⟨⟨?_, ?_⟩, ?_⟩
  · rintro ⟨layout, done⟩
    obtain ⟨⟨some, groups, partitions⟩, _⟩ := (compute_grouped_eq_ok_iff grouped).mp done
    obtain ⟨size, perPartition, sized, slotted, _⟩ := compute_grouped_spec distinct grouped done
    obtain ⟨resolved, fits⟩ := groupSize_eq_ok_iff.mp sized
    obtain ⟨rfl, small⟩ := slotSize_eq_ok_iff.mp slotted
    exact ⟨some, Nat.pos_of_ne_zero groups, Nat.pos_of_ne_zero partitions, size, resolved, fits,
      small⟩
  · rintro ⟨some, groups, partitions, size, resolved, fits, small⟩
    have sized : groupSize name pool settings = .ok size := groupSize_eq_ok_iff.mpr ⟨resolved, fits⟩
    have slotted : slotSize name size settings = .ok (settings.perSlot size) :=
      slotSize_eq_ok_iff.mpr ⟨rfl, small⟩
    have positive := slotSize_pos ((groupSize_eq_ok sized).2 groups.ne') slotted
    obtain ⟨layout, filled⟩ := exists_fillGroups distinct sized positive small
      (if minimize then prior else none)
    refine ⟨layout, (compute_grouped_eq_ok_iff grouped).mpr
      ⟨⟨some, groups.ne', partitions.ne'⟩, size, settings.perSlot size, sized, ?_, filled⟩⟩
    rw [headD_groups_length distinct sized groups.ne']
    exact slotted
  · intro layout done
    obtain ⟨size, perPartition, sized, slotted, _, small, filled, held⟩ :=
      compute_grouped_spec distinct grouped done
    obtain ⟨resolved, _⟩ := groupSize_eq_ok_iff.mp sized
    obtain ⟨rfl, _⟩ := slotSize_eq_ok_iff.mp slotted
    obtain ⟨_, _, valid⟩ := compute_spec distinct done
    obtain ⟨⟨_, groups, partitions⟩, _⟩ := (compute_grouped_eq_ok_iff grouped).mp done
    obtain ⟨shape, _⟩ := fillGroups_spec filled
    have built := constructible_of_fillGroups (Nat.pos_of_ne_zero partitions)
      (Nat.pos_of_ne_zero groups) filled fun partition known group inside =>
        (held partition known group inside).imp fun _ => And.left
    refine ⟨size, resolved, shape.partitions, shape.groups, ?_, ?_, validate_iff.mpr valid, ?_⟩
    · rw [built.proper.size_slots, shape.partitions, shape.groups]
    · intro partition known group inside
      obtain ⟨servers, found, length⟩ := held partition known group inside
      obtain ⟨members, listed, within⟩ := subset_group_of_slot distinct sized small filled found
      obtain ⟨_, _, pooled⟩ := (groups_spec distinct sized _).2 members
        (List.mem_of_getElem? listed)
      exact ⟨servers, found, length, valid.distinct _ _ found, List.Subset.trans within pooled⟩
    · intro room partition group servers otherPartition otherGroup others server found also here
        there
      obtain ⟨members, listed, within⟩ := subset_group_of_slot distinct sized small filled found
      obtain ⟨rest, chosen, inside⟩ := subset_group_of_slot distinct sized small filled also
      exact eq_of_mem_groups distinct room listed chosen (within here) (inside there)

/-- Two groups with two partitions, and two servers in every slot. -/
def twoGroups : GroupSettings :=
  { groupBased := true, numGroups := 2, numPartitions := 2, serversPerPartition := 2 }

/-- A layout of other dimensions, with a server that is gone and one that is in two groups. -/
def overlappingLayout : Layout :=
  { name := "t", numPartitions := 1, numGroups := 3
    slots := .ofList [("0_0", ["b", "x"]), ("0_1", ["b", "a"]), ("0_2", ["c"])] }

/-- Five servers are enough for them, whatever is to be kept, and one is not. -/
theorem twoGroups_deals_out :
    (∃ layout, compute "t" ["a", "b", "c", "d", "e"] twoGroups (some overlappingLayout) true =
        .ok layout ∧ layout.DealsOut ["a", "b", "c", "d", "e"] twoGroups 2) ∧
      ¬ ∃ layout, compute "t" ["a"] twoGroups (some overlappingLayout) true = .ok layout := by
  constructor
  · obtain ⟨succeeds, deals⟩ := compute_deals_out "t" ["a", "b", "c", "d", "e"] twoGroups
      (some overlappingLayout) true (by decide) rfl
    obtain ⟨layout, done⟩ := succeeds.mpr ⟨by decide, by decide, by decide, 2, by decide,
      Or.inl (by decide), by decide⟩
    obtain ⟨size, resolved, dealt⟩ := deals layout done
    obtain rfl : 2 = size := Option.some.inj resolved
    exact ⟨layout, done, dealt⟩
  · intro done
    obtain ⟨succeeds, _⟩ := compute_deals_out "t" ["a"] twoGroups (some overlappingLayout) true
      (by decide) rfl
    obtain ⟨_, _, _, size, resolved, _⟩ := succeeds.mp done
    exact nomatch (resolved : (none : Option Nat) = some size)

end Layout

end SegmentPlacement

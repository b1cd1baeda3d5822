import SegmentPlacement.Proofs.Chains
import SegmentPlacement.Proofs.LayoutSlots
import SegmentPlacement.Proofs.SteadyGroups
import SegmentPlacement.Proofs.SteadySlots

/-! What a computed layout holds. Its slots are filled group by group from a table
of slots, and nothing else is in it. -/

namespace SegmentPlacement.Layout

structure SameShape (first second : Layout) : Prop where
  name : first.name = second.name
  partitions : first.numPartitions = second.numPartitions
  groups : first.numGroups = second.numGroups

theorem SameShape.trans {first second third : Layout} (before : SameShape first second)
    (after : SameShape second third) : SameShape first third :=
  ⟨before.name.trans after.name, before.partitions.trans after.partitions,
    before.groups.trans after.groups⟩

private theorem setGroup_spec {layout next : Layout} {group : Nat} {slots : List (List String)}
    (done : layout.setGroup group slots = .ok next) :
    SameShape next layout ∧ ∀ partition other, next.servers? partition other =
      if other = group then (slots[partition]?).or (layout.servers? partition other)
      else layout.servers? partition other := by
  induction slots using List.reverseRecOn generalizing next with
  | nil =>
    cases done
    exact ⟨⟨rfl, rfl, rfl⟩, fun partition other => by simp⟩
  | append_singleton slots slot ih =>
    rw [setGroup, List.zipIdx_append, List.foldlM_append] at done
    obtain ⟨middle, earlier, last⟩ := bind_eq_ok_iff.mp done
    obtain ⟨shape, held⟩ := ih earlier
    obtain ⟨filled, set, rest⟩ := bind_eq_ok_iff.mp last
    cases rest
    simp only [Nat.zero_add] at set
    obtain ⟨_, rfl⟩ := setServers_eq_ok_iff.mp set
    refine ⟨⟨shape.name, shape.partitions, shape.groups⟩, ?_⟩
    intro partition other
    rw [servers?_insert, held]
    by_cases same : other = group
    · simp only [same, and_true, if_true, List.getElem?_append]
      by_cases here : partition = slots.length
      · simp [here]
      · by_cases before : partition < slots.length
        · simp [here, before]
        · have last : partition - slots.length ≠ 0 := by omega
          simp [here, before, last]
    · simp [same]

def fillGroups (layout : Layout) (groups : List (List (List String))) : Except Error Layout :=
  groups.zipIdx.foldlM (fun layout group => layout.setGroup group.2 group.1) layout

theorem fillGroups_spec {layout next : Layout} {groups : List (List (List String))}
    (done : layout.fillGroups groups = .ok next) :
    SameShape next layout ∧ ∀ partition group, next.servers? partition group =
      ((groups[group]?).bind fun slots => slots[partition]?).or (layout.servers? partition group) := by
  induction groups using List.reverseRecOn generalizing next with
  | nil =>
    cases done
    exact ⟨⟨rfl, rfl, rfl⟩, fun partition group => by simp⟩
  | append_singleton groups slots ih =>
    rw [fillGroups, List.zipIdx_append, List.foldlM_append] at done
    obtain ⟨middle, earlier, last⟩ := bind_eq_ok_iff.mp done
    obtain ⟨shape, held⟩ := ih earlier
    obtain ⟨filled, set, rest⟩ := bind_eq_ok_iff.mp last
    cases rest
    simp only [Nat.zero_add] at set
    obtain ⟨same, now⟩ := setGroup_spec set
    refine ⟨same.trans shape, ?_⟩
    intro partition group
    rw [now, held]
    by_cases here : group = groups.length
    · simp [here]
    · rw [if_neg here]
      by_cases before : group < groups.length
      · simp [List.getElem?_append, before]
      · have last : group - groups.length ≠ 0 := by omega
        simp [List.getElem?_append, before, last]

theorem mem_flatServers {pool : List String} {kept : Option (List String)} {server : String} :
    server ∈ flatServers pool kept ↔ server ∈ pool := by
  cases kept with
  | none => rfl
  | some former =>
    by_cases stays : server ∈ former <;> simp [flatServers, stays]

theorem compute_flat_eq_ok_iff {name : String} {pool : List String} {settings : GroupSettings}
    {prior : Option Layout} {minimize : Bool} {next : Layout} (flat : ¬ settings.groupBased) :
    compute name pool settings prior minimize = .ok next ↔
      let kept := if minimize then prior else none
      pool ≠ [] ∧ single name (flatServers pool (kept.bind fun layout => layout.servers? 0 0)) =
        .ok next := by
  simp only [compute, List.isEmpty_iff]
  by_cases empty : pool = []
  · simp [empty]
  · simp [empty, flat]

theorem servers?_single {name : String} {servers : List String} {layout : Layout}
    (done : single name servers = .ok layout) : layout.servers? 0 0 = some servers := by
  obtain ⟨empty, created, set⟩ := bind_eq_ok_iff.mp done
  obtain ⟨_, rfl⟩ := setServers_eq_ok_iff.mp set
  rw [servers?_insert, if_pos ⟨rfl, rfl⟩]

/-- The slots of all groups of a computed layout. -/
def groupSlots (pool : List String) (settings : GroupSettings) (size perPartition : Nat)
    (kept : Option Layout) : List (List (List String)) :=
  (groups pool settings.numGroups size kept).zipIdx.map fun group =>
    slotsOf group.1 settings.numPartitions perPartition kept group.2

private theorem zipIdx_map_zipIdx (items : List α) (f : α × Nat → β) :
    (items.zipIdx.map f).zipIdx = items.zipIdx.map fun item => (f item, item.2) := by
  refine List.ext_getElem? fun index => ?_
  simp only [List.getElem?_zipIdx, List.getElem?_map, Option.map_map]
  cases items[index]? <;> simp

theorem compute_grouped_eq_ok_iff {name : String} {pool : List String} {settings : GroupSettings}
    {prior : Option Layout} {minimize : Bool} {next : Layout} (grouped : settings.groupBased) :
    compute name pool settings prior minimize = .ok next ↔
      let kept := if minimize then prior else none
      (pool ≠ [] ∧ settings.numGroups ≠ 0 ∧ settings.numPartitions ≠ 0) ∧
      ∃ size perPartition, groupSize name pool settings = .ok size ∧
        slotSize name ((groups pool settings.numGroups size kept).headD []).length settings =
          .ok perPartition ∧
        fillGroups ⟨name, settings.numPartitions, settings.numGroups, {}⟩
          (groupSlots pool settings size perPartition kept) = .ok next := by
  have filled : ∀ size perPartition kept layout,
      (groups pool settings.numGroups size kept).zipIdx.foldlM (fun layout group =>
          setGroup layout group.2
            (slotsOf group.1 settings.numPartitions perPartition kept group.2)) layout =
        fillGroups layout (groupSlots pool settings size perPartition kept) := by
    intro size perPartition kept layout
    rw [fillGroups, groupSlots, zipIdx_map_zipIdx, List.foldlM_map]
  simp only [compute, grouped, not_true_eq_false, if_false, List.isEmpty_iff]
  by_cases empty : pool = []
  · simp [empty]
  · by_cases counts : settings.numGroups = 0 ∨ settings.numPartitions = 0
    · rw [if_neg empty, if_pos counts]
      constructor
      · intro done
        cases done
      · rintro ⟨⟨_, groups, partitions⟩, _⟩
        omega
    · have positive : settings.numGroups ≠ 0 ∧ settings.numPartitions ≠ 0 := by omega
      have created : create name settings.numPartitions settings.numGroups =
          .ok ⟨name, settings.numPartitions, settings.numGroups, {}⟩ := by
        rw [create, if_neg (by omega)]
      rw [if_neg empty, if_neg counts]
      simp only [created, filled, bind_eq_ok_iff, exists_and_left]
      constructor
      · rintro ⟨size, sized, perPartition, slotted, _, same, done⟩
        cases same
        exact ⟨⟨empty, positive⟩, size, sized, perPartition, slotted, done⟩
      · rintro ⟨_, size, sized, perPartition, slotted, done⟩
        exact ⟨size, sized, perPartition, slotted, _, rfl, done⟩

theorem formerSlots_of_fillGroups {name : String} {numPartitions numGroups group : Nat}
    {groups : List (List (List String))} {slots : List (List String)} {next : Layout}
    (done : fillGroups ⟨name, numPartitions, numGroups, {}⟩ groups = .ok next)
    (listed : groups[group]? = some slots) (known : group < numGroups)
    (full : slots.length = numPartitions) : next.formerSlots numPartitions group = slots := by
  obtain ⟨shape, held⟩ := fillGroups_spec done
  refine List.ext_getElem (by simp [formerSlots, full]) fun partition here there => ?_
  have inside : group < next.numGroups ∧ partition < next.numPartitions := by
    rw [shape.groups, shape.partitions]
    exact ⟨known, full ▸ there⟩
  simp only [formerSlots, List.getElem_map, List.getElem_range, if_pos inside, held, listed,
    Option.bind_some, List.getElem?_eq_getElem there]
  rfl

theorem getElem?_groupSlots {pool : List String} {settings : GroupSettings}
    {size perPartition group : Nat} {kept : Option Layout} {members : List String}
    (listed : (groups pool settings.numGroups size kept)[group]? = some members) :
    (groupSlots pool settings size perPartition kept)[group]? =
      some (slotsOf members settings.numPartitions perPartition kept group) := by
  simp [groupSlots, List.getElem?_zipIdx, listed]

theorem subset_group_of_slot {name : String} {pool : List String} {settings : GroupSettings}
    {size perPartition partition group : Nat} {kept : Option Layout} {layout : Layout}
    {servers : List String} (distinct : pool.Nodup)
    (sized : groupSize name pool settings = .ok size) (fits : perPartition ≤ size)
    (filled : fillGroups ⟨name, settings.numPartitions, settings.numGroups, {}⟩
      (groupSlots pool settings size perPartition kept) = .ok layout)
    (held : layout.servers? partition group = some servers) :
    ∃ members, (groups pool settings.numGroups size kept)[group]? = some members ∧
      servers ⊆ members := by
  obtain ⟨_, slots⟩ := fillGroups_spec filled
  have stored := (slots partition group).symm.trans held
  cases listed : (groups pool settings.numGroups size kept)[group]? with
  | none =>
    have beyond : (groupSlots pool settings size perPartition kept)[group]? = none := by
      simp [groupSlots, List.getElem?_zipIdx, listed]
    rw [beyond] at stored
    cases stored
  | some members =>
    obtain ⟨_, length, _⟩ := (groups_spec distinct sized kept).2 members
      (List.mem_of_getElem? listed)
    rw [getElem?_groupSlots listed, Option.bind_some, slotsOf_eq, List.getElem?_map] at stored
    cases slot : (slotPositions members settings.numPartitions perPartition kept group)[partition]?
      with
    | none =>
      rw [slot] at stored
      cases stored
    | some positions =>
      rw [slot] at stored
      cases stored
      exact ⟨members, rfl, namesAt_subset
        (mem_slotPositions (length ▸ fits) (List.mem_of_getElem? slot)).2.1⟩

theorem slotSize_le {name : String} {size perPartition : Nat} {settings : GroupSettings}
    (slotted : slotSize name size settings = .ok perPartition) : perPartition ≤ size := by
  unfold slotSize at slotted
  split at slotted
  · cases slotted
    exact Nat.le_refl _
  · split at slotted
    · cases slotted
    · rename_i fits
      cases slotted
      exact Nat.le_of_not_lt fits

/-- Every slot of a partition has as many servers as the others. -/
def Uniform (layout : Layout) : Prop :=
  ∀ partition < layout.numPartitions, ∃ size, 0 < size ∧ ∀ group < layout.numGroups,
    ∃ servers, layout.servers? partition group = some servers ∧ servers.length = size

/-- The lists of all partitions and groups are there, and equally long. -/
def Sized (layout : Layout) (size : Nat) : Prop :=
  ∀ partition < layout.numPartitions, ∀ group < layout.numGroups,
    (layout.servers? partition group).map List.length = some size

instance decidableSized (layout : Layout) (size : Nat) : Decidable (layout.Sized size) :=
  inferInstanceAs (Decidable (∀ partition < layout.numPartitions, _))

theorem Sized.uniform {layout : Layout} {size : Nat} (sized : layout.Sized size)
    (valid : layout.Valid) : layout.Uniform := by
  intro partition known
  obtain ⟨servers, found, some⟩ := valid.filled partition known 0 valid.groups
  have length := sized partition known 0 valid.groups
  rw [found] at length
  cases length
  exact ⟨servers.length, List.length_pos_iff.mpr some, fun group inside =>
    Option.map_eq_some_iff.mp (sized partition known group inside)⟩

def Repeats (layout : Layout) : Prop :=
  ∃ key servers, layout.slots.get? key = some servers ∧ ¬ servers.Nodup

private theorem not_repeats_of_setServers {layout next : Layout} {partition group : Nat}
    {servers : List String} (before : ¬ layout.Repeats)
    (done : layout.setServers partition group servers = .ok next) : ¬ next.Repeats := by
  obtain ⟨⟨_, _, _, distinct⟩, rfl⟩ := setServers_eq_ok_iff.mp done
  rintro ⟨other, stored, found, repeats⟩
  rw [OrderedMap.get?_insert] at found
  split at found
  · cases found
    exact repeats distinct
  · exact before ⟨other, stored, found, repeats⟩

theorem not_repeats_of_fillGroups {layout next : Layout} {groups : List (List (List String))}
    (before : ¬ layout.Repeats) (done : layout.fillGroups groups = .ok next) : ¬ next.Repeats :=
  foldlM_keeps (fun layout => ¬ layout.Repeats) (fun _ _ _ before done =>
    foldlM_keeps (fun layout => ¬ layout.Repeats)
      (fun _ _ _ before done => not_repeats_of_setServers before done) before done) before done

private theorem not_repeats_empty (name : String) (numPartitions numGroups : Nat) :
    ¬ Repeats ⟨name, numPartitions, numGroups, {}⟩ := by
  rintro ⟨key, servers, found, _⟩
  cases found

theorem single_spec {name : String} {servers : List String} {layout : Layout}
    (done : single name servers = .ok layout) :
    SameShape layout ⟨name, 1, 1, {}⟩ ∧ layout.Uniform ∧ layout.Valid := by
  have listed := servers?_single done
  obtain ⟨empty, created, set⟩ := bind_eq_ok_iff.mp done
  cases created
  have distinct := not_repeats_of_setServers (not_repeats_empty _ _ _) set
  obtain ⟨⟨_, _, some, _⟩, rfl⟩ := setServers_eq_ok_iff.mp set
  have only : ∀ partition < 1, ∀ group < 1, partition = 0 ∧ group = 0 := by omega
  refine ⟨⟨rfl, rfl, rfl⟩, fun partition known => ?_, ⟨Nat.one_pos, Nat.one_pos, ?_, ?_⟩⟩
  · refine ⟨servers.length, List.length_pos_iff.mpr some, fun group inside => ⟨servers, ?_, rfl⟩⟩
    obtain ⟨rfl, rfl⟩ := only partition known group inside
    exact listed
  · intro partition known group inside
    obtain ⟨rfl, rfl⟩ := only partition known group inside
    exact ⟨servers, listed, some⟩
  · exact fun key stored found => by_contra fun repeats => distinct ⟨key, stored, found, repeats⟩

theorem headD_groups_length {name : String} {pool : List String} {settings : GroupSettings}
    {size : Nat} (distinct : pool.Nodup) (sized : groupSize name pool settings = .ok size)
    (positive : settings.numGroups ≠ 0) (kept : Option Layout) :
    ((groups pool settings.numGroups size kept).headD []).length = size := by
  obtain ⟨count, sound⟩ := groups_spec distinct sized kept
  cases listed : groups pool settings.numGroups size kept with
  | nil =>
    rw [listed] at count
    exact absurd count.symm positive
  | cons first rest => exact (sound first (by simp [listed])).2.1

theorem slotSize_pos {name : String} {size perPartition : Nat} {settings : GroupSettings}
    (positive : 0 < size) (slotted : slotSize name size settings = .ok perPartition) :
    0 < perPartition := by
  unfold slotSize at slotted
  split at slotted
  · cases slotted
    exact positive
  · rename_i some
    split at slotted
    · cases slotted
    · cases slotted
      exact Nat.pos_of_ne_zero some

/-- A computed layout is the table of its slots, and all of them have one size. -/
theorem compute_grouped_spec {name : String} {pool : List String} {settings : GroupSettings}
    {prior : Option Layout} {minimize : Bool} {layout : Layout} (distinct : pool.Nodup)
    (grouped : settings.groupBased)
    (done : compute name pool settings prior minimize = .ok layout) :
    ∃ size perPartition, groupSize name pool settings = .ok size ∧
      slotSize name size settings = .ok perPartition ∧ 0 < perPartition ∧ perPartition ≤ size ∧
      fillGroups ⟨name, settings.numPartitions, settings.numGroups, {}⟩
        (groupSlots pool settings size perPartition (if minimize then prior else none)) =
          .ok layout ∧
      ∀ partition < settings.numPartitions, ∀ group < settings.numGroups,
        ∃ servers, layout.servers? partition group = some servers ∧
          servers.length = perPartition := by
  obtain ⟨⟨_, groups, _⟩, size, perPartition, sized, slotted, filled⟩ :=
    (compute_grouped_eq_ok_iff grouped).mp done
  rw [headD_groups_length distinct sized groups] at slotted
  refine ⟨size, perPartition, sized, slotted, slotSize_pos ((groupSize_eq_ok sized).2 groups) slotted,
    slotSize_le slotted, filled, ?_⟩
  intro partition known group inside
  obtain ⟨count, sound⟩ := groups_spec distinct sized (if minimize then prior else none)
  obtain ⟨_, held⟩ := fillGroups_spec filled
  obtain ⟨members, listed⟩ : ∃ members, (Layout.groups pool settings.numGroups size
      (if minimize then prior else none))[group]? = some members :=
    ⟨_, List.getElem?_eq_getElem (count.symm ▸ inside)⟩
  obtain ⟨_, length, _⟩ := sound members (List.mem_of_getElem? listed)
  obtain ⟨positions, slot⟩ : ∃ positions, (slotPositions members settings.numPartitions
      perPartition (if minimize then prior else none) group)[partition]? = some positions :=
    ⟨_, List.getElem?_eq_getElem (by rw [length_slotPositions]; exact known)⟩
  obtain ⟨_, _, full⟩ := mem_slotPositions (length ▸ slotSize_le slotted)
    (List.mem_of_getElem? slot)
  rw [held, getElem?_groupSlots listed, Option.bind_some, slotsOf_eq, List.getElem?_map, slot]
  exact ⟨_, rfl, (length_namesAt ..).trans full⟩

/-- Computed layouts pass their checks. -/
theorem compute_spec {name : String} {pool : List String} {settings : GroupSettings}
    {prior : Option Layout} {minimize : Bool} {layout : Layout} (distinct : pool.Nodup)
    (done : compute name pool settings prior minimize = .ok layout) :
    layout.name = name ∧ layout.Uniform ∧ layout.Valid := by
  by_cases grouped : settings.groupBased
  · obtain ⟨⟨_, groups, partitions⟩, _⟩ := (compute_grouped_eq_ok_iff grouped).mp done
    obtain ⟨size, perPartition, _, _, positive, _, filled, held⟩ :=
      compute_grouped_spec distinct grouped done
    obtain ⟨⟨named, known, counted⟩, _⟩ := fillGroups_spec filled
    simp only at known counted
    have distinct := not_repeats_of_fillGroups (not_repeats_empty _ _ _) filled
    rw [← known, ← counted] at held
    refine ⟨named, fun partition inside => ⟨perPartition, positive, held partition inside⟩,
      ⟨?_, ?_, ?_, ?_⟩⟩
    · exact known ▸ Nat.pos_of_ne_zero partitions
    · exact counted ▸ Nat.pos_of_ne_zero groups
    · intro partition inside group below
      obtain ⟨servers, listed, length⟩ := held partition inside group below
      exact ⟨servers, listed, List.length_pos_iff.mp (length ▸ positive)⟩
    · exact fun key stored found =>
        by_contra fun repeats => distinct ⟨key, stored, found, repeats⟩
  · obtain ⟨_, filled⟩ := (compute_flat_eq_ok_iff grouped).mp done
    obtain ⟨shape, uniform, valid⟩ := single_spec filled
    exact ⟨shape.name, uniform, valid⟩

end SegmentPlacement.Layout

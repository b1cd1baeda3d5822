import SegmentPlacement.Proofs.ComputedLayout

/-! Replica groups that mirror each other. A segment that takes an index has a
replica at that index of every group, so the servers there have to be distinct.
They are if the groups share no server. Groups that are windows around the pool
share servers, and then everything depends on where the windows begin. -/

namespace SegmentPlacement.Layout

def serverAt? (layout : Layout) (partition group index : Nat) : Option String :=
  (layout.servers? partition group).bind fun servers => servers[index]?

/-- No server stands at one index of two groups of a partition. -/
def Mirrors (layout : Layout) : Prop :=
  ∀ partition < layout.numPartitions, ∀ first < layout.numGroups, ∀ second < layout.numGroups,
    ∀ index server, layout.serverAt? partition first index = some server →
      layout.serverAt? partition second index = some server → first = second

theorem steps_apart_iff {count step size : Nat} (positive : 0 < size) :
    (∀ first < count, ∀ second < count,
        first * step ≡ second * step [MOD size] → first = second) ↔
      count * Nat.gcd step size ≤ size := by
  have divides : Nat.gcd step size ∣ size := Nat.gcd_dvd_right ..
  have some : 0 < Nat.gcd step size := Nat.gcd_pos_of_pos_right _ positive
  rw [← Nat.le_div_iff_mul_le some]
  constructor
  · intro apart
    by_contra crowded
    -- after `size / gcd` steps the ring has been gone around completely
    have back : 0 * step ≡ size / Nat.gcd step size * step [MOD size] := by
      obtain ⟨times, same⟩ := Nat.gcd_dvd_left step size
      have turns : size / Nat.gcd step size * step = size * times :=
        calc size / Nat.gcd step size * step
          _ = size / Nat.gcd step size * (Nat.gcd step size * times) := congrArg _ same
          _ = size * times := by rw [← Nat.mul_assoc, Nat.div_mul_cancel divides]
      rw [turns, Nat.zero_mul]
      exact (Nat.modEq_zero_iff_dvd.mpr (Nat.dvd_mul_right ..)).symm
    have more := Nat.not_le.mp crowded
    have none := apart 0 (Nat.zero_lt_of_lt more) _ more back
    exact absurd none.symm (Nat.div_pos (Nat.le_of_dvd positive divides) some).ne'
  · intro room first known second also same
    rw [Nat.gcd_comm] at room
    exact (same.cancel_right_div_gcd positive).eq_of_lt_of_lt (Nat.lt_of_lt_of_le known room)
      (Nat.lt_of_lt_of_le also room)

section

variable {name : String} {pool : List String} {settings : GroupSettings} {kept : Option Layout}
  {size perPartition : Nat} {layout : Layout}

theorem serverAt?_eq_some_iff
    (filled : fillGroups ⟨name, settings.numPartitions, settings.numGroups, {}⟩
      (groupSlots pool settings size perPartition kept) = .ok layout)
    {partition group index : Nat} {server : String} :
    layout.serverAt? partition group index = some server ↔
      ∃ members, (groups pool settings.numGroups size kept)[group]? = some members ∧
        ∃ positions, (slotPositions members settings.numPartitions perPartition kept
            group)[partition]? = some positions ∧
          ∃ position, positions[index]? = some position ∧ members.getD position "" = server := by
  obtain ⟨_, held⟩ := fillGroups_spec filled
  have empty : (⟨name, settings.numPartitions, settings.numGroups, {}⟩ : Layout).servers?
      partition group = none := rfl
  rw [serverAt?, held, empty, Option.or_none]
  cases listed : (groups pool settings.numGroups size kept)[group]? with
  | none => simp [groupSlots, List.getElem?_zipIdx, listed]
  | some members =>
    rw [getElem?_groupSlots listed, Option.bind_some, slotsOf_eq]
    simp only [List.getElem?_map, Option.bind_eq_some_iff, Option.map_eq_some_iff, namesAt,
      Option.some.injEq, exists_eq_left']
    constructor
    · rintro ⟨_, ⟨positions, found, rfl⟩, here⟩
      rw [List.getElem?_map] at here
      obtain ⟨position, at_, named⟩ := Option.map_eq_some_iff.mp here
      exact ⟨positions, found, position, at_, named⟩
    · rintro ⟨positions, found, position, at_, named⟩
      refine ⟨_, ⟨positions, found, rfl⟩, ?_⟩
      rw [List.getElem?_map, at_, Option.map_some, named]

theorem eq_of_mem_groups (distinct : pool.Nodup)
    (room : size * settings.numGroups ≤ pool.length) {first second : Nat}
    {members others : List String} {server : String}
    (listed : (groups pool settings.numGroups size kept)[first]? = some members)
    (also : (groups pool settings.numGroups size kept)[second]? = some others)
    (here : server ∈ members) (there : server ∈ others) : first = second := by
  obtain ⟨_, grouping, _⟩ := groups_grouping distinct room kept
  have apart := List.pairwise_iff_getElem.mp (List.nodup_flatten.mp grouping.distinct).2
  obtain ⟨below, rfl⟩ := List.getElem?_eq_some_iff.mp listed
  obtain ⟨within, rfl⟩ := List.getElem?_eq_some_iff.mp also
  rcases Nat.lt_trichotomy first second with less | same | more
  · exact absurd there (apart first second below within less here)
  · exact same
  · exact absurd here (apart second first within below more there)

/-- Groups that share no server mirror each other. -/
theorem mirrors_of_room (distinct : pool.Nodup)
    (sized : groupSize name pool settings = .ok size) (fits : perPartition ≤ size)
    (room : size * settings.numGroups ≤ pool.length)
    (filled : fillGroups ⟨name, settings.numPartitions, settings.numGroups, {}⟩
      (groupSlots pool settings size perPartition kept) = .ok layout) : layout.Mirrors := by
  obtain ⟨_, sound⟩ := groups_spec distinct sized kept
  have member : ∀ {partition group index server},
      layout.serverAt? partition group index = some server →
      ∃ members, (groups pool settings.numGroups size kept)[group]? = some members ∧
        server ∈ members := by
    intro partition group index server found
    obtain ⟨members, listed, positions, slot, position, at_, rfl⟩ :=
      (serverAt?_eq_some_iff filled).mp found
    obtain ⟨_, length, _⟩ := sound members (List.mem_of_getElem? listed)
    obtain ⟨_, inside, _⟩ := mem_slotPositions (length ▸ fits) (List.mem_of_getElem? slot)
    exact ⟨members, listed, getD_mem (inside position (List.mem_of_getElem? at_))⟩
  intro partition _ first _ second _ index server here there
  obtain ⟨members, listed, inFirst⟩ := member here
  obtain ⟨others, also, inSecond⟩ := member there
  exact eq_of_mem_groups distinct room listed also inFirst inSecond

/-- The servers that a layout has in the slots of each group stand at the same positions of the
group as in the first group. -/
def KeepsAlike (prior : Layout) (groups : List (List String)) (numPartitions : Nat) : Prop :=
  ∀ group members first, groups[group]? = some members → groups[0]? = some first →
    (prior.formerSlots numPartitions group).map (List.filterMap members.idxOf?) =
      (prior.formerSlots numPartitions 0).map (List.filterMap first.idxOf?)

private theorem keptSlot_congr {members others : List String} {share : Nat} {loads : Loads}
    {former foreign : List String}
    (same : former.filterMap members.idxOf? = foreign.filterMap others.idxOf?) :
    keptSlot members share perPartition loads former =
      keptSlot others share perPartition loads foreign := by
  have byPosition : ∀ members former, keptSlot members share perPartition loads former =
      (former.filterMap members.idxOf?).foldl (fun state position =>
        if state.1.length < perPartition ∧ ¬ state.1.contains position ∧
          state.2.carried position < share
        then (state.1 ++ [position], Loads.add state.2 position)
        else state) ([], loads) := by
    intro members former
    rw [List.foldl_filterMap, keptSlot]
    congr 1
    funext state server
    cases members.idxOf? server <;> rfl
  rw [byPosition, byPosition, same]

private theorem keptSlots_congr {members others : List String} {share : Nat}
    {former foreign : List (List String)} (loads : Loads)
    (same : former.map (List.filterMap members.idxOf?) =
      foreign.map (List.filterMap others.idxOf?)) :
    keptSlots members share perPartition loads former =
      keptSlots others share perPartition loads foreign := by
  induction former generalizing foreign loads with
  | nil =>
    obtain rfl := List.map_eq_nil_iff.mp same.symm
    rfl
  | cons slot rest ih =>
    obtain ⟨other, others, rfl, equal, later⟩ := List.map_eq_cons_iff.mp same.symm
    simp only [keptSlots, keptSlot_congr equal.symm, ih _ later.symm]

/-- Slots with the same positions kept are filled up in the same way. -/
theorem slotPositions_alike {groups : List (List String)}
    (alike : ∀ prior, kept = some prior → KeepsAlike prior groups settings.numPartitions)
    (equal : ∀ members ∈ groups, members.length = size) {group : Nat} {members first : List String}
    (listed : groups[group]? = some members) (front : groups[0]? = some first) :
    slotPositions members settings.numPartitions perPartition kept group =
      slotPositions first settings.numPartitions perPartition kept 0 := by
  have same : members.length = first.length :=
    (equal members (List.mem_of_getElem? listed)).trans
      (equal first (List.mem_of_getElem? front)).symm
  cases kept with
  | none => simp only [slotPositions, same]
  | some prior =>
    have former := alike prior rfl group members first listed front
    simp only [slotPositions, slotShare, same, keptSlots_congr _ former]

private theorem getD_windowGroups {numGroups group : Nat} {members : List String}
    (listed : (windowGroups pool numGroups size)[group]? = some members) {position : Nat}
    (inside : position < members.length) :
    members.getD position "" = pool.getD ((group * size + position) % pool.length) "" := by
  obtain ⟨below, rfl⟩ := List.getElem?_eq_some_iff.mp listed
  simp only [windowGroups, List.getElem_map, List.getElem_range, List.length_map,
    List.length_range] at inside ⊢
  rw [List.getD_eq_getElem _ _ (by simpa using inside), List.getElem_map, List.getElem_range]
  rfl

private theorem serverAt?_of_crowded (distinct : pool.Nodup)
    (sized : groupSize name pool settings = .ok size) (fits : perPartition ≤ size)
    (crowded : pool.length < size * settings.numGroups)
    (alike : ∀ prior, kept = some prior →
      KeepsAlike prior (windowGroups pool settings.numGroups size) settings.numPartitions)
    (filled : fillGroups ⟨name, settings.numPartitions, settings.numGroups, {}⟩
      (groupSlots pool settings size perPartition kept) = .ok layout) :
    ∃ slots : List (List Nat), slots.length = settings.numPartitions ∧
      (∀ positions ∈ slots, positions.length = perPartition) ∧
      ∀ group < settings.numGroups, ∀ partition index,
        layout.serverAt? partition group index =
          (slots[partition]?.bind fun positions => positions[index]?).map fun position =>
            pool.getD ((group * size + position) % pool.length) "" := by
  have windows : groups pool settings.numGroups size kept =
      windowGroups pool settings.numGroups size := by
    unfold groups
    rw [if_pos crowded]
  obtain ⟨count, sound⟩ := groups_spec distinct sized kept
  rw [windows] at count sound
  have listed : ∀ group < settings.numGroups, ∃ members,
      (windowGroups pool settings.numGroups size)[group]? = some members ∧
        members.length = size := by
    intro group known
    have inside := List.getElem?_eq_getElem (count.symm ▸ known)
    exact ⟨_, inside, (sound _ (List.mem_of_getElem? inside)).2.1⟩
  have positive : 0 < settings.numGroups :=
    Nat.pos_of_ne_zero fun none => by simp [none] at crowded
  obtain ⟨first, front, length⟩ := listed 0 positive
  have inside : ∀ positions ∈ slotPositions first settings.numPartitions perPartition kept 0,
      (∀ position ∈ positions, position < first.length) ∧ positions.length = perPartition :=
    fun positions member => (mem_slotPositions (length.symm ▸ fits) member).2
  refine ⟨slotPositions first settings.numPartitions perPartition kept 0,
    length_slotPositions .., fun positions member => (inside positions member).2, ?_⟩
  intro group known partition index
  obtain ⟨members, here, same⟩ := listed group known
  have positionsHere : slotPositions members settings.numPartitions perPartition kept group =
      slotPositions first settings.numPartitions perPartition kept 0 :=
    slotPositions_alike alike (fun members member => (sound members member).2.1) here front
  refine Option.ext fun server => ?_
  rw [serverAt?_eq_some_iff filled, windows, here]
  simp only [Option.some.injEq, exists_eq_left', positionsHere, Option.map_eq_some_iff,
    Option.bind_eq_some_iff]
  have named : ∀ {positions position},
      (slotPositions first settings.numPartitions perPartition kept 0)[partition]? =
        some positions → positions[index]? = some position →
      members.getD position "" = pool.getD ((group * size + position) % pool.length) "" := by
    intro positions position slot at_
    have below := (inside positions (List.mem_of_getElem? slot)).1 position
      (List.mem_of_getElem? at_)
    exact getD_windowGroups here (by rw [same, ← length]; exact below)
  constructor
  · rintro ⟨positions, slot, position, at_, rfl⟩
    exact ⟨position, ⟨positions, slot, at_⟩, (named slot at_).symm⟩
  · rintro ⟨position, ⟨positions, slot, at_⟩, rfl⟩
    exact ⟨positions, slot, position, at_, named slot at_⟩

/-- Windows mirror each other exactly if no two of them begin at the same server. -/
theorem mirrors_iff_of_crowded (distinct : pool.Nodup) (some : pool ≠ [])
    (sized : groupSize name pool settings = .ok size) (fits : perPartition ≤ size)
    (counts : 0 < settings.numPartitions ∧ 0 < perPartition)
    (crowded : pool.length < size * settings.numGroups)
    (alike : ∀ prior, kept = .some prior →
      KeepsAlike prior (windowGroups pool settings.numGroups size) settings.numPartitions)
    (filled : fillGroups ⟨name, settings.numPartitions, settings.numGroups, {}⟩
      (groupSlots pool settings size perPartition kept) = .ok layout) :
    layout.Mirrors ↔ settings.numGroups * Nat.gcd size pool.length ≤ pool.length := by
  obtain ⟨slots, partitions, sizes, held⟩ :=
    serverAt?_of_crowded distinct sized fits crowded alike filled
  have positive : 0 < pool.length := List.length_pos_iff.mpr some
  obtain ⟨shape, _⟩ := fillGroups_spec filled
  have wraps : ∀ number, number % pool.length < pool.length := fun _ => Nat.mod_lt _ positive
  rw [← steps_apart_iff positive, Mirrors, shape.groups, shape.partitions]
  constructor
  · intro mirrors first known second also same
    obtain ⟨positions, slot⟩ : ∃ positions, slots[0]? = .some positions :=
      ⟨_, List.getElem?_eq_getElem (partitions.symm ▸ counts.1)⟩
    obtain ⟨position, at_⟩ : ∃ position, positions[0]? = .some position :=
      ⟨_, List.getElem?_eq_getElem ((sizes _ (List.mem_of_getElem? slot)).symm ▸ counts.2)⟩
    have front : ∀ group < settings.numGroups, layout.serverAt? 0 group 0 =
        .some (pool.getD ((group * size + position) % pool.length) "") := by
      intro group known
      rw [held group known, slot, Option.bind_some, at_, Option.map_some]
    refine mirrors 0 counts.1 first known second also 0 _ (front first known) ?_
    rw [front second also, Option.some.injEq]
    exact congrArg (pool.getD · "") (Nat.ModEq.add_right _ same.symm)
  · intro apart partition _ first known second also index server here there
    rw [held first known] at here
    rw [held second also] at there
    obtain ⟨position, at_, rfl⟩ := Option.map_eq_some_iff.mp here
    rw [at_, Option.map_some, Option.some.injEq] at there
    have same := getD_inj distinct (wraps _) (wraps _) there
    exact apart first known second also (Nat.ModEq.add_right_cancel' position same).symm

end

end SegmentPlacement.Layout

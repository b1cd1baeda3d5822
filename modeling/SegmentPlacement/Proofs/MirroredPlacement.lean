import SegmentPlacement.Placement.Target
import SegmentPlacement.Proofs.LayoutMirrors

/-! Placement by a layout that is not flat. A segment takes one index, and its
replicas are the servers at that index of all groups of its partition. It has as
many replicas as there are groups, and they are distinct if the groups mirror
each other. -/

namespace SegmentPlacement

namespace Layout

def listsOf (layout : Layout) (partition : Nat) : List (List String) :=
  (List.range layout.numGroups).map fun group => (layout.servers? partition group).getD []

theorem length_headD_of_uniform {lists : List (List String)} {size : Nat} (some : lists ≠ [])
    (uniform : ∀ list ∈ lists, list.length = size) : (lists.headD []).length = size := by
  cases lists with
  | nil => exact absurd rfl some
  | cons first rest => exact uniform first List.mem_cons_self

theorem partitionLists_of_lengths {layout : Layout} (valid : layout.Valid) {partition : Nat}
    (known : partition < layout.numPartitions)
    (equal : ∀ list ∈ layout.listsOf partition,
      list.length = ((layout.listsOf partition).headD []).length) :
    layout.partitionLists partition = .ok (layout.listsOf partition) := by
  have all : ((layout.listsOf partition).all fun list =>
      list.length = ((layout.listsOf partition).headD []).length) = true :=
    List.all_eq_true.mpr fun list member => decide_eq_true (equal list member)
  refine bind_eq_ok_iff.mpr ⟨layout.listsOf partition, ?_, if_pos all⟩
  refine mapM_eq_ok_of_forall fun group inside => ?_
  obtain ⟨servers, found, _⟩ := valid.filled partition known group (List.mem_range.mp inside)
  simp only [found, Option.getD_some]

theorem partitionLists_of_uniform {layout : Layout} (valid : layout.Valid)
    (uniform : layout.Uniform) {partition : Nat} (known : partition < layout.numPartitions) :
    layout.partitionLists partition = .ok (layout.listsOf partition) ∧
      0 < ((layout.listsOf partition).headD []).length ∧
      ∀ list ∈ layout.listsOf partition,
        list.length = ((layout.listsOf partition).headD []).length := by
  obtain ⟨size, positive, held⟩ := uniform partition known
  have equal : ∀ list ∈ layout.listsOf partition, list.length = size := by
    intro list member
    obtain ⟨group, inside, rfl⟩ := List.mem_map.mp member
    obtain ⟨servers, found, length⟩ := held group (List.mem_range.mp inside)
    rw [found, Option.getD_some, length]
  have front : ((layout.listsOf partition).headD []).length = size :=
    length_headD_of_uniform (by simp [listsOf, valid.groups.ne']) equal
  have lengths := fun list member => (equal list member).trans front.symm
  exact ⟨partitionLists_of_lengths valid known lengths, front ▸ positive, lengths⟩

theorem serversAt_of_mirrors {layout : Layout} (valid : layout.Valid) (uniform : layout.Uniform)
    (mirrors : layout.Mirrors) {partition index : Nat} (known : partition < layout.numPartitions)
    (inside : index < ((layout.listsOf partition).headD []).length) :
    let servers := Aligned.serversAt (layout.listsOf partition) index
    servers.length = layout.numGroups ∧ servers.Nodup := by
  intro servers
  obtain ⟨_, _, equal⟩ := partitionLists_of_uniform valid uniform known
  refine ⟨by simp [servers, Aligned.serversAt, listsOf], ?_⟩
  have named : ∀ group < layout.numGroups, layout.serverAt? partition group index =
      some (((layout.servers? partition group).getD []).getD index "") := by
    intro group below
    have long := equal _ (List.mem_map.mpr ⟨group, List.mem_range.mpr below, rfl⟩)
    cases found : layout.servers? partition group with
    | none =>
      rw [found, Option.getD_none, List.length_nil] at long
      omega
    | some list =>
      rw [found, Option.getD_some] at long
      have within : index < list.length := long ▸ inside
      rw [serverAt?, found, Option.bind_some, Option.getD_some, List.getElem?_eq_getElem within,
        List.getD_eq_getElem _ _ within]
  simp only [servers, Aligned.serversAt, listsOf, List.map_map]
  refine List.nodup_range.map_on fun first below second within same => ?_
  rw [List.mem_range] at below within
  refine mirrors partition known first below second within index _ (named first below) ?_
  rw [named second within]
  exact congrArg some same.symm

end Layout

namespace Aligned

theorem bestIndex?_lt {lists : List (List String)} {slots index : Nat} {replicas : Replicas}
    (best : bestIndex? lists slots replicas = some index) : index < slots :=
  List.mem_range.mp (List.mem_filter.mp (greatestOf_spec best).1).1

theorem keepIndices_spec {share : Share} {loads after : Loads} {best kept : List (Option Nat)}
    (result : keepIndices share loads best = (kept, after)) :
    kept.length = best.length ∧ after.length = loads.length ∧
      ∀ index, some index ∈ kept → some index ∈ best := by
  induction best generalizing share loads kept after with
  | nil =>
    cases result
    exact ⟨rfl, rfl, fun _ member => member⟩
  | cons first rest ih =>
    cases first with
    | none =>
      rcases later : keepIndices share loads rest with ⟨others, final⟩
      simp only [keepIndices, later, Prod.mk.injEq] at result
      obtain ⟨rfl, rfl⟩ := result
      obtain ⟨length, loads, part⟩ := ih later
      refine ⟨congrArg (· + 1) length, loads, fun index member => ?_⟩
      exact List.mem_cons_of_mem _ (part index (by simpa using member))
    | some index =>
      cases allowed : share.keep? (loads.carried index) with
      | none =>
        rcases later : keepIndices share loads rest with ⟨others, final⟩
        simp only [keepIndices, allowed, later, Prod.mk.injEq] at result
        obtain ⟨rfl, rfl⟩ := result
        obtain ⟨length, loads, part⟩ := ih later
        refine ⟨congrArg (· + 1) length, loads, fun index member => ?_⟩
        exact List.mem_cons_of_mem _ (part index (by simpa using member))
      | some left =>
        rcases later : keepIndices left (loads.add index) rest with ⟨others, final⟩
        simp only [keepIndices, allowed, later, Prod.mk.injEq] at result
        obtain ⟨rfl, rfl⟩ := result
        obtain ⟨length, loads, part⟩ := ih later
        refine ⟨congrArg (· + 1) length, by rw [loads, Loads.length_add], fun other member => ?_⟩
        rcases List.mem_cons.mp member with same | member
        · exact same ▸ List.mem_cons_self
        · exact List.mem_cons_of_mem _ (part other member)

theorem fillIndices_spec {loads : Loads} {kept : List (Option Nat)} (some : 0 < loads.length)
    (below : ∀ index, .some index ∈ kept → index < loads.length) :
    (fillIndices loads kept).length = kept.length ∧
      ∀ index ∈ fillIndices loads kept, index < loads.length := by
  induction kept generalizing loads with
  | nil => exact ⟨rfl, fun _ member => absurd member List.not_mem_nil⟩
  | cons first rest ih =>
    have later := fun index member => below index (List.mem_cons_of_mem first member)
    cases first with
    | some index =>
      obtain ⟨length, inside⟩ := ih some later
      exact ⟨congrArg (· + 1) length, List.forall_mem_cons.mpr
        ⟨below index List.mem_cons_self, inside⟩⟩
    | none =>
      have grown : (loads.add ((loads.least? []).getD 0)).length = loads.length :=
        Loads.length_add ..
      obtain ⟨length, inside⟩ := ih (grown.symm ▸ some) (by rw [grown]; exact later)
      rw [grown] at inside
      refine ⟨congrArg (· + 1) length, List.forall_mem_cons.mpr ⟨?_, inside⟩⟩
      cases least : loads.least? [] with
      | none => exact some
      | some index => exact (Loads.least?_eq_some_iff.mp least).1.1

theorem balancedIndices_spec {slots : Nat} {best : List (Option Nat)} (some : 0 < slots)
    (below : ∀ index, .some index ∈ best → index < slots) :
    (balancedIndices slots best).length = best.length ∧
      ∀ index ∈ balancedIndices slots best, index < slots := by
  rcases result : keepIndices (Share.divide best.length slots) (Loads.zero slots) best with
    ⟨kept, loads⟩
  obtain ⟨length, same, part⟩ := keepIndices_spec result
  rw [Loads.length_zero] at same
  have kept_below : ∀ index, .some index ∈ kept → index < loads.length :=
    fun index member => same.symm ▸ below index (part index member)
  obtain ⟨filled, inside⟩ := fillIndices_spec (same.symm ▸ some) kept_below
  simp only [balancedIndices, result]
  exact ⟨filled.trans length, same ▸ inside⟩

end Aligned

namespace TableConfig
open Aligned

variable {layout : Layout} {partition : Nat}

theorem alignedIndices_spec (table : TableConfig) (layout : Layout) {lists : List (List String)}
    (some : 0 < (lists.headD []).length) (members : List Member) (prior : Assignment) :
    (table.alignedIndices layout lists members prior).length = members.length ∧
      ∀ index ∈ table.alignedIndices layout lists members prior,
        index < (lists.headD []).length := by
  simp only [alignedIndices]
  split
  · refine ⟨List.length_map _, fun index member => ?_⟩
    obtain ⟨_, _, rfl⟩ := List.mem_map.mp member
    exact Nat.mod_lt _ some
  · have below : ∀ index, .some index ∈ members.map (fun member =>
        (prior.get? member.name).bind (bestIndex? lists (lists.headD []).length)) →
        index < (lists.headD []).length := by
      intro index chosen
      obtain ⟨member, _, best⟩ := List.mem_map.mp chosen
      obtain ⟨_, _, found⟩ := Option.bind_eq_some_iff.mp best
      exact bestIndex?_lt found
    have spec := balancedIndices_spec some below
    rwa [List.length_map] at spec

def mirrored (table : TableConfig) (layout : Layout) (prior : Assignment) (members : List Member)
    (partition : Nat) : List (String × List String) :=
  let residents := members.filter fun member =>
    member.partition % layout.numPartitions = partition
  let lists := layout.listsOf partition
  (residents.map Member.name).zip
    ((table.alignedIndices layout lists residents prior).map (serversAt lists))

theorem mem_partitions {members : List Member} :
    partition ∈ (OrderedMap.ofKeys (members.map fun member =>
        member.partition % layout.numPartitions)).keys ↔
      ∃ member ∈ members, member.partition % layout.numPartitions = partition := by
  rw [OrderedMap.mem_keys_ofKeys, List.mem_map]

/-- Placement by a uniform layout that is not flat succeeds, partition by partition. -/
theorem placeMembers_eq (table : TableConfig) (valid : layout.Valid) (uniform : layout.Uniform)
    (spread : layout.isFlat = false) (prior : Assignment) (members : List Member) :
    table.placeMembers layout prior members =
      .ok ((OrderedMap.ofKeys (members.map fun member =>
        member.partition % layout.numPartitions)).keys.map
          (table.mirrored layout prior members)).flatten := by
  simp only [placeMembers, Layout.validate_iff.mpr valid, spread, Bool.false_eq_true, if_false]
  refine bind_eq_ok_iff.mpr ⟨(), rfl, bind_eq_ok_iff.mpr ⟨_, ?_, rfl⟩⟩
  refine mapM_eq_ok_of_forall fun partition inside => ?_
  obtain ⟨member, _, rfl⟩ := mem_partitions.mp inside
  have known := Nat.mod_lt member.partition valid.partitions
  obtain ⟨read, _⟩ := Layout.partitionLists_of_uniform valid uniform known
  rw [placePartition, read]
  rfl

theorem mem_mirrored {table : TableConfig} (valid : layout.Valid) (uniform : layout.Uniform)
    (known : partition < layout.numPartitions) {prior : Assignment} {members : List Member} :
    (∀ member ∈ members, member.partition % layout.numPartitions = partition →
      ∃ servers, (member.name, servers) ∈ table.mirrored layout prior members partition) ∧
    ∀ entry ∈ table.mirrored layout prior members partition,
      entry.1 ∈ members.map Member.name ∧
      ∃ index < ((layout.listsOf partition).headD []).length,
        entry.2 = serversAt (layout.listsOf partition) index := by
  obtain ⟨_, some, _⟩ := Layout.partitionLists_of_uniform valid uniform known
  obtain ⟨length, below⟩ := table.alignedIndices_spec layout some
    (members.filter fun member => member.partition % layout.numPartitions = partition) prior
  constructor
  · intro member listed here
    have named : (table.mirrored layout prior members partition).map Prod.fst =
        (members.filter fun member =>
          member.partition % layout.numPartitions = partition).map Member.name :=
      List.map_fst_zip (by simp only [List.length_map, length, Nat.le_refl])
    have inside : member.name ∈ (table.mirrored layout prior members partition).map Prod.fst := by
      rw [named]
      exact List.mem_map_of_mem (List.mem_filter.mpr ⟨listed, by simpa using here⟩)
    obtain ⟨⟨_, servers⟩, placed, rfl⟩ := List.mem_map.mp inside
    exact ⟨servers, placed⟩
  · rintro ⟨name, servers⟩ placed
    obtain ⟨listed, chosen⟩ := List.of_mem_zip placed
    obtain ⟨member, resident, rfl⟩ := List.mem_map.mp listed
    obtain ⟨index, taken, rfl⟩ := List.mem_map.mp chosen
    exact ⟨List.mem_map_of_mem (List.mem_filter.mp resident).1, index, below index taken, rfl⟩

/-- Mirrored groups put every segment on as many distinct servers as there are groups, whether all
segments are placed anew or one is added. -/
theorem placement_of_mirrors (table : TableConfig) (valid : layout.Valid)
    (uniform : layout.Uniform) (spread : layout.isFlat = false) (mirrors : layout.Mirrors) :
    (∀ (prior : Assignment) (members : List Member), ∃ placed,
      table.placeMembers layout prior members = .ok placed ∧
      (∀ member ∈ members, ∃ servers, (member.name, servers) ∈ placed) ∧
      ∀ entry ∈ placed, entry.1 ∈ members.map Member.name ∧
        entry.2.length = layout.numGroups ∧ entry.2.Nodup) ∧
    ∀ (segment : Segment) (current : Assignment), ∃ servers,
      table.newServers segment current layout = .ok servers ∧
        servers.length = layout.numGroups ∧ servers.Nodup := by
  constructor
  · intro prior members
    refine ⟨_, placeMembers_eq table valid uniform spread prior members, ?_, ?_⟩
    · intro member listed
      have known := Nat.mod_lt member.partition valid.partitions
      obtain ⟨servers, placed⟩ := (mem_mirrored valid uniform known).1 member listed rfl
      refine ⟨servers, List.mem_flatten.mpr ⟨_, List.mem_map_of_mem ?_, placed⟩⟩
      exact mem_partitions.mpr ⟨member, listed, rfl⟩
    · intro entry member
      obtain ⟨placed, listed, inside⟩ := List.mem_flatten.mp member
      obtain ⟨partition, found, rfl⟩ := List.mem_map.mp listed
      obtain ⟨other, _, rfl⟩ := mem_partitions.mp found
      have known := Nat.mod_lt other.partition valid.partitions
      obtain ⟨named, index, below, servers⟩ := (mem_mirrored valid uniform known).2 entry inside
      obtain ⟨length, distinct⟩ := Layout.serversAt_of_mirrors valid uniform mirrors known below
      exact ⟨named, servers ▸ length, servers ▸ distinct⟩
  · intro segment current
    have known := Nat.mod_lt segment.partition valid.partitions
    obtain ⟨read, some, _⟩ := Layout.partitionLists_of_uniform valid uniform known
    simp only [newServers, spread, Bool.false_eq_true, if_false, read]
    refine ⟨_, rfl, Layout.serversAt_of_mirrors valid uniform mirrors known ?_⟩
    split
    · exact Nat.mod_lt _ some
    · cases least : leastOf _ _ with
      | none => exact some
      | some index => exact List.mem_range.mp (leastOf_spec least).1

end TableConfig

namespace Layout

/-- The pool is too small for groups of their own, so the groups are windows around it. -/
def SharesServers (name : String) (pool : List String) (settings : GroupSettings) (size : Nat) :
    Prop :=
  settings.groupBased ∧ groupSize name pool settings = .ok size ∧
    pool.length < size * settings.numGroups

/-- Groups that share no server mirror each other, and without leave to share servers none do.
Windows mirror each other exactly if no two of them begin at the same server; a layout to keep has
to agree with that. Whenever the groups of a computed layout mirror each other, every segment gets
as many distinct servers as there are groups. -/
theorem compute_mirrors {name : String} {pool : List String} {settings : GroupSettings}
    {prior : Option Layout} {minimize : Bool} {layout : Layout} (distinct : pool.Nodup)
    (done : compute name pool settings prior minimize = .ok layout) :
    (settings.groupBased → layout.numPartitions = settings.numPartitions ∧
      layout.numGroups = settings.numGroups) ∧
    (settings.allowReuse = false → ∀ size, ¬ SharesServers name pool settings size) ∧
    ((∀ size, ¬ SharesServers name pool settings size) → layout.Mirrors) ∧
    (∀ size, SharesServers name pool settings size →
      (∀ kept, (if minimize then prior else none) = some kept →
        KeepsAlike kept (windowGroups pool settings.numGroups size) settings.numPartitions) →
      (layout.Mirrors ↔ settings.numGroups * Nat.gcd size pool.length ≤ pool.length)) ∧
    (layout.Mirrors → layout.isFlat = false → ∀ table : TableConfig,
      (∀ (before : Assignment) (members : List Member), ∃ placed,
        table.placeMembers layout before members = .ok placed ∧
        (∀ member ∈ members, ∃ servers, (member.name, servers) ∈ placed) ∧
        ∀ entry ∈ placed, entry.1 ∈ members.map Member.name ∧
          entry.2.length = layout.numGroups ∧ entry.2.Nodup) ∧
      ∀ (segment : Segment) (current : Assignment), ∃ servers,
        table.newServers segment current layout = .ok servers ∧
          servers.length = layout.numGroups ∧ servers.Nodup) := by
  obtain ⟨_, uniform, valid⟩ := compute_spec distinct done
  refine ⟨fun grouped => ?_, ?_, ?_, ?_, ?_⟩
  · obtain ⟨_, _, _, _, _, _, filled, _⟩ := compute_grouped_spec distinct grouped done
    obtain ⟨shape, _⟩ := fillGroups_spec filled
    exact ⟨shape.partitions, shape.groups⟩
  · rintro alone size ⟨_, sized, crowded⟩
    rcases (groupSize_eq_ok sized).1 with room | ⟨reuse, _⟩
    · exact absurd crowded (Nat.not_lt.mpr room)
    · rw [alone] at reuse
      cases reuse
  · intro unshared
    by_cases grouped : settings.groupBased
    · obtain ⟨size, _, sized, _, _, fits, filled, _⟩ := compute_grouped_spec distinct grouped done
      have room : size * settings.numGroups ≤ pool.length :=
        Nat.le_of_not_lt fun crowded => unshared size ⟨grouped, sized, crowded⟩
      exact mirrors_of_room distinct sized fits room filled
    · obtain ⟨_, filled⟩ := (compute_flat_eq_ok_iff grouped).mp done
      obtain ⟨shape, _, _⟩ := single_spec filled
      have one : layout.numGroups = 1 := shape.groups
      intro partition _ first below second within index server _ _
      omega
  · rintro size ⟨grouped, sized, crowded⟩ alike
    obtain ⟨⟨some, _, partitions⟩, _⟩ := (compute_grouped_eq_ok_iff grouped).mp done
    obtain ⟨other, perPartition, same, _, positive, fits, filled, _⟩ :=
      compute_grouped_spec distinct grouped done
    obtain rfl := Except.ok.inj (sized.symm.trans same)
    exact mirrors_iff_of_crowded distinct some sized fits
      ⟨Nat.pos_of_ne_zero partitions, positive⟩ crowded alike filled
  · intro mirrors spread table
    exact table.placement_of_mirrors valid uniform spread mirrors

/-- Two groups of two servers, in a pool that need not have four. -/
def twoWindows : GroupSettings :=
  { groupBased := true, numGroups := 2, serversPerGroup := 2, allowReuse := true }

theorem shares_twoWindows {pool : List String} (two : 2 ≤ pool.length) (few : pool.length < 4) :
    SharesServers "t" pool twoWindows 2 := by
  refine ⟨rfl, ?_, few⟩
  have crowded : ¬ 4 ≤ pool.length := by omega
  simp only [groupSize, twoWindows, Nat.zero_lt_succ, if_true]
  change (if 4 ≤ pool.length then _ else if _ ∧ 2 ≤ pool.length then _ else _) = _
  rw [if_neg crowded, if_pos ⟨trivial, two⟩]
  rfl

/-- Around three servers the windows begin at different servers. -/
theorem threeServers_mirror :
    ∃ layout, compute "t" ["a", "b", "c"] twoWindows none false = .ok layout ∧
      SharesServers "t" ["a", "b", "c"] twoWindows 2 ∧ layout.Mirrors := by
  have done : compute "t" ["a", "b", "c"] twoWindows none false =
      .ok ⟨"t", 1, 2, OrderedMap.ofList [("0_0", ["a", "b"]), ("0_1", ["c", "a"])]⟩ := by cbv
  have shares : SharesServers "t" ["a", "b", "c"] twoWindows 2 :=
    shares_twoWindows (by decide) (by decide)
  obtain ⟨_, _, _, windows, _⟩ := compute_mirrors (by decide) done
  exact ⟨_, done, shares, (windows 2 shares fun _ kept => by cases kept).mpr (by decide)⟩

/-- Around two servers both windows begin at the first, and a segment that takes an index is on one
server only. -/
theorem twoServers_meet :
    ¬ ∀ (name : String) (pool : List String) (settings : GroupSettings) (prior : Option Layout)
        (minimize : Bool) (layout : Layout),
      pool.Nodup → settings.groupBased → settings.numGroups ≤ pool.length →
      compute name pool settings prior minimize = .ok layout → layout.Mirrors := by
  intro mirror
  have done : compute "t" ["a", "b"] twoWindows none false =
      .ok ⟨"t", 1, 2, OrderedMap.ofList [("0_0", ["a", "b"]), ("0_1", ["a", "b"])]⟩ := by cbv
  have mirrors := mirror _ _ _ _ _ _ (by decide) rfl (by decide) done
  have same := mirrors 0 (by decide) 0 (by decide) 1 (by decide) 0 "a" (by decide +kernel)
    (by decide +kernel)
  exact absurd same (by decide)

end Layout

end SegmentPlacement

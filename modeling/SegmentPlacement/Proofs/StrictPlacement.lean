import SegmentPlacement.Proofs.PlacedTarget
import Mathlib.Order.Interval.Finset.Nat

/-! Strict replica groups place a segment by its partition alone. A segment that
is added to a table gets the servers that it has in every target of the table,
and partitions that follow each other go around all slots and all indices. -/

namespace SegmentPlacement

namespace Layout

/-- The servers of a partition under strict replica groups. -/
def strictServers (layout : Layout) (partition : Nat) : Except Error (List String) := do
  let lists ← layout.partitionLists (partition % layout.numPartitions)
  return Aligned.serversAt lists
    (Aligned.strictIndex partition layout.numPartitions (lists.headD []).length)

/-- The slot that a partition goes to, and the index in lists of one size. -/
def strictPlace (layout : Layout) (size partition : Nat) : Nat × Nat :=
  (partition % layout.numPartitions, Aligned.strictIndex partition layout.numPartitions size)

/-- A layout that can place any segments of a table. -/
structure Serves (layout : Layout) (table : TableConfig) : Prop where
  checked : layout.validate = .ok ()
  enough : layout.isFlat = true → table.replication ≤ ((layout.servers? 0 0).getD []).length
  uniform : layout.isFlat = false → layout.Uniform

variable {layout : Layout} {size : Nat}

private theorem Sized.strictServers_eq (sized : layout.Sized size) (valid : layout.Valid)
    (partition : Nat) :
    layout.strictServers partition =
      .ok (Aligned.serversAt (layout.listsOf (layout.strictPlace size partition).1)
        (layout.strictPlace size partition).2) := by
  have known := Nat.mod_lt partition valid.partitions
  obtain ⟨read, _, _⟩ := partitionLists_of_uniform valid (sized.uniform valid) known
  have front : ((layout.listsOf (partition % layout.numPartitions)).headD []).length = size := by
    refine length_headD_of_uniform (by simp [listsOf, valid.groups.ne']) fun list member => ?_
    obtain ⟨group, inside, rfl⟩ := List.mem_map.mp member
    obtain ⟨servers, found, length⟩ :=
      Option.map_eq_some_iff.mp (sized _ known group (List.mem_range.mp inside))
    rw [found, Option.getD_some, length]
  refine bind_eq_ok_iff.mpr ⟨_, read, ?_⟩
  rw [front]
  rfl

/-- A place stands for a remainder: the partitions that go there are those that leave it. -/
theorem strictPlace_eq_iff {partition slot index : Nat} (known : slot < layout.numPartitions) :
    layout.strictPlace size partition = (slot, index) ↔
      partition % (layout.numPartitions * size) = slot + layout.numPartitions * index := by
  simp only [strictPlace, Aligned.strictIndex, Prod.mk.injEq, Nat.mod_mul]
  generalize partition / layout.numPartitions % size = quotient
  constructor
  · intro ⟨same, equal⟩
    rw [same, equal]
  · intro same
    have remainder := congrArg (· % layout.numPartitions) same
    simp only [Nat.add_mul_mod_self_left, Nat.mod_mod, Nat.mod_eq_of_lt known] at remainder
    refine ⟨remainder, Nat.eq_of_mul_eq_mul_left (Nat.zero_lt_of_lt known) ?_⟩
    omega

theorem existsUnique_mod_eq {count remainder : Nat} (below : remainder < count) (start : Nat) :
    ∃! number, (start ≤ number ∧ number < start + count) ∧ number % count = remainder := by
  have taken : remainder ∈ (Finset.Ico start (start + count)).image (· % count) := by
    rw [Nat.image_Ico_mod]
    exact Finset.mem_range.mpr below
  obtain ⟨number, inside, rfl⟩ := Finset.mem_image.mp taken
  refine ⟨number, ⟨Finset.mem_Ico.mp inside, rfl⟩, fun other ⟨within, same⟩ => ?_⟩
  exact Nat.mod_injOn_Ico start count (Finset.mem_Ico.mpr within) inside same

private theorem existsUnique_strictPlace_eq {slot index : Nat} (known : slot < layout.numPartitions)
    (inside : index < size) (start : Nat) :
    ∃! partition, (start ≤ partition ∧ partition < start + layout.numPartitions * size) ∧
      layout.strictPlace size partition = (slot, index) := by
  simp only [strictPlace_eq_iff known]
  refine existsUnique_mod_eq ?_ start
  calc slot + layout.numPartitions * index
      < layout.numPartitions * (index + 1) := by rw [Nat.mul_succ]; omega
    _ ≤ layout.numPartitions * size := Nat.mul_le_mul_left _ inside

end Layout

namespace TableConfig

variable {table : TableConfig} {segments : OrderedMap String Segment} {layouts : Layouts}
  {options : PlacementOptions} {prior : Assignment} {layout : Layout}
  {members : List Member} {placed : List (String × List String)}

private theorem newServers_strict (strict : table.routing.strictReplicaGroup = true)
    (grouped : layout.isFlat = false) (segment : Segment) (current : Assignment) :
    table.newServers segment current layout = layout.strictServers segment.partition := by
  simp only [newServers, grouped, strict, Bool.false_eq_true, if_false, if_true]
  rfl

theorem placePartition_strict (strict : table.routing.strictReplicaGroup = true) {partition : Nat}
    (residing : ∀ member ∈ members, member.partition % layout.numPartitions = partition)
    (done : table.placePartition layout prior partition members = .ok placed) :
    Places (fun member servers => layout.strictServers member.partition = .ok servers)
      members placed := by
  obtain ⟨lists, read, same⟩ := bind_eq_ok_iff.mp done
  cases same
  simp only [alignedIndices, strict, if_true, List.map_map, List.zip_map']
  refine .map fun member listed => bind_eq_ok_iff.mpr ⟨lists, ?_, rfl⟩
  rw [residing member listed, read]

private theorem placeMembers_strict (strict : table.routing.strictReplicaGroup = true)
    (grouped : layout.isFlat = false)
    (done : table.placeMembers layout prior members = .ok placed) :
    Places (fun member servers => layout.strictServers member.partition = .ok servers)
      members placed := by
  obtain ⟨_, _, done⟩ := bind_eq_ok_iff.mp done
  rw [if_neg (by rw [grouped]; exact Bool.false_ne_true)] at done
  obtain ⟨parts, steps, same⟩ := bind_eq_ok_iff.mp done
  cases same
  refine .flatten fun part listed => ?_
  obtain ⟨partition, _, here⟩ := exists_of_mem_mapM steps listed
  exact (placePartition_strict strict (fun member resident =>
    of_decide_eq_true (List.mem_filter.mp resident).2) here).mono (List.filter_subset_self _)

private theorem exists_placeMembers (serves : layout.Serves table) (prior : Assignment)
    (members : List Member) : ∃ placed, table.placeMembers layout prior members = .ok placed := by
  cases flat : layout.isFlat with
  | true =>
    have room := checkReplication_eq_ok_iff.mpr (serves.enough flat)
    simp only [placeMembers, serves.checked, flat, if_true]
    exact ⟨_, bind_eq_ok_iff.mpr ⟨(), rfl, bind_eq_ok_iff.mpr ⟨(), room, rfl⟩⟩⟩
  | false =>
    exact ⟨_, table.placeMembers_eq (Layout.validate_iff.mp serves.checked) (serves.uniform flat)
      flat prior members⟩

private theorem exists_target_of_serves (serves : ∀ kind name replicas,
      table.PlacedBy segments layouts options prior kind name replicas →
      ∃ layout, layouts.get? kind = some layout ∧ layout.Serves table) :
    ∃ result, table.target segments layouts [] prior options = .ok result := by
  refine exists_target fun kind name replicas placed => ?_
  obtain ⟨layout, found, serves⟩ := serves kind name replicas placed
  obtain ⟨part, done⟩ := exists_placeMembers serves _ _
  exact ⟨layout, part, found, done⟩

/-- A known segment that is placed by a layout with replica groups. -/
structure Grouped (table : TableConfig) (segments : OrderedMap String Segment) (layouts : Layouts)
    (options : PlacementOptions) (prior : Assignment) (layout : Layout) (name : String)
    (segment : Segment) : Prop where
  known : segments.get? name = some segment
  placed : ∃ kind replicas, table.PlacedBy segments layouts options prior kind name replicas ∧
    layouts.get? kind = some layout
  grouped : layout.isFlat = false

private theorem Grouped.target_eq_placeNew {name : String} {segment : Segment} {result : Target}
    (strict : table.routing.strictReplicaGroup = true)
    (done : table.target segments layouts [] prior options = .ok result)
    (listed : table.Grouped segments layouts options prior layout name segment) :
    ∃ servers placed, layout.strictServers segment.partition = .ok servers ∧
      placed = .uniform servers (placedState (segment.isConsuming && table.isRealtime)) ∧
      result.assignment.get? name = some placed ∧
      ∀ current, table.placeNew segment current layouts = .ok placed := by
  obtain ⟨known, ⟨kind, replicas, placed, found⟩, grouped⟩ := listed
  obtain ⟨_, part, stored, chosen, places⟩ := get?_target_of_placedBy done placed
  obtain rfl := Option.some.inj (found.symm.trans stored)
  obtain ⟨servers, right, assigned⟩ := places _ (placeMembers_strict strict grouped chosen)
  obtain ⟨_, checked, _⟩ := bind_eq_ok_iff.mp chosen
  have consuming : table.isConsumingSegment (segments.get? name) replicas =
      (segment.isConsuming && table.isRealtime) := by
    rw [known, isConsumingSegment, Bool.and_comm]
  have partition : (table.member segments layouts [] options name replicas).partition =
      segment.partition := by
    simp only [member, known, Option.map_some, Option.getD_some]
  rw [partition] at right
  refine ⟨servers, _, right, rfl, ?_, fun current => ?_⟩
  · rw [assigned, ← consuming]
    rfl
  · have layoutFor : table.layoutFor (table.kindFor (segment.isConsuming && table.isRealtime)
        layouts) layouts = .ok layout := by
      rw [← consuming, placed.kind, TableConfig.layoutFor, found]
      exact bind_eq_ok_iff.mpr ⟨(), checked, rfl⟩
    refine bind_eq_ok_iff.mpr ⟨layout, layoutFor, bind_eq_ok_iff.mpr ⟨servers, ?_, rfl⟩⟩
    rw [newServers_strict strict grouped, right]

/-- With strict replica groups there is a target whenever the layouts can serve. Segments that
layouts with replica groups place have in it what they get when they are added to any assignment,
and those that share partition and layout share their servers. Partitions in a row, as many as there
are places, go to every place once. -/
theorem strict_placement (table : TableConfig) (segments : OrderedMap String Segment)
    (layouts : Layouts) (options : PlacementOptions) (prior : Assignment)
    (strict : table.routing.strictReplicaGroup = true) :
    ((∀ kind name replicas, table.PlacedBy segments layouts options prior kind name replicas →
        ∃ layout, layouts.get? kind = some layout ∧ layout.Serves table) →
      ∃ result, table.target segments layouts [] prior options = .ok result) ∧
    (∀ result, table.target segments layouts [] prior options = .ok result →
      ∀ layout name segment, table.Grouped segments layouts options prior layout name segment →
        ∃ placed, result.assignment.get? name = some placed ∧
          (∀ current, table.placeNew segment current layouts = .ok placed) ∧
          ∀ other fellow, table.Grouped segments layouts options prior layout other fellow →
            fellow.partition = segment.partition →
            ∃ shared, result.assignment.get? other = some shared ∧ shared.keys = placed.keys) ∧
    ∀ layout : Layout, layout.validate = .ok () → layout.isFlat = false →
      ∀ size, layout.Sized size →
        (∀ segment current, table.newServers segment current layout =
          .ok (Aligned.serversAt
            (layout.listsOf (layout.strictPlace size segment.partition).1)
            (layout.strictPlace size segment.partition).2)) ∧
        ∀ start, ∀ slot < layout.numPartitions, ∀ index < size,
          ∃! partition, (start ≤ partition ∧ partition < start + layout.numPartitions * size) ∧
            layout.strictPlace size partition = (slot, index) := by
  refine ⟨exists_target_of_serves, ?_, ?_⟩
  · intro result done layout name segment grouped
    obtain ⟨servers, placed, right, same, assigned, added⟩ :=
      grouped.target_eq_placeNew strict done
    refine ⟨placed, assigned, added, fun other fellow beside together => ?_⟩
    obtain ⟨others, shared, right', same', assigned', _⟩ := beside.target_eq_placeNew strict done
    refine ⟨shared, assigned', ?_⟩
    rw [together, right] at right'
    cases right'
    rw [same, same']
    exact Replicas.keys_uniform_congr ..
  · intro layout checked grouped size sized
    have valid := Layout.validate_iff.mp checked
    refine ⟨fun segment current => ?_, fun start slot known index inside =>
      Layout.existsUnique_strictPlace_eq known inside start⟩
    rw [newServers_strict strict grouped, sized.strictServers_eq valid]

/-- Two partitions of two groups of two servers. -/
def stripes : Layout :=
  { name := "events_OFFLINE", numPartitions := 2, numGroups := 2
    slots := OrderedMap.ofList
      [("0_0", ["a", "b"]), ("0_1", ["c", "d"]), ("1_0", ["e", "f"]), ("1_1", ["g", "h"])] }

def stripedTable : TableConfig :=
  { name := "events_OFFLINE", kind := .offline, replication := 2, serverTag := "T"
    routing := { strictReplicaGroup := true } }

def stripedSegment (name : String) : Segment := { name, partitionId := some 3 }

def unstriped : Assignment :=
  OrderedMap.ofList (["s", "u"].map fun name => (name, .uniform ["a"] .online))

/-- Partition 3 goes to slot 1, and there to index 1. -/
theorem stripes_placed :
    stripedTable.routing.strictReplicaGroup = true ∧
      let segments := OrderedMap.ofList (["s", "u"].map fun name => (name, stripedSegment name))
      let layouts := OrderedMap.ofList [(.offline, stripes)]
      (∃ result, stripedTable.target segments layouts [] unstriped {} = .ok result ∧
        ∃ placed, result.assignment.get? "s" = some placed ∧ placed.keys = ["f", "h"] ∧
          (∀ current, stripedTable.placeNew (stripedSegment "s") current layouts = .ok placed) ∧
          ∃ shared, result.assignment.get? "u" = some shared ∧ shared.keys = placed.keys) ∧
      ∃! partition, (5 ≤ partition ∧ partition < 5 + 2 * 2) ∧
        stripes.strictPlace 2 partition = (1, 1) := by
  refine ⟨rfl, ?_⟩
  intro segments layouts
  have sized : stripes.Sized 2 := by decide +kernel
  have checked : stripes.validate = .ok () := by decide +kernel
  have serves : stripes.Serves stripedTable :=
    ⟨checked, by decide, fun _ => sized.uniform (Layout.validate_iff.mp checked)⟩
  obtain ⟨targeted, places, spread⟩ :=
    strict_placement stripedTable segments layouts {} unstriped rfl
  have grouped : ∀ name, segments.get? name = some (stripedSegment name) →
      unstriped.get? name = some (.uniform ["a"] .online) →
      stripedTable.Grouped segments layouts {} unstriped stripes name (stripedSegment name) :=
    fun name known listed =>
      ⟨known, ⟨.offline, _, ⟨listed, fun frozen => (nomatch frozen.1), rfl⟩, rfl⟩, rfl⟩
  refine ⟨?_, (spread stripes checked rfl 2 sized).2 5 1 (by decide) 1 (by decide)⟩
  obtain ⟨result, done⟩ :=
    targeted fun kind name replicas placed => ⟨stripes, placed.kind ▸ rfl, serves⟩
  obtain ⟨placed, assigned, added, shares⟩ :=
    places result done stripes "s" _ (grouped "s" rfl rfl)
  have here : stripedTable.placeNew (stripedSegment "s") {} layouts =
      .ok (.uniform ["f", "h"] .online) := by cbv
  rw [added] at here
  cases here
  exact ⟨result, done, _, assigned, by decide, added, shares "u" _ (grouped "u" rfl rfl) rfl⟩

end TableConfig

end SegmentPlacement

import SegmentPlacement.Proofs.PlacedTarget

/-! A balanced assignment is its own target. Where the segments of every layout are
spread evenly over its servers, or over its indices, each server and each index
may keep what it has, whatever the order of the segments and wherever the extra
replicas are, so nothing is moved. -/

namespace SegmentPlacement

/-- Every segment has its replicas on listed servers, of which none hosts two more segments than
another. -/
@[mk_iff]
structure LevelOn (replication : Nat) (servers : List String) (group : List Replicas) : Prop where
  full : ∀ replicas ∈ group, replicas.size = replication
  listed : ∀ replicas ∈ group, replicas.keys ⊆ servers
  even : ∀ first ∈ servers, ∀ second ∈ servers,
    group.countP (·.contains first) ≤ group.countP (·.contains second) + 1

/-- Every segment is on the servers of one index, and no index has two more segments than
another. -/
@[mk_iff]
structure LevelAcross (lists : List (List String)) (group : List Replicas) : Prop where
  aligned : ∀ replicas ∈ group, ∃ index < (lists.headD []).length,
    replicas.keys.Perm (Aligned.serversAt lists index)
  even : ∀ first < (lists.headD []).length, ∀ second < (lists.headD []).length,
    group.countP (fun replicas => replicas.keys.Perm (Aligned.serversAt lists first)) ≤
      group.countP (fun replicas => replicas.keys.Perm (Aligned.serversAt lists second)) + 1

/-- The replicas of described segments. -/
def replicasOf (prior : Assignment) (members : List Member) : List Replicas :=
  members.map fun member => (prior.get? member.name).getD {}

/-- The segments of a layout are balanced: over its servers if it is flat, else over the indices of
every partition. -/
@[mk_iff]
structure Layout.Level (layout : Layout) (replication : Nat) (prior : Assignment)
    (members : List Member) : Prop where
  flat : layout.isFlat = true →
    LevelOn replication ((layout.servers? 0 0).getD []) (replicasOf prior members)
  grouped : layout.isFlat = false → ∀ partition < layout.numPartitions,
    LevelAcross (layout.listsOf partition) (replicasOf prior (members.filter fun member =>
      member.partition % layout.numPartitions = partition))

instance decidableLevelOn (replication : Nat) (servers : List String) (group : List Replicas) :
    Decidable (LevelOn replication servers group) :=
  decidable_of_iff _ (levelOn_iff replication servers group).symm

instance decidableLevelAcross (lists : List (List String)) (group : List Replicas) :
    Decidable (LevelAcross lists group) :=
  decidable_of_iff _ (levelAcross_iff lists group).symm

instance Layout.decidableLevel (layout : Layout) (replication : Nat) (prior : Assignment)
    (members : List Member) : Decidable (layout.Level replication prior members) :=
  decidable_of_iff _ (layout.level_iff replication prior members).symm

/-- The replicas are on these servers, all of them in the state in which the segment is placed. -/
def Rests (prior : Assignment) (member : Member) (servers : List String) : Prop :=
  prior.get? member.name = some (.uniform servers (placedState member.consuming))

/-- A segment whose replicas are all in the state in which it is placed. -/
def Stated (prior : Assignment) (member : Member) : Prop :=
  ∃ replicas, prior.get? member.name = some replicas ∧
    ∀ state ∈ replicas.values, state = placedState member.consuming

theorem Stated.rests {prior : Assignment} {member : Member} {servers : List String}
    (stated : Stated prior member)
    (same : ((prior.get? member.name).getD {}).keys.Perm servers) : Rests prior member servers := by
  obtain ⟨replicas, found, only⟩ := stated
  rw [found, Option.getD_some] at same
  rw [Rests, found, Replicas.eq_uniform (fun server => same.mem_iff) only]

namespace Balanced

private theorem even_addAll {slots : Nat} {positions : List Nat}
    (even : ∀ first < slots, ∀ second < slots,
      positions.count first ≤ positions.count second + 1) :
    Even ((Loads.zero slots).addAll positions) := by
  intro first here second there
  rw [Loads.length_addAll] at here there
  rw [Loads.carried_addAll _ _ here, Loads.carried_addAll _ _ there, Loads.carried_zero,
    Loads.carried_zero, Nat.zero_add, Nat.zero_add]
  rw [Loads.length_zero] at here there
  exact even first here second there

variable {replication : Nat} {servers : List String} {replicas : Replicas} {group : List Replicas}

theorem namesAt_heldPositions_perm (distinct : servers.Nodup) (listed : replicas.keys ⊆ servers) :
    (namesAt servers (heldPositions servers replicas)).Perm replicas.keys := by
  refine (List.perm_ext_iff_of_nodup (nodup_namesAt distinct heldPositions_lt
    (nodup_heldPositions ..)) replicas.nodup_keys).mpr fun server => ?_
  constructor
  · intro named
    obtain ⟨position, held, rfl⟩ := List.mem_map.mp named
    exact OrderedMap.contains_iff.mp ((mem_heldPositions (heldPositions_lt position held)).mp held)
  · intro key
    obtain ⟨position, inside, rfl⟩ := List.mem_iff_getElem.mp (listed key)
    refine List.mem_map.mpr ⟨position, ?_, List.getD_eq_getElem _ _ inside⟩
    rw [mem_heldPositions inside, List.getD_eq_getElem _ _ inside]
    exact OrderedMap.contains_iff.mpr key

theorem positions_of_level (distinct : servers.Nodup) (level : LevelOn replication servers group) :
    positions replication servers.length (group.map (heldPositions servers)) =
      group.map (heldPositions servers) := by
  have found : ∀ position < servers.length,
      (group.map (heldPositions servers)).flatten.count position =
        group.countP (·.contains (servers.getD position "")) := by
    intro position inside
    have apart : ∀ held ∈ group.map (heldPositions servers), held.Nodup :=
      List.forall_mem_map.mpr fun _ _ => nodup_heldPositions ..
    rw [count_flatten_of_nodup apart, List.countP_map]
    refine List.countP_congr fun replicas _ => ?_
    rw [Function.comp_apply, List.contains_iff_mem, mem_heldPositions inside]
  refine positions_of_even (List.forall_mem_map.mpr fun replicas member => ?_)
    (List.forall_mem_map.mpr fun _ _ => heldPositions_lt)
    (even_addAll fun first here second there => ?_)
  · rw [← level.full replicas member, ← OrderedMap.length_keys,
      ← (namesAt_heldPositions_perm distinct (level.listed replicas member)).length_eq,
      length_namesAt]
  · rw [found first here, found second there]
    exact level.even _ (getD_mem here) _ (getD_mem there)

end Balanced

namespace Aligned

variable {lists : List (List String)} {slots : Nat}

theorem Apart.serversAt_perm_iff (apart : Apart lists slots) {first second : Nat}
    (here : first < slots) (there : second < slots) :
    (serversAt lists first).Perm (serversAt lists second) ↔ first = second := by
  constructor
  · intro same
    refine (apart.hits_pos_iff there .online here).mp ?_
    obtain ⟨list, member⟩ := List.exists_mem_of_ne_nil lists apart.nonempty
    refine List.countP_pos_iff.mpr ⟨_, List.mem_map_of_mem member, ?_⟩
    exact Replicas.contains_uniform.mpr (same.mem_iff.mp (List.mem_map_of_mem member))
  · intro same
    rw [same]

theorem balancedIndices_of_even {indices : List Nat} (inside : ∀ index ∈ indices, index < slots)
    (even : ∀ first < slots, ∀ second < slots, indices.count first ≤ indices.count second + 1) :
    balancedIndices slots (indices.map some) = indices := by
  have allows := Share.allows_of_even (Balanced.even_addAll even)
  rw [Loads.total_addAll _ (by simpa using inside), Loads.total_zero, Nat.zero_add,
    Loads.length_addAll, Loads.length_zero] at allows
  exact balancedIndices_of_allows inside allows

end Aligned

namespace TableConfig
open Aligned SegmentPlacement.Balanced

variable {table : TableConfig} {layout : Layout} {prior : Assignment} {members : List Member}

/-- Segments that are spread evenly over the servers of a flat layout are placed where they are. -/
theorem placeMembers_of_levelOn (checked : layout.validate = .ok ()) (flat : layout.isFlat = true)
    (some : members ≠ []) (stated : ∀ member ∈ members, Stated prior member)
    (level : LevelOn table.replication ((layout.servers? 0 0).getD []) (replicasOf prior members)) :
    ∃ placed, table.placeMembers layout prior members = .ok placed ∧
      Places (Rests prior) members placed := by
  have valid := Layout.validate_iff.mp checked
  obtain ⟨servers, found, _⟩ := valid.filled 0 valid.partitions 0 valid.groups
  have distinct := valid.distinct _ _ found
  rw [found, Option.getD_some] at level
  have room : table.checkReplication servers.length = .ok () := by
    obtain ⟨member, listed⟩ := List.exists_mem_of_ne_nil members some
    have here := List.mem_map_of_mem (f := fun member : Member => (prior.get? member.name).getD {})
      listed
    rw [checkReplication_eq_ok_iff, ← level.full _ here, ← OrderedMap.length_keys]
    exact (OrderedMap.nodup_keys _).length_le_of_subset (level.listed _ here)
  have placed : table.placeMembers layout prior members = .ok (members.map fun member =>
      (member.name, namesAt servers
        (heldPositions servers ((prior.get? member.name).getD {})))) := by
    simp only [placeMembers, checked, flat, if_true, found, Option.getD_some]
    refine bind_eq_ok_iff.mpr ⟨(), rfl, bind_eq_ok_iff.mpr ⟨(), room, congrArg Except.ok ?_⟩⟩
    have kept := positions_of_level distinct level
    simp only [replicasOf, List.map_map, Function.comp_def] at kept
    simp only [place, List.map_map, Function.comp_def, kept, List.zip_map']
    rfl
  refine ⟨_, placed, .map fun member listed => (stated member listed).rests ?_⟩
  exact (namesAt_heldPositions_perm distinct (level.listed _ (List.mem_map_of_mem listed))).symm

/-- The index that a segment matches best where it is. -/
def indexOf (lists : List (List String)) (prior : Assignment) (member : Member) : Nat :=
  ((prior.get? member.name).bind (bestIndex? lists (lists.headD []).length)).getD 0

section Across

variable {lists : List (List String)} (apart : Apart lists (lists.headD []).length)
  (stated : ∀ member ∈ members, Stated prior member)
  (level : LevelAcross lists (replicasOf prior members))
include apart stated level

private theorem indexOf_spec {member : Member} (listed : member ∈ members) :
    indexOf lists prior member < (lists.headD []).length ∧
      (prior.get? member.name).bind (bestIndex? lists (lists.headD []).length) =
        some (indexOf lists prior member) ∧
      ((prior.get? member.name).getD {}).keys.Perm
        (serversAt lists (indexOf lists prior member)) := by
  obtain ⟨index, inside, same⟩ := level.aligned _ (List.mem_map_of_mem listed)
  have best : (prior.get? member.name).bind (bestIndex? lists (lists.headD []).length) =
      some index := by
    rw [(stated member listed).rests same, Option.bind_some, apart.bestIndex?_serversAt inside]
  have here : indexOf lists prior member = index := by rw [indexOf, best, Option.getD_some]
  exact here ▸ ⟨inside, best, same⟩

private theorem count_indexOf {index : Nat} (within : index < (lists.headD []).length) :
    (members.map (indexOf lists prior)).count index =
      (replicasOf prior members).countP fun replicas =>
        replicas.keys.Perm (serversAt lists index) := by
  rw [List.count, replicasOf, List.countP_map, List.countP_map]
  refine List.countP_congr fun member listed => ?_
  obtain ⟨inside, _, same⟩ := indexOf_spec apart stated level listed
  simp only [Function.comp_apply, beq_iff_eq, decide_eq_true_eq]
  rw [same.congr_left, apart.serversAt_perm_iff inside within]

private theorem alignedIndices_of_level (loose : table.routing.strictReplicaGroup = false) :
    table.alignedIndices layout lists members prior = members.map (indexOf lists prior) := by
  have best : members.map (fun member =>
      (prior.get? member.name).bind (bestIndex? lists (lists.headD []).length)) =
        (members.map (indexOf lists prior)).map some := by
    rw [List.map_map]
    exact List.map_congr_left fun member listed =>
      (indexOf_spec apart stated level listed).2.1
  simp only [alignedIndices, loose, Bool.false_eq_true, if_false]
  rw [best]
  refine balancedIndices_of_even (List.forall_mem_map.mpr fun member listed =>
    (indexOf_spec apart stated level listed).1) fun first here second there => ?_
  rw [count_indexOf apart stated level here, count_indexOf apart stated level there]
  exact level.even first here second there

private theorem placePartition_of_level {partition : Nat}
    (loose : table.routing.strictReplicaGroup = false)
    (read : layout.partitionLists partition = .ok lists) :
    ∃ placed, table.placePartition layout prior partition members = .ok placed ∧
      Places (Rests prior) members placed := by
  have placed : table.placePartition layout prior partition members =
      .ok (members.map fun member =>
        (member.name, serversAt lists (indexOf lists prior member))) := by
    refine bind_eq_ok_iff.mpr ⟨lists, read, congrArg Except.ok ?_⟩
    rw [alignedIndices_of_level apart stated level loose, List.map_map, List.zip_map']
    rfl
  exact ⟨_, placed, .map fun member listed =>
    (stated member listed).rests (indexOf_spec apart stated level listed).2.2⟩

end Across

private theorem placeMembers_of_level (loose : table.routing.strictReplicaGroup = false)
    (checked : layout.validate = .ok ()) (disjoint : layout.GroupsDisjoint)
    (uniform : layout.Uniform) (some : members ≠ [])
    (stated : ∀ member ∈ members, Stated prior member)
    (level : layout.Level table.replication prior members) :
    ∃ placed, table.placeMembers layout prior members = .ok placed ∧
      Places (Rests prior) members placed := by
  cases flat : layout.isFlat with
  | true => exact placeMembers_of_levelOn checked flat some stated (level.flat flat)
  | false =>
    have valid := Layout.validate_iff.mp checked
    have each : ∀ partition ∈ (OrderedMap.ofKeys (members.map fun member =>
        member.partition % layout.numPartitions)).keys,
        ∃ placed, table.placePartition layout prior partition (members.filter fun member =>
          member.partition % layout.numPartitions = partition) = .ok placed ∧
        Places (Rests prior) members placed := by
      intro partition listed
      obtain ⟨resident, _, rfl⟩ := mem_partitions.mp listed
      have known := Nat.mod_lt resident.partition valid.partitions
      obtain ⟨read, _⟩ := Layout.partitionLists_of_uniform valid uniform known
      obtain ⟨placed, done, places⟩ := placePartition_of_level
        (Layout.apart_of_groupsDisjoint valid disjoint known read)
        (fun member inside => stated member (List.mem_of_mem_filter inside))
        (level.grouped flat _ known) loose read
      exact ⟨placed, done, places.mono (List.filter_subset_self _)⟩
    obtain ⟨parts, steps, places⟩ := exists_mapM each
    refine ⟨parts.flatten, ?_, .flatten places⟩
    simp only [placeMembers, checked, flat, Bool.false_eq_true, if_false]
    exact bind_eq_ok_iff.mpr ⟨(), rfl, bind_eq_ok_iff.mpr ⟨parts, steps, rfl⟩⟩

variable {segments : OrderedMap String Segment} {layouts : Layouts} {options : PlacementOptions}

/-- If every layout places its segments where they are, the target is the assignment. -/
theorem target_of_rests (kept : options.bootstrap = false)
    (rests : ∀ kind name replicas,
      table.PlacedBy segments layouts options prior kind name replicas →
      ∃ layout part, layouts.get? kind = some layout ∧
        table.placeMembers layout prior (table.ofKind segments layouts options prior kind) =
          .ok part ∧
        Places (Rests prior) (table.ofKind segments layouts options prior kind) part) :
    table.target segments layouts [] prior options =
      .ok { assignment := prior, segmentTiers := {} } := by
  have baseline : (if options.bootstrap then {} else prior) = prior :=
    if_neg (by rw [kept]; exact Bool.false_ne_true)
  obtain ⟨result, done⟩ : ∃ result,
      table.target segments layouts [] prior options = .ok result := by
    refine exists_target fun kind name replicas placed => ?_
    obtain ⟨layout, part, found, here, _⟩ := rests kind name replicas placed
    exact ⟨layout, part, found, by rw [baseline, here]⟩
  have same : result.assignment = prior := by
    refine OrderedMap.ext_get? fun name => ?_
    cases found : prior.get? name with
    | none =>
      obtain ⟨parts, _, assigned⟩ := target_eq_ok done
      rw [assigned, OrderedMap.get?_map, found, Option.map_none]
    | some replicas =>
      by_cases frozen : Freezes options (table.isConsumingSegment (segments.get? name) replicas)
      · exact get?_target_of_freezes done found frozen
      · have placed : table.PlacedBy segments layouts options prior _ name replicas :=
          ⟨found, frozen, rfl⟩
        obtain ⟨layout, part, stored, here, located⟩ := get?_target_of_placedBy done placed
        obtain ⟨other, chosen, held, there, places⟩ := rests _ name replicas placed
        rw [baseline] at here
        obtain rfl := Option.some.inj (stored.symm.trans held)
        obtain rfl := Except.ok.inj (here.symm.trans there)
        obtain ⟨servers, rest, assigned⟩ := located _ places
        exact assigned.trans (rest.symm.trans found)
  rw [done, ← same, ← segmentTiers_untiered done]

/-- A layout that has its segments balanced already. -/
structure Balances (table : TableConfig) (segments : OrderedMap String Segment) (layouts : Layouts)
    (options : PlacementOptions) (prior : Assignment) (kind : LayoutKind) (layout : Layout) :
    Prop where
  found : layouts.get? kind = some layout
  checked : layout.validate = .ok ()
  disjoint : layout.GroupsDisjoint
  uniform : layout.Uniform
  level : layout.Level table.replication prior (table.ofKind segments layouts options prior kind)

/-- An assignment that the layouts have balanced, with every segment that is not frozen in the state
in which it is placed, is its own target. -/
theorem target_of_balanced (table : TableConfig) (segments : OrderedMap String Segment)
    (layouts : Layouts) (options : PlacementOptions) (prior : Assignment)
    (loose : table.routing.strictReplicaGroup = false) (kept : options.bootstrap = false)
    (stated : ∀ kind name replicas,
      table.PlacedBy segments layouts options prior kind name replicas →
      ∀ state ∈ replicas.values,
        state = placedState (table.isConsumingSegment (segments.get? name) replicas))
    (balanced : ∀ kind name replicas,
      table.PlacedBy segments layouts options prior kind name replicas →
      ∃ layout, table.Balances segments layouts options prior kind layout) :
    table.target segments layouts [] prior options =
      .ok { assignment := prior, segmentTiers := {} } := by
  refine target_of_rests kept fun kind name replicas placed => ?_
  obtain ⟨layout, found, checked, disjoint, uniform, level⟩ := balanced kind name replicas placed
  obtain ⟨part, done, places⟩ := placeMembers_of_level loose checked disjoint uniform
    placed.ofKind_ne_nil (fun member resident => by
      obtain ⟨other, others, elsewhere, rfl⟩ := mem_ofKind_iff.mp resident
      exact ⟨others, elsewhere.listed, stated kind other others elsewhere⟩) level
  exact ⟨layout, part, found, done, places⟩

def mixedTable : TableConfig :=
  { name := "events_REALTIME", kind := .realtime, replication := 2, serverTag := "T" }

def consumingServers : Layout :=
  { name := "events_CONSUMING", numPartitions := 1, numGroups := 1
    slots := OrderedMap.ofList [("0_0", ["a", "b", "c"])] }

def completedGroups : Layout :=
  { name := "events_COMPLETED", numPartitions := 1, numGroups := 2
    slots := OrderedMap.ofList [("0_0", ["d", "e"]), ("0_1", ["f", "g"])] }

def mixedLayouts : Layouts :=
  OrderedMap.ofList [(.consuming, consumingServers), (.completed, completedGroups)]

def mixedPrior : Assignment := OrderedMap.ofList
  [("c1", .uniform ["b", "c"] .consuming), ("c2", .uniform ["a", "c"] .consuming),
   ("s1", .uniform ["e", "g"] .online), ("s2", .uniform ["d", "f"] .online),
   ("s3", .uniform ["e", "g"] .online)]

/-- The extra replicas are on the last server and on the last index, and stay there. -/
theorem mixed_unmoved :
    mixedTable.routing.strictReplicaGroup = false ∧
      mixedTable.target {} mixedLayouts [] mixedPrior { includeConsuming := true } =
        .ok { assignment := mixedPrior, segmentTiers := {} } := by
  refine ⟨rfl, target_of_balanced mixedTable {} mixedLayouts { includeConsuming := true } mixedPrior
    rfl rfl ?_ ?_⟩
  · intro kind name replicas placed
    have all : ∀ entry ∈ mixedPrior.entries, ∀ state ∈ entry.2.values,
        state = placedState (mixedTable.isConsumingSegment none entry.2) := by decide +kernel
    exact all _ (OrderedMap.get?_eq_some_iff.mp placed.listed)
  · intro kind name replicas placed
    cases kind with
    | offline =>
      have never : ∀ consuming, mixedTable.kindFor consuming mixedLayouts ≠ .offline := by decide
      exact absurd placed.kind (never _)
    | consuming =>
      have checked : consumingServers.validate = .ok () := by decide +kernel
      have sized : consumingServers.Sized 3 := by decide +kernel
      exact ⟨_, rfl, checked, by decide +kernel, sized.uniform (Layout.validate_iff.mp checked),
        by decide +kernel⟩
    | completed =>
      have checked : completedGroups.validate = .ok () := by decide +kernel
      have sized : completedGroups.Sized 2 := by decide +kernel
      exact ⟨_, rfl, checked, by decide +kernel, sized.uniform (Layout.validate_iff.mp checked),
        by decide +kernel⟩

end TableConfig

end SegmentPlacement

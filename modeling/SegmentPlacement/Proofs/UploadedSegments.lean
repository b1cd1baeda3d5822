import SegmentPlacement.Proofs.UnmovedTarget

/-! Segments that are uploaded one after the other to one list of servers. Each goes
to the least loaded servers, so after every upload the loads are at most one
apart, and what the uploads led to is the target of the table. -/

namespace SegmentPlacement

private theorem take_mergeSort_spec (weight : Nat → Nat) (candidates : List Nat) (count : Nat) :
    let chosen := (candidates.mergeSort fun first second => weight first ≤ weight second).take count
    ∃ others, (chosen ++ others).Perm candidates ∧
      ∀ first ∈ chosen, ∀ second ∈ others, weight first ≤ weight second := by
  intro chosen
  let sorted := candidates.mergeSort fun first second => weight first ≤ weight second
  have order : sorted.Pairwise fun first second =>
      decide (weight first ≤ weight second) = true := by
    refine List.pairwise_mergeSort (fun first second third before after => ?_)
      (fun first second => ?_) candidates
    · exact decide_eq_true (Nat.le_trans (of_decide_eq_true before) (of_decide_eq_true after))
    · rw [Bool.or_eq_true, decide_eq_true_eq, decide_eq_true_eq]
      exact Nat.le_total ..
  rw [← List.take_append_drop count sorted, List.pairwise_append] at order
  refine ⟨sorted.drop count, ?_, fun first here second there =>
    of_decide_eq_true (order.2.2 first here second there)⟩
  change (sorted.take count ++ sorted.drop count).Perm candidates
  rw [List.take_append_drop]
  exact List.mergeSort_perm candidates _

namespace LevelOn

variable {replication : Nat} {servers : List String} {group : List Replicas}

theorem nil : LevelOn replication servers [] :=
  ⟨fun _ member => absurd member List.not_mem_nil, fun _ member => absurd member List.not_mem_nil,
    fun _ _ _ _ => Nat.zero_le _⟩

theorem perm {other : List Replicas} (level : LevelOn replication servers group)
    (same : group.Perm other) : LevelOn replication servers other := by
  refine ⟨fun replicas member => level.full replicas (same.mem_iff.mpr member),
    fun replicas member => level.listed replicas (same.mem_iff.mpr member), ?_⟩
  intro first here second there
  rw [← same.countP_eq, ← same.countP_eq]
  exact level.even first here second there

/-- One more segment, on servers that host no more than the others. -/
theorem cons (level : LevelOn replication servers group) {replicas : Replicas}
    (full : replicas.size = replication) (listed : replicas.keys ⊆ servers)
    (least : ∀ first ∈ servers, replicas.contains first = true →
      ∀ second ∈ servers, ¬ replicas.contains second = true →
      group.countP (·.contains first) ≤ group.countP (·.contains second)) :
    LevelOn replication servers (replicas :: group) := by
  refine ⟨List.forall_mem_cons.mpr ⟨full, level.full⟩,
    List.forall_mem_cons.mpr ⟨listed, level.listed⟩, fun first here second there => ?_⟩
  have before := level.even first here second there
  rw [List.countP_cons, List.countP_cons]
  by_cases one : replicas.contains first = true
  · by_cases other : replicas.contains second = true
    · rw [if_pos one, if_pos other]
      omega
    · have order := least first here one second there other
      rw [if_pos one, if_neg other]
      omega
  · rw [if_neg one]
    omega

end LevelOn

namespace TableConfig

/-- A segment placed and added to the assignment. -/
def upload (table : TableConfig) (layouts : Layouts) (current : Assignment) (segment : Segment) :
    Except Error Assignment := do
  let replicas ← table.placeNew segment current layouts
  return current.insert segment.name replicas

/-- An offline table whose segments share one list of servers, enough for all replicas. -/
structure OnOneList (table : TableConfig) (layouts : Layouts) (servers : List String) : Prop where
  offline : table.kind = .offline
  layout : ∃ layout, layouts.get? .offline = some layout ∧ layout.validate = .ok () ∧
    layout.isFlat = true ∧ layout.servers? 0 0 = some servers
  enough : table.replication ≤ servers.length

/-- What the uploads so far have led to. -/
structure Uploaded (table : TableConfig) (servers : List String) (uploads : List Segment)
    (current : Assignment) : Prop where
  names : ∀ name, name ∈ current.keys ↔ name ∈ uploads.map Segment.name
  level : LevelOn table.replication servers current.values
  online : ∀ replicas ∈ current.values, ∀ state ∈ replicas.values, state = .online

variable {table : TableConfig} {layouts : Layouts} {servers : List String}

theorem OnOneList.distinct (list : table.OnOneList layouts servers) : servers.Nodup := by
  obtain ⟨layout, _, checked, _, listed⟩ := list.layout
  exact (Layout.validate_iff.mp checked).distinct _ _ listed

private theorem OnOneList.placeNew_eq (list : table.OnOneList layouts servers) (segment : Segment)
    (current : Assignment) :
    ∃ chosen, table.placeNew segment current layouts = .ok (.uniform chosen .online) ∧
      chosen.Nodup ∧ chosen.length = table.replication ∧ chosen ⊆ servers ∧
      ∀ first ∈ chosen, ∀ second ∈ servers, second ∉ chosen →
        current.load first ≤ current.load second := by
  obtain ⟨layout, found, checked, flat, listed⟩ := list.layout
  have distinct := list.distinct
  obtain ⟨others, perm, order⟩ := take_mergeSort_spec
    (fun position => current.load (servers.getD position "")) (List.range servers.length)
    table.replication
  generalize kept : List.take _ _ = chosen at perm order
  have inside : ∀ position ∈ chosen, position < servers.length := fun position member =>
    List.mem_range.mp (perm.mem_iff.mp (List.mem_append_left _ member))
  have apart : chosen.Nodup := (perm.nodup_iff.mpr List.nodup_range).of_append_left
  refine ⟨namesAt servers chosen, ?_, nodup_namesAt distinct inside apart, ?_,
    namesAt_subset inside, ?_⟩
  · have completed : (segment.isConsuming && table.isRealtime) = false := by
      rw [isRealtime, list.offline]
      exact Bool.and_false _
    have home : table.layoutFor (table.kindFor false layouts) layouts = .ok layout := by
      rw [kindFor, list.offline, layoutFor, found]
      exact bind_eq_ok_iff.mpr ⟨(), checked, rfl⟩
    have room := checkReplication_eq_ok_iff.mpr list.enough
    simp only [placeNew, completed]
    refine bind_eq_ok_iff.mpr ⟨layout, home, bind_eq_ok_iff.mpr ⟨namesAt servers chosen, ?_, rfl⟩⟩
    simp only [newServers, flat, if_true, listed, Option.getD_some]
    exact bind_eq_ok_iff.mpr ⟨(), room, by rw [kept]; rfl⟩
  · rw [length_namesAt, ← kept, List.length_take, List.length_mergeSort, List.length_range]
    exact Nat.min_eq_left list.enough
  · intro first here second there outside
    obtain ⟨one, taken, rfl⟩ := List.mem_map.mp here
    obtain ⟨other, within, rfl⟩ := List.mem_iff_getElem.mp there
    have left : other ∈ others := by
      refine (List.mem_append.mp (perm.mem_iff.mpr (List.mem_range.mpr within))).resolve_left ?_
      intro member
      refine outside (List.mem_map.mpr ⟨other, member, List.getD_eq_getElem _ _ within⟩)
    have lower := order one taken other left
    rwa [List.getD_eq_getElem _ _ within] at lower

theorem Uploaded.upload (list : table.OnOneList layouts servers) {uploads : List Segment}
    {current : Assignment} (uploaded : table.Uploaded servers uploads current) {segment : Segment}
    (new : segment.name ∉ uploads.map Segment.name) :
    ∃ next, table.upload layouts current segment = .ok next ∧
      table.Uploaded servers (uploads ++ [segment]) next := by
  obtain ⟨chosen, placed, apart, length, listed, least⟩ := list.placeNew_eq segment current
  have added := (OrderedMap.entries_insert_perm (Replicas.uniform chosen .online)
    (mt (uploaded.names segment.name).mp new)).map Prod.snd
  have keys := Replicas.keys_uniform_perm apart .online
  refine ⟨current.insert segment.name (.uniform chosen .online),
    bind_eq_ok_iff.mpr ⟨_, placed, rfl⟩, ?_, ?_, ?_⟩
  · intro name
    rw [OrderedMap.mem_keys_insert, uploaded.names, List.map_append, List.mem_append, or_comm]
    simp only [List.map_cons, List.map_nil, List.mem_singleton]
  · refine (uploaded.level.cons ?_ ?_ ?_).perm added.symm
    · rw [← OrderedMap.length_keys, keys.length_eq, length]
    · exact fun server key => listed (keys.mem_iff.mp key)
    · intro first _ here second there outside
      exact least first (Replicas.contains_uniform.mp here) second there
        (mt Replicas.contains_uniform.mpr outside)
  · intro replicas member
    rcases List.mem_cons.mp (added.mem_iff.mp member) with rfl | before
    · exact fun state stored => (Replicas.mem_values_uniform.mp stored).1
    · exact uploaded.online replicas before

private theorem uploaded_foldlM (list : table.OnOneList layouts servers) {uploads : List Segment}
    (distinct : (uploads.map Segment.name).Nodup) :
    ∃ current, uploads.foldlM (table.upload layouts) {} = .ok current ∧
      table.Uploaded servers uploads current := by
  induction uploads using List.reverseRecOn with
  | nil =>
    exact ⟨{}, rfl, fun name => Iff.rfl, .nil, fun _ member => absurd member List.not_mem_nil⟩
  | append_singleton uploads segment ih =>
    rw [List.map_append, List.map_singleton, List.nodup_append_comm, List.singleton_append,
      List.nodup_cons] at distinct
    obtain ⟨current, before, uploaded⟩ := ih distinct.2
    obtain ⟨next, last, uploaded⟩ := uploaded.upload list distinct.1
    refine ⟨next, ?_, uploaded⟩
    rw [List.foldlM_append, before]
    exact bind_eq_ok_iff.mpr ⟨current, rfl, bind_eq_ok_iff.mpr ⟨next, last, rfl⟩⟩

variable {segments : OrderedMap String Segment} {options : PlacementOptions} {current : Assignment}

theorem isConsumingSegment_offline (offline : table.kind = .offline) (segment : Option Segment)
    (replicas : Replicas) : table.isConsumingSegment segment replicas = false := by
  simp only [isConsumingSegment, isRealtime, offline]
  rfl

theorem placedBy_offline (offline : table.kind = .offline) {name : String} {replicas : Replicas}
    (found : current.get? name = some replicas) :
    table.PlacedBy segments layouts options current .offline name replicas := by
  refine ⟨found, fun frozen => ?_, by rw [kindFor, offline]⟩
  have consuming := frozen.1
  rw [isConsumingSegment_offline offline] at consuming
  cases consuming

private theorem replicasOf_offline (offline : table.kind = .offline) :
    replicasOf current (table.ofKind segments layouts options current .offline) =
      current.values := by
  have all : table.ofKind segments layouts options current .offline =
      table.members segments layouts [] options current := by
    refine List.filter_eq_self.mpr (List.forall_mem_map.mpr fun entry stored => decide_eq_true ?_)
    have found := OrderedMap.get?_eq_some_iff.mpr stored
    exact (placedBy_iff found).mp (placedBy_offline offline found)
  rw [all, replicasOf, members, List.map_map, OrderedMap.values]
  refine List.map_congr_left fun entry stored => ?_
  exact congrArg (Option.getD · {}) (OrderedMap.get?_eq_some_iff.mpr stored)

private theorem Uploaded.target_eq (list : table.OnOneList layouts servers) {uploads : List Segment}
    (uploaded : table.Uploaded servers uploads current) (kept : options.bootstrap = false) :
    table.target segments layouts [] current options =
      .ok { assignment := current, segmentTiers := {} } := by
  refine target_of_rests kept fun kind name replicas placed => ?_
  obtain rfl : .offline = kind := by rw [← placed.kind, kindFor, list.offline]
  obtain ⟨layout, found, checked, flat, listed⟩ := list.layout
  have level : LevelOn table.replication ((layout.servers? 0 0).getD [])
      (replicasOf current (table.ofKind segments layouts options current .offline)) := by
    rw [listed, Option.getD_some, replicasOf_offline list.offline]
    exact uploaded.level
  have stated : ∀ member ∈ table.ofKind segments layouts options current .offline,
      Stated current member := by
    intro member resident
    obtain ⟨other, others, elsewhere, rfl⟩ := mem_ofKind_iff.mp resident
    refine ⟨others, elsewhere.listed, fun state stored => ?_⟩
    have online := uploaded.online others
      (OrderedMap.mem_values_iff.mpr ⟨other, elsewhere.listed⟩) state stored
    rw [online, member, isConsumingSegment_offline list.offline]
    rfl
  obtain ⟨part, done, places⟩ := placeMembers_of_levelOn checked flat placed.ofKind_ne_nil
    stated level
  exact ⟨layout, part, found, done, places⟩

/-- Segments that are uploaded one after the other are each on as many servers as the table asks for,
and no server has two segments more than another. So it is after each upload, as the uploads up to
it are such a sequence as well. Without tiers the target of the table is what the uploads led to. -/
theorem uploads_balanced (table : TableConfig) (layouts : Layouts) (servers : List String)
    (list : table.OnOneList layouts servers) (uploads : List Segment)
    (distinct : (uploads.map Segment.name).Nodup) :
    ∃ current, uploads.foldlM (table.upload layouts) {} = .ok current ∧
      (∀ name, name ∈ current.keys ↔ name ∈ uploads.map Segment.name) ∧
      (∀ name replicas, current.get? name = some replicas →
        replicas.size = table.replication ∧ replicas.keys ⊆ servers) ∧
      (∀ first ∈ servers, ∀ second ∈ servers, current.load first ≤ current.load second + 1) ∧
      ∀ segments options, options.bootstrap = false →
        table.target segments layouts [] current options =
          .ok { assignment := current, segmentTiers := {} } := by
  obtain ⟨current, done, uploaded⟩ := uploaded_foldlM list distinct
  refine ⟨current, done, uploaded.names, fun name replicas found => ?_, uploaded.level.even,
    fun segments options kept => uploaded.target_eq list kept⟩
  have stored : replicas ∈ current.values := OrderedMap.mem_values_iff.mpr ⟨name, found⟩
  exact ⟨uploaded.level.full replicas stored, uploaded.level.listed replicas stored⟩

def tripleLayouts : Layouts := OrderedMap.ofList [(.offline, Balanced.threeServers)]

/-- Uploads that do not come in the order of their names. -/
theorem three_uploads_balanced :
    let uploads : List Segment := ["u", "s", "t"].map fun name => { name }
    Balanced.pairedTable.OnOneList tripleLayouts ["a", "b", "c"] ∧
      (uploads.map Segment.name).Nodup ∧
      ∃ current, uploads.foldlM (Balanced.pairedTable.upload tripleLayouts) {} = .ok current ∧
        (∀ first ∈ ["a", "b", "c"], ∀ second ∈ ["a", "b", "c"],
          current.load first ≤ current.load second + 1) ∧
        Balanced.pairedTable.target {} tripleLayouts [] current {} =
          .ok { assignment := current, segmentTiers := {} } := by
  intro uploads
  have list : Balanced.pairedTable.OnOneList tripleLayouts ["a", "b", "c"] :=
    ⟨rfl, ⟨Balanced.threeServers, rfl, by decide +kernel, rfl, by decide +kernel⟩, by decide⟩
  obtain ⟨current, done, _, _, even, target⟩ := uploads_balanced Balanced.pairedTable tripleLayouts
    ["a", "b", "c"] list uploads (by decide)
  exact ⟨list, by decide, current, done, even, target {} {} rfl⟩

end TableConfig

end SegmentPlacement

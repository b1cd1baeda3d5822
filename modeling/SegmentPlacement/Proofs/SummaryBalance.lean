import SegmentPlacement.Move
import SegmentPlacement.Proofs.SummaryAccount

/-! The books of a summary. What servers gain and lose is counted server by server,
and what the table moves is counted segment by segment; both ways of counting the
same pairs agree, so nothing is counted twice and nothing is left out. -/

namespace SegmentPlacement

namespace Assignment

variable {assignment : Assignment} {server : String}

/-- The replicas of a segment, of which there are none when it is not there. -/
def replicasOf (assignment : Assignment) (segment : String) : Replicas :=
  (assignment.get? segment).getD {}

theorem mem_keys_replicasOf {segment : String} :
    server ∈ (assignment.replicasOf segment).keys ↔ (segment, server) ∈ assignment.holdings := by
  rw [mem_holdings, replicasOf]
  cases assignment.get? segment with
  | none => simp [OrderedMap.mem_keys_iff]
  | some replicas => simp

private theorem length_holdings (assignment : Assignment) :
    assignment.holdings.length = assignment.replicaCount := by
  simp only [holdings, List.length_flatMap, List.length_map, OrderedMap.length_keys, replicaCount,
    OrderedMap.values, List.map_map]
  rfl

theorem load_eq (assignment : Assignment) (server : String) :
    assignment.load server = (assignment.segmentsOn server).length := by
  rw [load, segmentsOn, OrderedMap.values, List.countP_map, List.countP_eq_length_filter,
    OrderedMap.length_keys]
  rfl

theorem load_pos_iff : 0 < assignment.load server ↔ server ∈ assignment.byServer.keys := by
  simp only [load_eq, List.length_pos_iff_exists_mem, mem_segmentsOn, mem_keys_byServer]

end Assignment

namespace Move

private theorem countP_additions_segment (before after : Assignment) (segment : String) :
    (additions before after).countP (fun pair => pair.1 = segment) =
      (gaining (before.replicasOf segment) (after.replicasOf segment)).length := by
  have gained : (((additions before after).filter fun pair => pair.1 = segment).map Prod.snd).Perm
      (gaining (before.replicasOf segment) (after.replicasOf segment)) := by
    refine (List.perm_ext_iff_of_nodup ?_ ((OrderedMap.nodup_keys _).filter _)).mpr ?_
    · refine ((nodup_additions before after).filter _).map_on ?_
      intro ⟨_, one⟩ here ⟨_, other⟩ there same
      have first := (List.mem_filter.mp here).2
      have second := (List.mem_filter.mp there).2
      simp only [decide_eq_true_eq] at first second same
      rw [first, second, same]
    · intro server
      simp [mem_additions, OrderedMap.contains_iff, ← Bool.not_eq_true,
        Assignment.mem_keys_replicasOf]
  rw [List.countP_eq_length_filter, ← gained.length_eq, List.length_map]

private theorem length_additions (before after : Assignment) {segments : List String}
    (distinct : segments.Nodup) (covered : after.keys ⊆ segments) :
    (additions before after).length = total (segments.map fun segment =>
      (gaining (before.replicasOf segment) (after.replicasOf segment)).length) := by
  have known : ∀ pair ∈ additions before after, pair.1 ∈ segments := by
    intro pair member
    obtain ⟨replicas, stored, _⟩ := Assignment.mem_holdings.mp (mem_additions.mp member).1
    exact covered (OrderedMap.mem_keys_iff.mpr ⟨replicas, stored⟩)
  rw [← total_countP Prod.fst distinct known]
  simp only [countP_additions_segment]

private theorem replicaCount_add_additions (before after : Assignment) :
    after.replicaCount + (additions after before).length =
      before.replicaCount + (additions before after).length := by
  have both : (before.holdings.filter (· ∈ after.holdings)).Perm
      (after.holdings.filter (· ∈ before.holdings)) := by
    refine (List.perm_ext_iff_of_nodup (before.nodup_holdings.filter _)
      (after.nodup_holdings.filter _)).mpr fun pair => ?_
    simp only [List.mem_filter, decide_eq_true_eq]
    exact And.comm
  have former := before.holdings.length_eq_length_filter_add (· ∈ after.holdings)
  have later := after.holdings.length_eq_length_filter_add (· ∈ before.holdings)
  have same := both.length_eq
  simp only [Assignment.length_holdings, ← decide_not] at former later
  simp only [additions]
  omega

end Move

namespace ServerSummary

variable {summary : ServerSummary} {name server : String} {change : ServerChange}

theorem mem_withStatus_take {status : ServerStatus} :
    name ∈ ((summary.take server change).withStatus status).keys ↔
      name ∈ (summary.withStatus status).keys ∨ name = server ∧ change.status = status := by
  have listed : name ∈ ((summary.enlist server change.status).withStatus status).keys ↔
      name ∈ (summary.withStatus status).keys ∨ name = server ∧ change.status = status := by
    cases change.status <;> cases status <;>
      simp [enlist, withStatus, OrderedMap.mem_keys_insert, or_comm]
  cases status <;> exact listed

theorem mem_gaining_take : name ∈ (summary.take server change).gaining.keys ↔
    name ∈ summary.gaining.keys ∨ name = server ∧ 0 < change.added := by
  have kept : (summary.enlist server change.status).gaining = summary.gaining := by
    cases change.status <;> rfl
  simp only [take, kept]
  by_cases gains : 0 < change.added
  · rw [if_pos gains, OrderedMap.mem_keys_insert, or_comm, and_iff_left gains]
  · rw [if_neg gains, or_iff_left fun both => gains both.2]

/-- Servers that are taken one after the other come into every set that one server comes into by
its change alone. -/
theorem mem_foldl_take (set : ServerSummary → NameSet) {belongs : ServerChange → Prop}
    (one : ∀ {summary name server change}, name ∈ (set (summary.take server change)).keys ↔
      name ∈ (set summary).keys ∨ name = server ∧ belongs change)
    (change : String → ServerChange) (summary : ServerSummary) (names : List String)
    (name : String) :
    name ∈ (set (names.foldl (fun summary name => summary.take name (change name)) summary)).keys ↔
      name ∈ (set summary).keys ∨ name ∈ names ∧ belongs (change name) := by
  induction names generalizing summary with
  | nil => simp
  | cons first rest ih =>
    rw [List.foldl_cons, ih, one, List.mem_cons, or_assoc, or_and_right]
    refine or_congr_right (or_congr_left (and_congr_right fun same => ?_))
    rw [same]

end ServerSummary

/-- The numbers of a server add up to what it hosts before and after. -/
structure ServerChange.AddsUp (change : ServerChange) (current target : Assignment)
    (server : String) : Prop where
  before : change.segmentsBefore = current.load server
  after : change.segmentsAfter = target.load server
  added : change.added = (Move.additions current target).countP fun pair => pair.2 = server
  deleted : change.deleted = (Move.additions target current).countP fun pair => pair.2 = server
  gains : change.unchanged + change.added = change.segmentsAfter
  losses : change.unchanged + change.deleted = change.segmentsBefore

/-- What a status says of the numbers of segments that a server hosts before and after. -/
def ServerStatus.Fits : ServerStatus → Nat → Nat → Prop
  | .added, former, later => former = 0 ∧ 0 < later
  | .removed, former, later => 0 < former ∧ later = 0
  | .unchanged, former, later => 0 < former ∧ 0 < later

namespace Summary
open Move

/-- The numbers of a summary agree with each other and with the two assignments. -/
structure AddsUp (summary : Summary) (current target : Assignment) : Prop where
  /-- Servers are listed when they host a segment before or after. -/
  listed : ∀ server, server ∈ summary.servers.changes.keys ↔
    0 < current.load server ∨ 0 < target.load server
  servers : ∀ server change, summary.servers.changes.get? server = some change →
    change.AddsUp current target server
  moved : summary.segments.moved =
    total ((OrderedMap.ofKeys (current.keys ++ target.keys)).keys.map fun segment =>
      (gaining (current.replicasOf segment) (target.replicasOf segment)).length)
  deleted : summary.segments.deleted =
    total ((OrderedMap.ofKeys (current.keys ++ target.keys)).keys.map fun segment =>
      (gaining (target.replicasOf segment) (current.replicasOf segment)).length)
  replicas : summary.segments.replicas.after + summary.segments.deleted =
    summary.segments.replicas.before + summary.segments.moved
  /-- The servers are in the set of the status that fits them, and in no other. -/
  statuses : ∀ status server, server ∈ (summary.servers.withStatus status).keys ↔
    status.Fits (current.load server) (target.load server)
  gaining : ∀ server, server ∈ summary.servers.gaining.keys ↔
    ∃ change, summary.servers.changes.get? server = some change ∧ 0 < change.added
  gainingCount : summary.servers.gainingCount =
    summary.servers.changes.values.countP fun change => 0 < change.added
  /-- The greatest number of additions is that of a server, or 0 when there is none. -/
  mostAdded : (∀ change ∈ summary.servers.changes.values,
      change.added ≤ summary.segments.mostAddedToOneServer) ∧
    (summary.segments.mostAddedToOneServer = 0 ∨ ∃ change ∈ summary.servers.changes.values,
      change.added = summary.segments.mostAddedToOneServer)

variable {current target : Assignment} {servers : List Server} {server : String}
  {change : ServerChange}

/-- What a server keeps is at most what it hosts afterwards, so that no subtraction is cut off. -/
theorem serverChange_spec (current target : Assignment) (server : String) (tags : List String) :
    let change := serverChange (current.byServer.get? server) (target.byServer.get? server) tags
    (change.segmentsBefore = current.load server ∧ change.segmentsAfter = target.load server) ∧
      change.unchanged + change.added = change.segmentsAfter ∧
      change.unchanged + change.deleted = change.segmentsBefore := by
  simp only [serverChange, Assignment.getD_byServer, Assignment.load_eq, true_and]
  have former : (current.segmentsOn server).countP (target.segmentsOn server).contains ≤
      (current.segmentsOn server).length := List.countP_le_length
  have later : (current.segmentsOn server).countP (target.segmentsOn server).contains ≤
      (target.segmentsOn server).length := by
    rw [List.countP_eq_length_filter]
    refine ((current.nodup_segmentsOn server).filter _).length_le_of_subset fun segment kept => ?_
    exact List.contains_iff_mem.mp (List.mem_filter.mp kept).2
  exact ⟨Nat.add_sub_cancel' later, Nat.add_sub_cancel' former⟩

private theorem status_serverChange (tags : List String) :
    (serverChange (current.byServer.get? server) (target.byServer.get? server) tags).status =
      statusOf (decide (0 < current.load server)) (decide (0 < target.load server)) := by
  have known : ∀ assignment : Assignment,
      (assignment.byServer.get? server).isSome = decide (0 < assignment.load server) := by
    intro assignment
    rw [Bool.eq_iff_iff, decide_eq_true_iff, Assignment.load_pos_iff]
    exact OrderedMap.contains_iff
  simp only [serverChange, known]

theorem get?_changes_serverSummary : (serverSummary current target servers).changes.get? server =
      some change ↔
    server ∈ (serversOf current target).keys ∧ changeOf current target servers server = change := by
  rw [changes_serverSummary, OrderedMap.get?_map, Option.map_eq_some_iff, OrderedMap.mem_keys_iff,
    exists_and_right]

theorem mem_serversOf : server ∈ (serversOf current target).keys ↔
    0 < current.load server ∨ 0 < target.load server := by
  simp only [serversOf, OrderedMap.mem_keys_ofKeys, List.mem_append, Assignment.load_pos_iff]

theorem mem_changes_serverSummary (servers : List Server) :
    server ∈ (serverSummary current target servers).changes.keys ↔
      0 < current.load server ∨ 0 < target.load server := by
  rw [changes_serverSummary, OrderedMap.keys_map, mem_serversOf]

theorem statusOf_eq_iff {former later : Nat} (status : ServerStatus) :
    (0 < former ∨ 0 < later) ∧ statusOf (decide (0 < former)) (decide (0 < later)) = status ↔
      status.Fits former later := by
  by_cases before : former = 0 <;> by_cases after : later = 0 <;> cases status <;>
    simp [statusOf, ServerStatus.Fits, Nat.pos_iff_ne_zero, before, after]

theorem mem_withStatus_iff {status : ServerStatus} :
    server ∈ ((serverSummary current target servers).withStatus status).keys ↔
      status.Fits (current.load server) (target.load server) := by
  have filled := ServerSummary.mem_foldl_take (·.withStatus status)
    ServerSummary.mem_withStatus_take (changeOf current target servers)
    { servers := ⟨current.byServer.size, target.byServer.size⟩ } (serversOf current target).keys
    server
  have none : server ∉ (({ servers := ⟨current.byServer.size, target.byServer.size⟩ } :
      ServerSummary).withStatus status).keys := by
    cases status <;> exact List.not_mem_nil
  rw [← statusOf_eq_iff, ← status_serverChange (tagsOf servers server), ← mem_serversOf]
  exact filled.trans (or_iff_right none)

theorem mem_gaining_iff : server ∈ (serverSummary current target servers).gaining.keys ↔
    ∃ change, (serverSummary current target servers).changes.get? server = some change ∧
      0 < change.added := by
  have filled := ServerSummary.mem_foldl_take ServerSummary.gaining
    ServerSummary.mem_gaining_take (changeOf current target servers)
    { servers := ⟨current.byServer.size, target.byServer.size⟩ } (serversOf current target).keys
    server
  simp only [get?_changes_serverSummary, and_assoc, exists_and_left, exists_eq_left']
  exact filled.trans (or_iff_right List.not_mem_nil)

private theorem gainingCount_eq (current target : Assignment) (servers : List Server) :
    let summary := serverSummary current target servers
    summary.gainingCount = summary.changes.values.countP fun change => 0 < change.added := by
  intro summary
  have same : summary.gaining.keys =
      (summary.changes.filter fun _ change => 0 < change.added).keys := by
    refine OrderedMap.keys_eq_iff.mpr fun server => mem_gaining_iff.trans ?_
    simp only [OrderedMap.mem_keys_iff, OrderedMap.get?_filter, Option.filter_eq_some_iff,
      decide_eq_true_iff, summary]
  calc summary.gainingCount
    _ = summary.gaining.keys.length := (OrderedMap.length_keys _).symm
    _ = (summary.changes.filter fun _ change => 0 < change.added).size := by
      rw [same, OrderedMap.length_keys]
    _ = _ := by
      rw [OrderedMap.values, List.countP_map, List.countP_eq_length_filter]
      rfl

/-- The numbers of every summary add up. -/
theorem compute_addsUp (table : TableConfig) (current target : Assignment)
    (servers : List Server) (segments : OrderedMap String Segment) :
    (compute table current target servers segments).AddsUp current target := by
  obtain ⟨⟨moved, deleted⟩, changes⟩ := compute_accounts table current target servers segments
  let names := (OrderedMap.ofKeys (current.keys ++ target.keys)).keys
  have distinct : names.Nodup := OrderedMap.nodup_keys _
  have named : ∀ segment, segment ∈ names ↔ segment ∈ current.keys ∨ segment ∈ target.keys :=
    fun segment => OrderedMap.mem_keys_ofKeys.trans List.mem_append
  constructor
  case listed => exact fun server => mem_changes_serverSummary servers
  case servers =>
    intro server change listed
    obtain ⟨added, deleted⟩ := changes server
    obtain ⟨⟨before, after⟩, gains, losses⟩ :=
      serverChange_spec current target server (tagsOf servers server)
    rw [listed] at added deleted
    obtain ⟨_, rfl⟩ := get?_changes_serverSummary.mp listed
    exact { before, after, added, deleted, gains, losses }
  case moved =>
    exact moved.trans (length_additions current target distinct
      fun segment aimed => (named segment).mpr (Or.inr aimed))
  case deleted =>
    exact deleted.trans (length_additions target current distinct
      fun segment held => (named segment).mpr (Or.inl held))
  case replicas =>
    rw [moved, deleted]
    exact replicaCount_add_additions current target
  case statuses => exact fun status server => mem_withStatus_iff
  case gaining => exact fun server => mem_gaining_iff
  case gainingCount => exact gainingCount_eq current target servers
  case mostAdded =>
    let added := (serverSummary current target servers).changes.values.map ServerChange.added
    have greatest : (0 :: added).max? = some (added.foldl max 0) := List.max?_cons'
    obtain ⟨attained, most⟩ := List.max?_eq_some_iff.mp greatest
    refine ⟨fun change listed => most _ (List.mem_cons_of_mem _ (List.mem_map_of_mem listed)), ?_⟩
    rcases List.mem_cons.mp attained with none | some
    · exact Or.inl none
    · exact Or.inr (List.mem_map.mp some)

end Summary

end SegmentPlacement

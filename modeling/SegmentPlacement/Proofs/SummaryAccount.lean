import SegmentPlacement.Rebalance.Summary
import SegmentPlacement.Proofs.GatheredMap

/-! The account of a move. A summary compares what every server hosts before and
after, server by server; here its numbers are tied to the replicas themselves, as
pairs of a segment and a server that the move adds or takes away. -/

namespace SegmentPlacement

namespace Assignment

/-- The segments that a server hosts, in order. -/
def segmentsOn (assignment : Assignment) (server : String) : List String :=
  (assignment.filter fun _ replicas => replicas.contains server).keys

/-- Every segment with each of the servers that hold it. -/
def holdings (assignment : Assignment) : List (String × String) :=
  assignment.entries.flatMap fun entry => entry.2.keys.map fun server => (entry.1, server)

variable {assignment : Assignment} {segment server : String}

theorem mem_holdings : (segment, server) ∈ assignment.holdings ↔
    ∃ replicas, assignment.get? segment = some replicas ∧ server ∈ replicas.keys := by
  simp only [holdings, List.mem_flatMap, List.mem_map, Prod.mk.injEq, Prod.exists,
    OrderedMap.get?_eq_some_iff]
  constructor
  · rintro ⟨_, replicas, stored, _, held, rfl, rfl⟩
    exact ⟨replicas, stored, held⟩
  · intro ⟨replicas, stored, held⟩
    exact ⟨segment, replicas, stored, server, held, rfl, rfl⟩

theorem mem_segmentsOn : segment ∈ assignment.segmentsOn server ↔
    (segment, server) ∈ assignment.holdings := by
  simp only [segmentsOn, OrderedMap.mem_keys_iff, OrderedMap.get?_filter,
    Option.filter_eq_some_iff, mem_holdings, OrderedMap.contains_iff]

theorem nodup_segmentsOn (assignment : Assignment) (server : String) :
    (assignment.segmentsOn server).Nodup := OrderedMap.nodup_keys _

theorem nodup_holdings (assignment : Assignment) : assignment.holdings.Nodup := by
  refine List.nodup_flatMap.mpr ⟨fun entry _ => ?_, ?_⟩
  · exact entry.2.nodup_keys.map fun _ _ same => (Prod.mk.inj same).2
  · refine (List.pairwise_map.mp assignment.nodup_keys).imp fun apart => ?_
    intro pair here there
    obtain ⟨_, _, rfl⟩ := List.mem_map.mp here
    obtain ⟨_, _, same⟩ := List.mem_map.mp there
    exact apart (Prod.mk.inj same).1.symm

private theorem byServer_eq (assignment : Assignment) : assignment.byServer =
    OrderedMap.gather (fun _ => []) (fun hosted segment => hosted ++ [segment]) {}
      (assignment.entries.flatMap fun entry => entry.2.keys.map fun server => (server, entry.1)) :=
  OrderedMap.foldl_sources (fun _ => []) (fun hosted segment => hosted ++ [segment]) {}
    (fun entry : String × Replicas => entry.2.keys) Prod.fst assignment.entries

theorem get?_byServer (assignment : Assignment) (server : String) :
    assignment.byServer.get? server =
      if assignment.segmentsOn server = [] then none else some (assignment.segmentsOn server) := by
  have items : OrderedMap.itemsOf (assignment.entries.flatMap fun entry =>
      entry.2.keys.map fun server => (server, entry.1)) server = assignment.segmentsOn server := by
    refine (OrderedMap.itemsOf_flatMap_of_nodup (fun entry _ => entry.2.nodup_keys) server).trans ?_
    simp only [← OrderedMap.contains_iff, Bool.decide_eq_true]
    rfl
  have listed (segments : List String) :
      segments.foldl (fun hosted segment => hosted ++ [segment]) [] = segments := by
    rw [List.foldl_append_eq_append, List.nil_append, ← List.flatMap_def, List.flatMap_singleton']
  rw [byServer_eq, OrderedMap.get?_gather, items, OrderedMap.get?_empty, Option.getD_none, listed]

theorem getD_byServer (assignment : Assignment) (server : String) :
    (assignment.byServer.get? server).getD [] = assignment.segmentsOn server := by
  rw [get?_byServer]
  split
  · rename_i none
    rw [none, Option.getD_none]
  · rfl

theorem mem_keys_byServer :
    server ∈ assignment.byServer.keys ↔ ∃ segment, (segment, server) ∈ assignment.holdings := by
  simp only [OrderedMap.mem_keys_iff, get?_byServer, ← mem_segmentsOn]
  constructor
  · intro ⟨hosted, found⟩
    split at found
    · cases found
    · rename_i some
      exact List.exists_mem_of_ne_nil _ some
  · intro ⟨segment, member⟩
    exact ⟨_, if_neg (List.ne_nil_of_mem member)⟩

end Assignment

namespace Move

/-- The replicas that a move adds, as segments with servers that did not hold them. Those that it
takes away are the ones that the way back adds. -/
def additions (before after : Assignment) : List (String × String) :=
  after.holdings.filter fun pair => pair ∉ before.holdings

theorem mem_additions {before after : Assignment} {pair : String × String} :
    pair ∈ additions before after ↔ pair ∈ after.holdings ∧ pair ∉ before.holdings := by
  simp only [additions, List.mem_filter, decide_eq_true_eq]

theorem nodup_additions (before after : Assignment) : (additions before after).Nodup :=
  after.nodup_holdings.filter _

theorem additions_self (assignment : Assignment) : additions assignment assignment = [] := by
  refine List.filter_eq_nil_iff.mpr fun pair member => ?_
  simpa using member

theorem countP_additions (before after : Assignment) (server : String) :
    (additions before after).countP (fun pair => pair.2 = server) =
      (after.segmentsOn server).countP fun segment => segment ∉ before.segmentsOn server := by
  have gained : (((additions before after).filter fun pair => pair.2 = server).map Prod.fst).Perm
      ((after.segmentsOn server).filter fun segment => segment ∉ before.segmentsOn server) := by
    refine (List.perm_ext_iff_of_nodup ?_ ((after.nodup_segmentsOn server).filter _)).mpr ?_
    · refine ((nodup_additions before after).filter _).map_on ?_
      intro ⟨one, _⟩ here ⟨other, _⟩ there same
      have first := (List.mem_filter.mp here).2
      have second := (List.mem_filter.mp there).2
      simp only [decide_eq_true_eq] at first second same
      rw [first, second, same]
    · intro segment
      simp [mem_additions, Assignment.mem_segmentsOn]
  rw [List.countP_eq_length_filter, List.countP_eq_length_filter, ← gained.length_eq,
    List.length_map]

end Move

theorem ServerSummary.changes_foldl_take (change : String → ServerChange) (summary : ServerSummary)
    (names : List String) :
    (names.foldl (fun summary name => summary.take name (change name)) summary).changes =
      summary.changes.insertAll (names.map fun name => (name, change name)) := by
  induction names generalizing summary with
  | nil => rfl
  | cons name rest ih =>
    have kept : (summary.enlist name (change name).status).changes = summary.changes := by
      cases (change name).status <;> rfl
    rw [List.foldl_cons, ih, take, kept]
    rfl

namespace Summary
open Move

private theorem countP_not_mem {first second : List String} (distinct : first.Nodup)
    (apart : second.Nodup) :
    second.countP (fun segment => segment ∉ first) =
      second.length - first.countP fun segment => second.contains segment := by
  have both : (first.filter fun segment => second.contains segment).Perm
      (second.filter fun segment => first.contains segment) := by
    refine (List.perm_ext_iff_of_nodup (distinct.filter _) (apart.filter _)).mpr fun segment => ?_
    simp only [List.mem_filter, List.contains_iff_mem]
    exact And.comm
  have parts := second.length_eq_countP_add_countP fun segment => first.contains segment
  rw [List.countP_eq_length_filter, ← both.length_eq, ← List.countP_eq_length_filter] at parts
  simp only [List.contains_iff_mem] at parts
  omega

variable {current target : Assignment}

theorem added_serverChange (server : String) (tags : List String) :
    (serverChange (current.byServer.get? server) (target.byServer.get? server) tags).added =
      (additions current target).countP fun pair => pair.2 = server := by
  rw [countP_additions,
    countP_not_mem (current.nodup_segmentsOn server) (target.nodup_segmentsOn server)]
  simp only [serverChange, Assignment.getD_byServer]

private theorem deleted_serverChange (server : String) (tags : List String) :
    (serverChange (current.byServer.get? server) (target.byServer.get? server) tags).deleted =
      (additions target current).countP fun pair => pair.2 = server := by
  have parts := (current.segmentsOn server).length_eq_countP_add_countP fun segment =>
    (target.segmentsOn server).contains segment
  simp only [serverChange, Assignment.getD_byServer, countP_additions, List.contains_iff_mem]
    at parts ⊢
  omega

def changeOf (current target : Assignment) (servers : List Server) (server : String) :
    ServerChange :=
  serverChange (current.byServer.get? server) (target.byServer.get? server)
    (tagsOf servers server)

/-- The servers that host a segment before a move or after it. -/
def serversOf (current target : Assignment) : NameSet :=
  OrderedMap.ofKeys (current.byServer.keys ++ target.byServer.keys)

theorem changes_serverSummary (current target : Assignment) (servers : List Server) :
    (serverSummary current target servers).changes =
      (serversOf current target).map fun server _ => changeOf current target servers server := by
  refine (ServerSummary.changes_foldl_take _ _ _).trans ?_
  rw [← OrderedMap.ofList_entries ((serversOf current target).map _), OrderedMap.ofList]
  refine congrArg _ ?_
  simp only [OrderedMap.map, OrderedMap.keys, List.map_map]
  rfl

/-- What the changes of all servers say about pairs that each server has a number of. -/
private theorem changes_count (current target : Assignment) (servers : List Server)
    {measure : ServerChange → Nat} {pairs : List (String × String)}
    (counted : ∀ server, measure (changeOf current target servers server) =
      pairs.countP fun pair => pair.2 = server)
    (covered : ∀ pair ∈ pairs, pair ∈ current.holdings ∨ pair ∈ target.holdings) :
    let changes := (serverSummary current target servers).changes
    total (changes.values.map measure) = pairs.length ∧
      ∀ server, (changes.get? server).elim 0 measure = pairs.countP fun pair => pair.2 = server := by
  have known : ∀ pair ∈ pairs, pair.2 ∈ (serversOf current target).keys := by
    intro pair member
    rw [serversOf, OrderedMap.mem_keys_ofKeys, List.mem_append]
    exact (covered pair member).imp (fun held => Assignment.mem_keys_byServer.mpr ⟨_, held⟩)
      fun held => Assignment.mem_keys_byServer.mpr ⟨_, held⟩
  rw [changes_serverSummary]
  constructor
  · rw [← total_countP Prod.snd (OrderedMap.nodup_keys _) known]
    simp only [OrderedMap.values, OrderedMap.map, OrderedMap.keys, List.map_map,
      Function.comp_def, counted]
  · intro server
    rw [OrderedMap.get?_map]
    cases found : (serversOf current target).get? server with
    | some _ => exact counted server
    | none =>
      refine (List.countP_eq_zero.mpr fun pair member => ?_).symm
      have same : pair.2 ≠ server := by
        intro same
        obtain ⟨_, listed⟩ := OrderedMap.mem_keys_iff.mp (known pair member)
        rw [same, found] at listed
        cases listed
      simpa using same

/-- The totals of a summary are the replicas that the move adds and takes away, and each server's
change tells its part of them. -/
theorem compute_accounts (table : TableConfig) (current target : Assignment)
    (servers : List Server) (segments : OrderedMap String Segment) :
    let summary := compute table current target servers segments
    (summary.segments.moved = (additions current target).length ∧
      summary.segments.deleted = (additions target current).length) ∧
    ∀ server, (summary.servers.changes.get? server).elim 0 ServerChange.added =
        (additions current target).countP (fun pair => pair.2 = server) ∧
      (summary.servers.changes.get? server).elim 0 ServerChange.deleted =
        (additions target current).countP (fun pair => pair.2 = server) := by
  obtain ⟨moved, added⟩ := changes_count current target servers
    (fun server => added_serverChange server (tagsOf servers server))
    fun pair member => Or.inr (mem_additions.mp member).1
  obtain ⟨removed, deleted⟩ := changes_count current target servers
    (fun server => deleted_serverChange server (tagsOf servers server))
    fun pair member => Or.inl (mem_additions.mp member).1
  exact ⟨⟨moved, removed⟩, fun server => ⟨added server, deleted server⟩⟩

end Summary

end SegmentPlacement

import SegmentPlacement.Proofs.RebalanceWrites
import SegmentPlacement.Proofs.SettledTarget
import SegmentPlacement.Proofs.StoreWrites

/-! A rebalance settles. When it is done, the assignment that it reported is stored,
and it is the one that a dry run would have reported. A rebalance that computes
no layout anew then finds the layouts, the homes and the servers of all segments
as they are, and nothing to do. -/

namespace SegmentPlacement.Rebalance
open Program

/-- What is read of a table. -/
def factsOf (store : Store) (state : TableState) : TableFacts :=
  { ideal := state.ideal
    servers := store.snapshot.servers
    segments :=
      OrderedMap.ofList (state.segments.values.map fun segment => (segment.name, segment)) }

private theorem factsOf_servers (store : Store) (state : TableState) :
    (factsOf store state).servers = store.snapshot.servers := rfl

private theorem factsOf_ideal (store : Store) (state : TableState) :
    (factsOf store state).ideal = state.ideal := rfl

private theorem readFacts_reads {table : String} {store : Store} {state : TableState}
    (found : store.table? table = some state) :
    (readFacts table).Reads store (.ok (factsOf store state)) := by
  unfold readFacts
  refine .bind (.call rfl) ?_
  simp only [Store.respond, found, Option.map_some]
  refine .bind (.call rfl) (.bind (.call rfl) ?_)
  simp only [Store.respond, found, Option.map_some, Option.getD_some]
  exact .pure _

theorem readFacts_of_missing {table : String} {store : Store} (missing : store.table? table = none) :
    (readFacts table).Reads store (.error ("Cannot find the ideal state for table: " ++ table)) := by
  unfold readFacts
  refine .bind (.call rfl) ?_
  simp only [Store.respond, missing, Option.map_none]
  exact .pure _

/-- What a rebalance has read and computed before its first write. -/
structure Prepared (setup : RebalanceSetup) (table : TableConfig) (options : RebalanceOptions)
    (store : Store) (state : TableState) (plan : LayoutPlan) (target : Target)
    (computed : Computation) : Prop where
  allowed : ¬ (options.preChecks ∧ ¬ options.dryRun)
  valid : table.validate = .ok ()
  found : store.table? table.name = some state
  planned : LayoutPlan.planOf store.snapshot.layouts table options store.snapshot.servers = .ok plan
  computed : compute setup table options (factsOf store state) plan = .ok (target, computed)

/-- What a rebalance does with what it has prepared. -/
def finish (setup : RebalanceSetup) (table : TableConfig) (options : RebalanceOptions)
    (job : String) (facts : TableFacts) (plan : LayoutPlan) (target : Target)
    (computed : Computation) : Program RebalanceResult :=
  match judge table options (decide (target.assignment = facts.ideal.assignment)) plan
      target.assignment with
  | .ends status description => return ⟨job, status, description, some computed⟩
  | .goesOn minAvailable => do
    let (status, description) ← carryOut setup table options job facts plan target minAvailable
    return ⟨job, status, description, some computed⟩

variable {setup : RebalanceSetup} {table : TableConfig} {options : RebalanceOptions}
  {store : Store} {state : TableState} {plan : LayoutPlan} {target : Target}
  {computed : Computation}

theorem Prepared.work_reaches
    (prepared : Prepared setup table options store state plan target computed) (job : String) :
    (work setup table options job).Reaches store
      (finish setup table options job (factsOf store state) plan target computed) := by
  obtain ⟨allowed, valid, found, planned, done⟩ := prepared
  simp only [work, if_neg allowed, valid]
  refine .bind (readFacts_reads found) (.bind (LayoutPlan.make_reads ..) ?_)
  rw [factsOf_servers, planned]
  simp only [done]
  exact .refl _

theorem work_cases (setup : RebalanceSetup) (table : TableConfig) (options : RebalanceOptions)
    (job : String) (store : Store) :
    (∃ description, (work setup table options job).Reads store ⟨job, .failed, description, none⟩) ∨
    ∃ state plan target computed,
      Prepared setup table options store state plan target computed := by
  unfold work
  split
  · exact Or.inl ⟨_, .pure _⟩
  · rename_i allowed
    split
    · exact Or.inl ⟨_, .pure _⟩
    · rename_i valid
      cases found : store.table? table.name with
      | none => exact Or.inl ⟨_, .bind (readFacts_of_missing found) (.pure _)⟩
      | some state =>
        have facts := readFacts_reads found
        have made := LayoutPlan.make_reads table options store.snapshot.servers store
        cases planned : LayoutPlan.planOf store.snapshot.layouts table options
            store.snapshot.servers with
        | error error =>
          rw [planned] at made
          exact Or.inl ⟨_, .bind facts (.bind made (.pure _))⟩
        | ok plan =>
          rw [planned] at made
          cases computed : compute setup table options (factsOf store state) plan with
          | error error =>
            refine Or.inl ⟨"Caught exception while calculating target assignment: " ++ error.message,
              .bind facts (.bind made ?_)⟩
            simp only [computed]
            exact .pure _
          | ok both =>
            exact Or.inr ⟨state, plan, both.1, both.2, allowed, valid, found, planned, computed⟩

theorem Prepared.reported
    (prepared : Prepared setup table options store state plan target computed) (job : String) :
    ((work setup table options job).run Store.respond store).value.computed = some computed := by
  obtain ⟨_, _, reached⟩ := prepared.work_reaches job
  rw [reached]
  unfold finish
  split
  · rfl
  · rw [run_bind]
    rfl

theorem prepared_of_reported {job : String}
    (reported : ((work setup table options job).run Store.respond store).value.computed =
      some computed) :
    ∃ state plan target, Prepared setup table options store state plan target computed := by
  rcases work_cases setup table options job store with ⟨_, failed⟩ |
    ⟨state, plan, target, other, prepared⟩
  · rw [failed.value] at reported
    cases reported
  · obtain rfl := Option.some.inj ((prepared.reported job).symm.trans reported)
    exact ⟨state, plan, target, prepared⟩

theorem prepared_of_done {job : String}
    (done : ((work setup table options job).run Store.respond store).value.status = .done) :
    ∃ state plan target computed, Prepared setup table options store state plan target computed := by
  rcases work_cases setup table options job store with ⟨_, failed⟩ | prepared
  · rw [failed.value] at done
    cases done
  · exact prepared

theorem compute_eq_ok {facts : TableFacts}
    (done : compute setup table options facts plan = .ok (target, computed)) :
    table.target facts.segments plan.layouts plan.tiers facts.ideal.assignment
        { includeConsuming := options.includeConsuming, bootstrap := options.bootstrap,
          now := setup.now } = .ok target ∧
      computed.assignment = target.assignment ∧ computed.layouts = plan.layouts ∧
      computed.tierLayouts = plan.tierLayouts := by
  obtain ⟨found, placed, same⟩ := bind_eq_ok_iff.mp done
  cases same
  exact ⟨placed, rfl, rfl, rfl⟩

theorem judge_of_real {unchanged : Bool} {wanted : Assignment} (real : options.dryRun = false)
    {status : RebalanceStatus} {description : String}
    (judged : judge table options unchanged plan wanted = .ends status description) :
    status ≠ .done := by
  rintro rfl
  simp only [judge, real, Bool.false_eq_true, if_false] at judged
  split at judged
  · cases judged
  · split at judged <;> cases judged

theorem finish_done (real : options.dryRun = false) {job : String} {facts : TableFacts}
    (done : ((finish setup table options job facts plan target computed).run Store.respond
      store).value.status = .done) :
    ∃ minAvailable, judge table options (decide (target.assignment = facts.ideal.assignment)) plan
        target.assignment = .goesOn minAvailable ∧
      let ended := (finish setup table options job facts plan target computed).run Store.respond store
      let carried :=
        (carryOut setup table options job facts plan target minAvailable).run Store.respond store
      ended.value.computed = some computed ∧ ended.state = carried.state ∧
        carried.value.1 = .done := by
  unfold finish at done ⊢
  cases judged : judge table options (decide (target.assignment = facts.ideal.assignment)) plan
      target.assignment with
  | ends status description =>
    rw [judged] at done
    exact absurd done (judge_of_real real judged)
  | goesOn minAvailable =>
    rw [judged] at done
    simp only [run_bind] at done
    refine ⟨minAvailable, rfl, ?_⟩
    simp only [run_bind]
    exact ⟨rfl, rfl, done⟩

private theorem Prepared.contents?_eq
    (prepared : Prepared setup table options store state plan target computed) :
    store.contents? table.name = some
      { servers := store.snapshot.servers
        layouts := store.snapshot.layouts
        segments := state.segments.values.map Segment.untiered
        assignment := state.ideal.assignment } := by
  rw [Store.contents?, prepared.found]
  rfl

private theorem work_done (real : options.dryRun = false) {job : String}
    (done : ((work setup table options job).run Store.respond store).value.status = .done) :
    ∃ state plan target computed minAvailable contents,
      Prepared setup table options store state plan target computed ∧
      judge table options (decide (target.assignment = state.ideal.assignment)) plan
        target.assignment = .goesOn minAvailable ∧
      ((work setup table options job).run Store.respond store).value.computed = some computed ∧
      store.contents? table.name = some contents ∧
      ((work setup table options job).run Store.respond store).state.contents? table.name =
        some { contents with
          layouts := plan.applied contents.layouts, assignment := target.assignment } := by
  obtain ⟨state, plan, target, computed, prepared⟩ := prepared_of_done done
  obtain ⟨exchanges, _, reached⟩ := prepared.work_reaches job
  rw [reached] at done ⊢
  obtain ⟨minAvailable, judged, reported, left, carried⟩ := finish_done real done
  obtain ⟨placed, _⟩ := compute_eq_ok prepared.computed
  have after := carryOut_stores setup table options job (factsOf store state) plan target
    minAvailable rfl (TableConfig.keys_target placed) store prepared.contents?_eq carried
  rw [← left] at after
  exact ⟨state, plan, target, computed, minAvailable, _, prepared, judged, reported,
    prepared.contents?_eq, after⟩

private theorem sameButTiers_of_untiered {first second : List Segment}
    (same : first.map Segment.untiered = second.map Segment.untiered) :
    SameButTiers (OrderedMap.ofList (first.map fun segment => (segment.name, segment)))
      (OrderedMap.ofList (second.map fun segment => (segment.name, segment))) := by
  have looked : ∀ (segments : List Segment) (name : String),
      ((OrderedMap.ofList (segments.map fun segment => (segment.name, segment))).get? name).map
          Segment.untiered =
        (OrderedMap.ofList ((segments.map Segment.untiered).map fun segment =>
          (segment.name, segment))).get? name := by
    intro segments name
    have begun : ((OrderedMap.empty : OrderedMap String Segment).get? name).map Segment.untiered =
        (OrderedMap.empty : OrderedMap String Segment).get? name := rfl
    rw [OrderedMap.ofList, OrderedMap.get?_insertAll_map _ begun, List.map_map, List.map_map]
    rfl
  intro name
  rw [looked, looked, same]

private theorem validate_eq_ok (valid : table.validate = .ok ()) :
    0 < table.replication ∧
      table.kind.suffix.toList.isSuffixOf table.name.toList = true := by
  unfold TableConfig.validate at valid
  split at valid
  · cases valid
  · rename_i replicated
    split at valid
    · cases valid
    · rename_i ends
      exact ⟨Nat.pos_of_ne_zero replicated, by simpa using ends⟩

theorem run_value {job : String} {result : RebalanceResult}
    (ended : ((run setup table options job).run Store.respond store).value = .ok result) :
    options.validate = .ok () ∧
      ((work setup table options job).run Store.respond store).value = result ∧
      ((run setup table options job).run Store.respond store).state =
        ((work setup table options job).run Store.respond store).state := by
  unfold run at ended ⊢
  split at ended
  · cases ended
  · rename_i valid
    simp only [valid, run_bind] at ended ⊢
    exact ⟨trivial, Except.ok.inj ended, rfl⟩

theorem run_reads {job : String} {result : RebalanceResult} (valid : options.validate = .ok ())
    (reads : (work setup table options job).Reads store result) :
    (run setup table options job).Reads store (.ok result) := by
  simp only [run, valid]
  exact .bind reads (.bind (.call rfl) (.pure _))

private theorem compute_of_target (later : RebalanceSetup) {facts : TableFacts}
    (placed : table.target facts.segments plan.layouts plan.tiers facts.ideal.assignment
        { includeConsuming := options.includeConsuming, bootstrap := options.bootstrap,
          now := later.now } = .ok target) :
    ∃ computed, compute later table options facts plan = .ok (target, computed) ∧
      computed.assignment = target.assignment :=
  ⟨_, bind_eq_ok_iff.mpr ⟨target, placed, rfl⟩, rfl⟩

private theorem judge_dry {unchanged : Bool} {wanted : Assignment} {minAvailable : Nat}
    (judged : judge table options unchanged plan wanted = .goesOn minAvailable) :
    judge table { options with dryRun := true } unchanged plan wanted =
      .ends .done "Dry-run mode" := by
  simp only [judge] at judged ⊢
  split at judged
  · cases judged
  · rename_i changed
    simp only [if_neg changed, if_true]

private theorem judge_unchanged (served : plan.changes = false) (wanted : Assignment) :
    judge table options true plan wanted = .ends .noOp "Table is already balanced" := by
  simp [judge, served]

private theorem Prepared.dry_reads
    (prepared : Prepared setup table options store state plan target computed)
    {minAvailable : Nat}
    (judged : judge table options (decide (target.assignment = state.ideal.assignment)) plan
      target.assignment = .goesOn minAvailable)
    {later : RebalanceSetup} (clock : later.now = setup.now) (job : String) :
    ∃ dry planned, (work later table { options with dryRun := true } job).Reads store dry ∧
      dry.status = .done ∧ dry.computed = some planned ∧
      planned.assignment = target.assignment := by
  obtain ⟨placed, _⟩ := compute_eq_ok prepared.computed
  rw [← clock] at placed
  have recomputed : ∃ planned, compute later table { options with dryRun := true }
      (factsOf store state) plan = .ok (target, planned) ∧
      planned.assignment = target.assignment := compute_of_target later placed
  obtain ⟨planned, done, same⟩ := recomputed
  have again : Prepared later table { options with dryRun := true } store state plan target
      planned := ⟨fun both => both.2 rfl, prepared.valid, prepared.found, prepared.planned, done⟩
  have last : (finish later table { options with dryRun := true } job (factsOf store state) plan
      target planned).Reads store ⟨job, .done, "Dry-run mode", some planned⟩ := by
    rw [finish, factsOf_ideal, judge_dry judged]
    exact .pure _
  exact ⟨_, planned, (again.work_reaches job).reads last, rfl, rfl, same⟩

private theorem Prepared.groupsDisjoint
    (prepared : Prepared setup table options store state plan target computed)
    (unique : (table.tiers.map TierConfig.name).Nodup)
    (disjoint : ∀ layout ∈ computed.layouts.values ++ computed.tierLayouts.values,
      layout.GroupsDisjoint) :
    (∀ kind layout, plan.layouts.get? kind = some layout → layout.GroupsDisjoint) ∧
      ∀ tier ∈ plan.tiers, tier.layout.GroupsDisjoint := by
  obtain ⟨_, _, layouts, tierLayouts⟩ := compute_eq_ok prepared.computed
  rw [layouts, tierLayouts] at disjoint
  obtain ⟨kinds, tiers⟩ := List.forall_mem_append.mp disjoint
  exact ⟨fun kind layout listed =>
      kinds layout (List.mem_map.mpr ⟨_, OrderedMap.get?_eq_some_iff.mp listed, rfl⟩),
    fun tier listed => tiers tier.layout (LayoutPlan.mem_tierLayouts unique prepared.planned listed)⟩

/-- Once a rebalance has been carried out, another one that keeps the layouts has nothing to do. -/
theorem Prepared.again_reads
    (prepared : Prepared setup table options store state plan target computed)
    (unique : (table.tiers.map TierConfig.name).Nodup)
    (disjoint : ∀ layout ∈ computed.layouts.values ++ computed.tierLayouts.values,
      layout.GroupsDisjoint)
    {contents : Contents} (before : store.contents? table.name = some contents) {after : Store}
    (held : after.contents? table.name = some { contents with
      layouts := plan.applied contents.layouts, assignment := target.assignment })
    {later : RebalanceSetup} (clock : later.now = setup.now) (job : String) :
    ∃ idle, (work later table { options with reassignInstances := false } job).Reads after idle ∧
      idle.status = .noOp := by
  obtain rfl := Option.some.inj (prepared.contents?_eq.symm.trans before)
  obtain ⟨placed, _⟩ := compute_eq_ok prepared.computed
  obtain ⟨replicated, ends⟩ := validate_eq_ok prepared.valid
  obtain ⟨stored, found, same⟩ := Option.map_eq_some_iff.mp held
  obtain ⟨servers, kept, segments, assignment⟩ := Contents.mk.inj same
  have planned := LayoutPlan.planOf_again (LayoutPlan.namesApart ends unique) prepared.planned
  obtain ⟨kinds, tiers⟩ := prepared.groupsDisjoint unique disjoint
  obtain ⟨next, retargeted, unmoved⟩ := TableConfig.target_again replicated placed
    (sameButTiers_of_untiered segments) kinds tiers
  rw [← clock, ← assignment] at retargeted
  have recomputed : ∃ renewed, compute later table { options with reassignInstances := false }
      (factsOf after stored) plan.served = .ok (next, renewed) ∧
      renewed.assignment = next.assignment := compute_of_target later retargeted
  obtain ⟨renewed, done, _⟩ := recomputed
  have again : Prepared later table { options with reassignInstances := false } after stored
      plan.served next renewed :=
    ⟨prepared.allowed, prepared.valid, found, kept ▸ servers ▸ planned, done⟩
  have last : (finish later table { options with reassignInstances := false } job
      (factsOf after stored) plan.served next renewed).Reads after
        ⟨job, .noOp, "Table is already balanced", some renewed⟩ := by
    have unchanged : next.assignment = (factsOf after stored).ideal.assignment :=
      unmoved.trans assignment.symm
    rw [finish, decide_eq_true unchanged, judge_unchanged rfl]
    exact .pure _
  exact ⟨_, (again.work_reaches job).reads last, rfl⟩

/-- When a rebalance is done, the assignment that it reported is stored, and a dry run before it
reports the same. If the layouts that it reported keep their groups apart, another rebalance that
computes no layout anew then finds nothing to do, and writes nothing. -/
theorem run_settles (setup later : RebalanceSetup) (table : TableConfig)
    (options : RebalanceOptions) (job next : String) (store : Store) (result : RebalanceResult)
    (unique : (table.tiers.map TierConfig.name).Nodup) (real : options.dryRun = false)
    (clock : later.now = setup.now)
    (ended : ((run setup table options job).run Store.respond store).value = .ok result)
    (done : result.status = .done) :
    let after := ((run setup table options job).run Store.respond store).state
    ∃ computed, result.computed = some computed ∧
      (after.table? table.name).map (fun state => state.ideal.assignment) =
        some computed.assignment ∧
      (∃ dry planned, (run later table { options with dryRun := true } next).Reads store (.ok dry) ∧
        dry.status = .done ∧ dry.computed = some planned ∧
        planned.assignment = computed.assignment) ∧
      ((∀ layout ∈ computed.layouts.values ++ computed.tierLayouts.values,
          layout.GroupsDisjoint) →
        ∃ idle, (run later table { options with reassignInstances := false } next).Reads after
          (.ok idle) ∧ idle.status = .noOp) := by
  intro after
  obtain ⟨valid, worked, left⟩ := run_value ended
  rw [← worked] at done
  obtain ⟨state, plan, target, computed, minAvailable, contents, prepared, judged, reported,
    before, held⟩ := work_done real done
  rw [worked] at reported
  obtain ⟨_, assigned, _⟩ := compute_eq_ok prepared.computed
  refine ⟨computed, reported, ?_, ?_, ?_⟩
  · obtain ⟨stored, found, same⟩ := Option.map_eq_some_iff.mp held
    have kept : after.table? table.name = some stored := (congrArg (Store.table? · _) left).trans found
    rw [kept, assigned]
    exact congrArg (fun contents => some (Contents.assignment contents)) same
  · obtain ⟨dry, planned, reads, status, reported, same⟩ :=
      prepared.dry_reads judged clock next
    exact ⟨dry, planned, run_reads valid reads, status, reported, same.trans assigned.symm⟩
  · intro disjoint
    obtain ⟨idle, reads, status⟩ := prepared.again_reads unique disjoint before held clock next
    rw [← left] at reads
    exact ⟨idle, run_reads valid reads, status⟩

/-- Two groups of two servers for two replicas. -/
def groupedTable : TableConfig :=
  { TableConfig.offline "events" 2 "T" with
    layouts := OrderedMap.ofList [(.offline, .grouped "T" 2 2)] }

/-- Both segments are on the first two of four servers, and no layout is stored yet. -/
def crowdedStore : Store :=
  { snapshot :=
      { servers := ["a", "b", "c", "d"].map fun id => { id, tags := ["T"] }
        tables := OrderedMap.ofList [("events_OFFLINE",
          { config := groupedTable
            ideal :=
              { table := "events_OFFLINE"
                assignment := OrderedMap.ofList
                  (["s", "u"].map fun name => (name, .uniform ["a", "b"] .online)) }
            segments := OrderedMap.ofList (["s", "u"].map fun name => (name, { name })) })] } }

def smallSetup : RebalanceSetup := { roundLimit := 4 }

/-- The first rebalance stores a layout and takes two steps, the second one leaves it at that. -/
theorem crowdedStore_settles :
    (groupedTable.tiers.map TierConfig.name).Nodup ∧
      let ended := (run smallSetup groupedTable { reassignInstances := true } "first").run
        Store.respond crowdedStore
      ended.state.snapshot.layouts.size = 1 ∧ ended.state.writes = 2 ∧
        ∃ result, ended.value = .ok result ∧ result.status = .done ∧
          ∃ idle, (run smallSetup groupedTable {} "second").Reads ended.state (.ok idle) ∧
            idle.status = .noOp := by
  refine ⟨by decide, ?_⟩
  intro ended
  have finished : ended.value.toOption.map RebalanceResult.status = some .done := by decide +kernel
  have apart : (ended.value.toOption.bind RebalanceResult.computed).all (fun computed =>
      decide (∀ layout ∈ computed.layouts.values ++ computed.tierLayouts.values,
        layout.GroupsDisjoint)) = true := by decide +kernel
  refine ⟨by decide +kernel, by decide +kernel, ?_⟩
  cases value : ended.value with
  | error error =>
    rw [value] at finished
    cases finished
  | ok result =>
    rw [value] at finished apart
    have done : result.status = .done := Option.some.inj finished
    obtain ⟨computed, reported, _, _, settled⟩ := run_settles smallSetup smallSetup groupedTable
      { reassignInstances := true } "first" "second" crowdedStore result (by decide) rfl rfl value
      done
    have disjoint : (some computed).all (fun computed => decide (∀ layout ∈
        computed.layouts.values ++ computed.tierLayouts.values, layout.GroupsDisjoint)) = true :=
      reported ▸ apart
    obtain ⟨idle, reads, status⟩ := settled (of_decide_eq_true disjoint)
    exact ⟨result, rfl, done, idle, reads, status⟩

end SegmentPlacement.Rebalance

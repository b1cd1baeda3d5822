import SegmentPlacement.Proofs.SegmentPlacers
import SegmentPlacement.Proofs.TaggedServers
import SegmentPlacement.Proofs.UnwrittenRebalance

/-! The tiers that a rebalance records. One request records them, after the layouts
are stored and before the assignment is written, and nothing else touches what is
known of the segments. A rebalance that finds nothing to do ends before that
request. -/

namespace SegmentPlacement

/-- Whether a request records tiers. -/
def Request.recordsTiers : Request → Bool
  | .setTargetTiers .. => true
  | _ => false

theorem Request.not_recordsTiers_of_reads {request : Request} (reads : request.writes = false) :
    request.recordsTiers = false := by
  cases request <;> first | rfl | cases reads

/-- Whether the metadata that is stored for a segment, under whatever key, gives this name. -/
def TableState.Names (state : TableState) (name : String) : Prop :=
  ∃ key segment, state.segments.get? key = some segment ∧ segment.name = name

namespace Store

/-- What is known of the segments of a table. -/
def metadata? (store : Store) (table : String) : Option (OrderedMap String Segment) :=
  (store.table? table).map TableState.segments

private theorem metadata?_setTable (store : Store) (name : String) (state : TableState) :
    (store.setTable name state).metadata? name = some state.segments := by
  have stored : (store.setTable name state).table? name = some state :=
    OrderedMap.get?_insert_self ..
  rw [metadata?, stored]
  rfl

theorem metadata?_setTable_of_same {store : Store} {name : String} {state later : TableState}
    (found : store.table? name = some state) (same : later.segments = state.segments)
    (table : String) : (store.setTable name later).metadata? table = store.metadata? table := by
  by_cases here : table = name
  · subst here
    rw [metadata?_setTable, metadata?, found, same]
    rfl
  · have other : (store.setTable name later).table? table = store.table? table :=
      OrderedMap.get?_insert_of_ne _ _ here
    rw [metadata?, metadata?, other]

private theorem metadata?_compareAndSet (store : Store) (name : String) (version : Nat)
    (assignment : Assignment) (table : String) :
    (store.compareAndSet name version assignment).2.metadata? table = store.metadata? table := by
  unfold compareAndSet
  split
  · rfl
  · rename_i state found
    have kept (later : TableState) (same : later.segments = state.segments) :=
      metadata?_setTable_of_same found same table
    simp only
    split
    · exact kept _ rfl
    · split
      · rfl
      · exact kept _ rfl

private theorem metadata?_respond {request : Request} (other : request.recordsTiers = false)
    (store : Store) (table : String) :
    (respond request store).2.metadata? table = store.metadata? table := by
  cases request with
  | compareAndSet name version assignment => exact store.metadata?_compareAndSet name version assignment table
  | setTargetTiers => cases other
  | _ => rfl

/-- What is known of a segment, with its tier if it is among the recorded ones. -/
def retiered (tiers : OrderedMap String (Option String)) (name : String) (segment : Segment) :
    Segment :=
  match tiers.get? name with
  | some targetTier => { segment with targetTier }
  | none => segment

private theorem metadata?_setTargetTiers (store : Store) (table : String)
    (tiers : OrderedMap String (Option String)) :
    (store.setTargetTiers table tiers).2.metadata? table =
      (store.metadata? table).map fun segments => segments.map (retiered tiers) := by
  unfold setTargetTiers
  cases found : store.table? table with
  | none =>
    rw [metadata?, found]
    rfl
  | some state =>
    refine (store.metadata?_setTable table _).trans ?_
    rw [metadata?, found]
    rfl

end Store

namespace ApplyJob
open Program

/-- The loop keeps what every request keeps that records no tiers. -/
theorem sustains_of_kept (apply : ApplyJob) {respond : Responder σ} (holds : σ → Prop)
    (kept : ∀ request state, request.recordsTiers = false → holds state →
      holds (respond request state).2) :
    apply.Sustains respond (fun _ => holds) (fun _ _ => holds) fun _ _ => holds where
  between _ request state reads := kept request state (Request.not_recordsTiers_of_reads reads)
  lasts _ _ request state reads := kept request state (Request.not_recordsTiers_of_reads reads)
  held _ _ _ holds := holds
  read _ _ state holds _ := kept _ state rfl holds
  known _ _ _ holds := holds
  write _ _ _ state holds _ := ⟨kept _ state rfl holds, fun _ => kept _ state rfl holds⟩

end ApplyJob

namespace Rebalance
open Program

variable {known : OrderedMap String Segment} {name : String}

private theorem asks_keeps_metadata {program : Program α}
    (asks : program.Asks fun request => request.recordsTiers = false) :
    Ensures Store.respond (fun store => store.metadata? name = some known) program
      fun _ store => store.metadata? name = some known :=
  .of_asks asks fun _ store other held => (Store.metadata?_respond other store name).trans held

private theorem recordTiers_records {table : TableConfig} {options : RebalanceOptions}
    (updates : options.updateTargetTier = true) (segments : OrderedMap String Segment)
    (target : Target) :
    Ensures Store.respond (fun store => store.metadata? table.name = some known)
      (recordTiers table options segments target) fun _ store => store.metadata? table.name =
        some (known.map (Store.retiered (segments.map fun name _ => target.segmentTiers.get? name))) := by
  unfold recordTiers
  rw [if_pos updates]
  have recorded : Ensures Store.respond (fun store => store.metadata? table.name = some known)
      (Program.call (.setTargetTiers table.name
        (segments.map fun name _ => target.segmentTiers.get? name)))
      fun _ store => store.metadata? table.name = some (known.map (Store.retiered
        (segments.map fun name _ => target.segmentTiers.get? name))) :=
    .call fun store held => (store.metadata?_setTargetTiers ..).trans (by rw [held]; rfl)
  exact .bind recorded fun _ => .pure fun _ held => held

private theorem carryOut_records (setup : RebalanceSetup) (table : TableConfig)
    (options : RebalanceOptions) (updates : options.updateTargetTier = true) (job : String)
    (facts : TableFacts) (plan : LayoutPlan) (target : Target) (minAvailable : Nat) :
    Ensures Store.respond (fun store => store.metadata? table.name = some known)
      (carryOut setup table options job facts plan target minAvailable) fun ended store =>
        ended.1 = .done → store.metadata? table.name = some (known.map (Store.retiered
          (facts.segments.map fun name _ => target.segmentTiers.get? name))) := by
  unfold carryOut
  refine .bind (asks_keeps_metadata (storeLayouts_asks (fun _ => rfl) _)) fun stored => ?_
  split
  · exact .pure fun _ _ done => by cases done
  · refine .bind (asks_keeps_metadata (dropLayouts_asks (fun _ => rfl) _)) fun dropped => ?_
    split
    · exact .pure fun _ _ done => by cases done
    · refine .bind (recordTiers_records updates facts.segments target) fun _ => ?_
      split
      · exact .pure fun _ held _ => held
      · let apply := applyJob setup table options job target.assignment minAvailable
        have kept := apply.sustains_of_kept
          (fun store => store.metadata? table.name = some (known.map (Store.retiered
            (facts.segments.map fun name _ => target.segmentTiers.get? name))))
          fun _ store other held => (Store.metadata?_respond other store table.name).trans held
        refine .bind (kept.run facts.ideal.assignment) fun outcome => ?_
        split <;> exact .pure fun _ held _ => held.choose_spec.1

variable {setup : RebalanceSetup} {table : TableConfig} {options : RebalanceOptions} {job : String}
  {store : Store} {result : RebalanceResult}

private theorem state_of_noOp
    (ended : ((run setup table options job).run Store.respond store).value = .ok result)
    (idle : result.status = .noOp) :
    ((run setup table options job).run Store.respond store).state = store := by
  have ensures : Ensures (recording Store.respond) _ _ _ := run_parts setup table options job
  have parts := ensures (false, store) rfl
  rw [run_recording] at parts
  have quiet := (parts.2 result ended).quiet (Or.inr (Or.inl idle))
  rw [Bool.false_or, List.any_eq_false] at quiet
  exact view_of_reads id (fun exchange member => Bool.eq_false_iff.mpr (quiet exchange member))
    fun _ state reads => Store.respond_of_reads reads state

theorem metadata_of_done (real : options.dryRun = false) (updates : options.updateTargetTier = true)
    (ended : ((run setup table options job).run Store.respond store).value = .ok result)
    (done : result.status = .done) :
    ∃ state plan target computed, Prepared setup table options store state plan target computed ∧
      result.computed = some computed ∧
      ((run setup table options job).run Store.respond store).state.metadata? table.name =
        some (state.segments.map (Store.retiered ((factsOf store state).segments.map
          fun name _ => target.segmentTiers.get? name))) := by
  obtain ⟨_, worked, left⟩ := run_value ended
  rw [← worked] at done
  obtain ⟨state, plan, target, computed, prepared⟩ := prepared_of_done done
  have reported := prepared.reported job
  obtain ⟨exchanges, _, reached⟩ := prepared.work_reaches job
  rw [reached] at done left
  obtain ⟨minAvailable, _, _, carried, finished⟩ := finish_done real done
  have held : store.metadata? table.name = some state.segments := by
    rw [Store.metadata?, prepared.found]
    rfl
  have records := carryOut_records setup table options updates job (factsOf store state) plan target
    minAvailable store held finished
  rw [worked] at reported
  exact ⟨state, plan, target, computed, prepared, reported,
    (congrArg (Store.metadata? · table.name) (left.trans carried)).trans records⟩

private theorem contains_factsOf {store : Store} {state : TableState} {name : String} :
    (factsOf store state).segments.contains name = true ↔ state.Names name := by
  have none : name ∉ (OrderedMap.empty : OrderedMap String Segment).keys := List.not_mem_nil
  simp only [factsOf, OrderedMap.contains_iff, OrderedMap.ofList, OrderedMap.mem_keys_insertAll,
    or_iff_right none, List.map_map, List.mem_map, OrderedMap.mem_values_iff, TableState.Names,
    Function.comp_apply]
  constructor
  · intro given
    obtain ⟨segment, ⟨key, held⟩, same⟩ := given
    exact ⟨key, segment, held, same⟩
  · intro given
    obtain ⟨key, segment, held, same⟩ := given
    exact ⟨segment, ⟨key, held⟩, same⟩

theorem retiered_recorded (known : OrderedMap String Segment) (target : Target) (name : String)
    (segment : Segment) :
    Store.retiered (known.map fun name _ => target.segmentTiers.get? name) name segment =
      if known.contains name then { segment with targetTier := target.segmentTiers.get? name }
      else segment := by
  rw [Store.retiered, OrderedMap.get?_map, OrderedMap.contains]
  cases known.get? name <;> rfl

/-- A rebalance that is done has recorded, for every segment of the assignment that has metadata
under its name, the tier by which its target places it, and none if its kind places it or if it
stays where it is, as long as some metadata gives that name. Metadata under a name that no metadata
gives stays as it was. A rebalance that finds nothing to do records nothing. -/
theorem run_records_tiers (setup : RebalanceSetup) (table : TableConfig)
    (options : RebalanceOptions) (job : String) (store : Store) (result : RebalanceResult)
    (real : options.dryRun = false) (updates : options.updateTargetTier = true)
    (ended : ((run setup table options job).run Store.respond store).value = .ok result) :
    let after := ((run setup table options job).run Store.respond store).state
    (result.status = .noOp → after = store) ∧
    (result.status = .done → ∃ state plan target computed stored,
      Prepared setup table options store state plan target computed ∧
      result.computed = some computed ∧ after.table? table.name = some stored ∧
      (∀ name replicas segment, state.ideal.assignment.get? name = some replicas →
        state.segments.get? name = some segment →
        let placer := table.placer? (factsOf store state).segments plan.layouts plan.tiers
          (placementOf setup options) name replicas
        target.Follows plan.layouts name replicas placer ∧
          (state.Names name → stored.segments.get? name =
            some { segment with targetTier := placer.bind Placer.tierName? })) ∧
      ∀ name, ¬ state.Names name → stored.segments.get? name = state.segments.get? name) := by
  refine ⟨state_of_noOp ended, fun done => ?_⟩
  obtain ⟨state, plan, target, computed, prepared, reported, recorded⟩ :=
    metadata_of_done real updates ended done
  obtain ⟨stored, found, same⟩ := Option.map_eq_some_iff.mp recorded
  obtain ⟨placed, _⟩ := compute_eq_ok prepared.computed
  refine ⟨state, plan, target, computed, stored, prepared, reported, found, ?_, ?_⟩
  · intro name replicas segment listed held placer
    refine ⟨TableConfig.follows_placer placed listed, fun named => ?_⟩
    have tier : target.segmentTiers.get? name = placer.bind Placer.tierName? :=
      TableConfig.segmentTiers_of_placer placed listed
    rw [same, OrderedMap.get?_map, held, Option.map_some, retiered_recorded,
      if_pos (contains_factsOf.mpr named), tier]
  · intro name nameless
    rw [same, OrderedMap.get?_map]
    cases held : state.segments.get? name with
    | none => rfl
    | some segment =>
      rw [Option.map_some, retiered_recorded, if_neg fun named => nameless (contains_factsOf.mp named)]

def recordingAnew : RebalanceOptions := { anew with updateTargetTier := true, downtime := true }

/-- The aged segment is recorded under its tier, and the tier that was recorded for the other one
is gone. -/
theorem stale_records_tiers :
    recordingAnew.dryRun = false ∧ recordingAnew.updateTargetTier = true ∧
    ∃ result stored, ((run coldSetup coldTable recordingAnew "job").run Store.respond
        staleStore).value = .ok result ∧ result.status = .done ∧
      ((run coldSetup coldTable recordingAnew "job").run Store.respond staleStore).state.table?
        coldTable.name = some stored ∧
      (stored.segments.get? "s").map Segment.targetTier = some (some "cold") ∧
      (stored.segments.get? "u").map Segment.targetTier = some none := by
  have told : ((run coldSetup coldTable recordingAnew "job").run Store.respond
      staleStore).value.toOption.map RebalanceResult.status = some .done := by decide +kernel
  obtain ⟨result, value, done⟩ := Option.map_eq_some_iff.mp told
  have ended := eq_ok_of_toOption value
  obtain ⟨state, plan, _, _, stored, prepared, _, found, each, _⟩ := (run_records_tiers coldSetup
    coldTable recordingAnew "job" staleStore result rfl rfl ended).2 done
  have held : staleStore.table? coldTable.name = some staleState := by decide +kernel
  have planned : LayoutPlan.planOf staleStore.snapshot.layouts coldTable recordingAnew
      staleStore.snapshot.servers = .ok renewedPlan := by decide +kernel
  obtain rfl := Option.some.inj (held.symm.trans prepared.found)
  obtain rfl := Except.ok.inj (planned.symm.trans prepared.planned)
  have aged := (each "s" (.uniform ["gone"] .online) { name := "s", endTimeMs := some 0 }
    (by decide +kernel) (by decide +kernel)).2 ⟨"s", _, rfl, rfl⟩
  have other := (each "u" (.uniform ["d"] .online) { name := "u", targetTier := some "warm" }
    (by decide +kernel) (by decide +kernel)).2 ⟨"u", _, rfl, rfl⟩
  refine ⟨rfl, rfl, result, stored, ended, done, found, ?_, ?_⟩
  · rw [aged]
    decide +kernel
  · rw [other]
    decide +kernel

def settledState : TableState :=
  { config := coldTable
    ideal := { table := "events_OFFLINE", assignment := .ofList [("s", .uniform ["c"] .online)] }
    segments := .ofList [("s", { name := "s", endTimeMs := some 0 })] }

/-- The segment is where its tier places it, but no tier is recorded for it. -/
def settledStore : Store :=
  { snapshot :=
      { servers := [{ id := "a", tags := ["hot"] }, { id := "c", tags := ["cold"] }]
        tables := .ofList [("events_OFFLINE", settledState)] } }

/-- There is nothing to do for the segment, so its tier is not recorded either. -/
theorem not_all_ends_record_tiers :
    ¬ ∀ (setup : RebalanceSetup) (table : TableConfig) (options : RebalanceOptions) (job : String)
      (store : Store) (result : RebalanceResult) (state stored : TableState) (plan : LayoutPlan)
      (name : String) (replicas : Replicas) (segment : Segment),
      options.dryRun = false → options.updateTargetTier = true →
      ((run setup table options job).run Store.respond store).value = .ok result →
      result.status = .done ∨ result.status = .noOp →
      store.table? table.name = some state →
      LayoutPlan.planOf store.snapshot.layouts table options store.snapshot.servers = .ok plan →
      ((run setup table options job).run Store.respond store).state.table? table.name =
        some stored →
      state.ideal.assignment.get? name = some replicas →
      stored.segments.get? name = some segment → segment.name = name →
      segment.targetTier = (table.placer? (factsOf store state).segments plan.layouts plan.tiers
        (placementOf setup options) name replicas).bind Placer.tierName? := by
  intro records
  let options : RebalanceOptions := { updateTargetTier := true }
  have told : ((run coldSetup coldTable options "job").run Store.respond
      settledStore).value.toOption.map RebalanceResult.status = some .noOp := by decide +kernel
  obtain ⟨result, value, idle⟩ := Option.map_eq_some_iff.mp told
  have missing := records coldSetup coldTable options "job" settledStore result settledState
    settledState renewedPlan.served "s" (.uniform ["c"] .online) { name := "s", endTimeMs := some 0 }
    rfl rfl (eq_ok_of_toOption value) (Or.inr idle) (by decide +kernel) (by decide +kernel)
    (by decide +kernel) (by decide +kernel) (by decide +kernel) rfl
  exact absurd missing (by decide +kernel)

end Rebalance

end SegmentPlacement

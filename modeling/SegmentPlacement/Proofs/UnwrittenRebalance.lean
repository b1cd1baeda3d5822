import SegmentPlacement.Proofs.RebalanceWrites
import SegmentPlacement.Proofs.StoreContents

/-! Rebalances that write nothing. All that a rebalance reads, computes and checks
comes before its first write, so a dry run, a rebalance that finds nothing to do
and one that fails on the way to its first write leave the cluster as it was. The
reasons that it gives for a failure tell on which side of the first write it was. -/

namespace SegmentPlacement
open Program

/-- The responder, noting whether it was asked to write. -/
def recording (respond : Responder σ) : Responder (Bool × σ) := fun request state =>
  ((respond request state.2).1, (state.1 || request.writes, (respond request state.2).2))

theorem run_recording (respond : Responder σ) (program : Program α) (wrote : Bool) (state : σ) :
    let ended := program.run respond state
    program.run (recording respond) (wrote, state) =
      { value := ended.value, exchanges := ended.exchanges,
        state := (wrote || ended.exchanges.any fun exchange => exchange.request.writes,
          ended.state) } := by
  induction program generalizing wrote state with
  | done value => simp [run_done]
  | ask request next ih =>
    simp only [run_ask, recording, ih, List.any_cons, Bool.or_assoc]

theorem view_of_reads {respond : Responder σ} {program : Program α} {state : σ} (view : σ → τ)
    (reads : ∀ exchange ∈ (program.run respond state).exchanges, exchange.request.writes = false)
    (kept : ∀ request state, request.writes = false → view (respond request state).2 = view state) :
    view (program.run respond state).state = view state := by
  induction program generalizing state with
  | done value => rfl
  | ask request next ih =>
    rw [run_ask] at reads ⊢
    obtain ⟨first, rest⟩ := List.forall_mem_cons.mp reads
    exact (ih _ rest).trans (kept request state first)

namespace ApplyJob

/-- How the reasons begin for which the loop fails. -/
def loopFailures : List String := "Rebalance of " :: stepFailures

variable {apply : ApplyJob} {respond : Responder σ}

private theorem writeSteps_ensures (rounds steps : Nat) (previous : Assignment) :
    Ensures respond (fun _ => True) (apply.writeSteps rounds steps previous) fun outcome _ =>
      ∀ text, outcome = .failed text → BeginsWith loopFailures text := by
  have stuck (reason : String) : BeginsWith loopFailures ("Rebalance of " ++ apply.table ++ reason) := by
    rw [String.append_assoc]
    exact .append List.mem_cons_self _
  have step {text : String} (begins : BeginsWith stepFailures text) : BeginsWith loopFailures text :=
    begins.mono (List.subset_cons_self ..)
  induction rounds generalizing steps previous with
  | zero => exact .pure fun _ _ text same => by cases same; exact stuck _
  | succ rounds ih =>
    rw [writeSteps]
    refine .bind .trivially fun stopped => ?_
    split
    · exact .pure fun _ _ text same => by cases same
    · refine .bind .trivially fun result => ?_
      cases result with
      | error error =>
        exact .pure fun _ _ text same => by cases same; exact step (updateFailure_begins error)
      | ok update =>
        simp only
        split
        · refine .pure fun _ _ text same => ?_
          split at same
          · cases same
          · cases same
            exact stuck _
        · refine .bind .trivially fun _ => .bind (settle_ensures _ _ _) fun outcome => ?_
          split
          · exact .pure fun _ begins text same => by cases same; exact step (begins _ rfl)
          · split
            · exact .pure fun _ _ text same => by cases same
            · exact .weaken (ih _ _) (fun _ _ => trivial) fun _ _ ended => ended

end ApplyJob

namespace Rebalance

/-- How the reasons begin for which a rebalance fails before its first write. -/
def earlyFailures : List String :=
  ["Pre-checks can only be enabled in dry-run mode, not triggering rebalance",
    "Invalid table config: ",
    "Caught exception while fetching ideal state: ",
    "Cannot find the ideal state for table: ",
    "Caught exception while fetching instance configs: ",
    "Caught exception while fetching segment metadata: ",
    "Caught exception while calculating instance partitions: ",
    "Caught exception while calculating target assignment: ",
    "Illegal config for minAvailableReplicas: "]

/-- How the reasons begin for which a rebalance fails once it may have written. -/
def lateFailures : List String :=
  "Caught exception while persisting instance partitions: " ::
    "Caught exception while removing instance partitions: " :: ApplyJob.loopFailures

private theorem not_late_of_early {text : String} (early : BeginsWith earlyFailures text) :
    ¬ BeginsWith lateFailures text := early.apart (by decide +kernel)

variable {respond : Responder σ}

private theorem readFacts_ensures (table : String) :
    Ensures respond (fun _ => True) (readFacts table) fun outcome _ =>
      ∀ text, outcome = .error text → BeginsWith earlyFailures text := by
  unfold readFacts
  refine .bind .trivially fun ideal => ?_
  split
  · exact .pure fun _ _ text same => by cases same; exact .append (by decide) _
  · exact .pure fun _ _ text same => by cases same; exact .append (by decide) _
  · refine .bind .trivially fun servers => ?_
    split
    · exact .pure fun _ _ text same => by cases same; exact .append (by decide) _
    · refine .bind .trivially fun segments => ?_
      split
      · exact .pure fun _ _ text same => by cases same; exact .append (by decide) _
      · exact .pure fun _ _ text same => by cases same

private theorem storeLayouts_ensures (layouts : List Layout) :
    Ensures respond (fun _ => True) (storeLayouts layouts) fun outcome _ =>
      ∀ text, outcome = .error text → BeginsWith lateFailures text := by
  induction layouts with
  | nil => exact .pure fun _ _ text same => by cases same
  | cons layout rest ih =>
    rw [storeLayouts]
    refine .bind .trivially fun reply => ?_
    split
    · exact .pure fun _ _ text same => by cases same; exact .append (by decide) _
    · exact .weaken ih (fun _ _ => trivial) fun _ _ ended => ended

private theorem dropLayouts_ensures (names : List String) :
    Ensures respond (fun _ => True) (dropLayouts names) fun outcome _ =>
      ∀ text, outcome = .error text → BeginsWith lateFailures text := by
  induction names with
  | nil => exact .pure fun _ _ text same => by cases same
  | cons name rest ih =>
    rw [dropLayouts]
    refine .bind .trivially fun reply => ?_
    split
    · exact .pure fun _ _ text same => by cases same; exact .append (by decide) _
    · exact .weaken ih (fun _ _ => trivial) fun _ _ ended => ended

theorem carryOut_ensures (setup : RebalanceSetup) (table : TableConfig) (options : RebalanceOptions)
    (job : String) (facts : TableFacts) (plan : LayoutPlan) (target : Target)
    (minAvailable : Nat) :
    Ensures respond (fun _ => True)
      (carryOut setup table options job facts plan target minAvailable)
      fun ended _ => ended.1 ≠ .noOp ∧ (ended.1 = .failed → BeginsWith lateFailures ended.2) := by
  unfold carryOut
  refine .bind (storeLayouts_ensures _) fun stored => ?_
  split
  · exact .pure fun _ late => ⟨nofun, fun _ => late _ rfl⟩
  · refine .bind (.weaken (dropLayouts_ensures _) (fun _ _ => trivial) fun _ _ late => late)
      fun dropped => ?_
    split
    · exact .pure fun _ late => ⟨nofun, fun _ => late _ rfl⟩
    · refine .bind .trivially fun _ => ?_
      split
      · exact .pure fun _ _ => ⟨nofun, nofun⟩
      · refine .bind (ApplyJob.writeSteps_ensures _ _ _) fun outcome => ?_
        split
        · exact .pure fun _ _ => ⟨nofun, nofun⟩
        · exact .pure fun _ _ => ⟨nofun, nofun⟩
        · exact .pure fun _ begins => ⟨nofun, fun _ => (begins _ rfl).mono
            (fun _ listed => List.mem_cons_of_mem _ (List.mem_cons_of_mem _ listed))⟩

/-- Either nothing was written and a failure is an early one, or there was something to do, for
real, and a failure is a late one. -/
inductive Parts (options : RebalanceOptions) (result : RebalanceResult) (wrote : Bool) : Prop where
  | before (quiet : wrote = false)
      (early : result.status = .failed → BeginsWith earlyFailures result.description)
  | after (real : options.dryRun = false) (needed : result.status ≠ .noOp)
      (late : result.status = .failed → BeginsWith lateFailures result.description)

private theorem reads_quiet {program : Program α}
    (asks : program.Asks fun request => request.writes = false) :
    Ensures (recording respond) (fun state => state.1 = false) program
      fun _ state => state.1 = false :=
  .of_asks asks fun request state reads quiet => by simp only [recording, quiet, reads, Bool.or_false]

private theorem judge_cases (table : TableConfig) (options : RebalanceOptions) (unchanged : Bool)
    (plan : LayoutPlan) (target : Assignment) :
    (∃ status description, judge table options unchanged plan target = .ends status description ∧
      (status = .failed → BeginsWith earlyFailures description)) ∨
    (∃ minAvailable, judge table options unchanged plan target = .goesOn minAvailable ∧
      options.dryRun = false) := by
  simp only [judge]
  split
  · exact Or.inl ⟨_, _, rfl, fun failed => by cases failed⟩
  · split
    · exact Or.inl ⟨_, _, rfl, fun failed => by cases failed⟩
    · rename_i real
      split
      · refine Or.inl ⟨_, _, rfl, fun _ => ?_⟩
        simp only [String.append_assoc]
        exact .append (by decide) _
      · exact Or.inr ⟨_, rfl, Bool.eq_false_iff.mpr real⟩

theorem work_parts (setup : RebalanceSetup) (table : TableConfig) (options : RebalanceOptions)
    (job : String) :
    Ensures (recording respond) (fun state => state.1 = false) (work setup table options job)
      fun result state => Parts options result state.1 := by
  rw [work]
  split
  · exact .pure fun _ quiet => .before quiet fun _ => ⟨_, List.mem_cons_self, "", rfl⟩
  · split
    · exact .pure fun _ quiet => .before quiet fun _ => .append (by decide) _
    · refine .bind (.weaken ((reads_quiet (readFacts_asks _)).and (readFacts_ensures _))
        (fun _ quiet => ⟨quiet, trivial⟩) fun _ _ both => both) fun facts => ?_
      split
      · exact .pure fun _ both => .before both.1 fun _ => both.2 _ rfl
      · refine .bind (.weaken (reads_quiet (make_asks ..)) (fun _ both => both.1)
          fun _ _ quiet => quiet) fun plan => ?_
        split
        · exact .pure fun _ quiet => .before quiet fun _ => .append (by decide) _
        · split
          · exact .pure fun _ quiet => .before quiet fun _ => .append (by decide) _
          · rename_i facts _ plan _ target computed _
            simp only
            rcases judge_cases table options (decide (target.assignment = facts.ideal.assignment))
              plan target.assignment with ⟨status, description, judged, early⟩ | ⟨_, judged, real⟩
            · rw [judged]
              exact .pure fun _ quiet => .before quiet early
            · rw [judged]
              refine .bind (.weaken (carryOut_ensures _ _ _ _ _ _ _ _) (fun _ _ => trivial)
                fun _ _ ended => ended) fun ended => ?_
              exact .pure fun _ parts => .after real parts.1 parts.2

/-- The rebalance is refused, is a dry run, finds nothing to do, or fails before its first
write. -/
def StopsShort (options : RebalanceOptions) : Except Error RebalanceResult → Prop
  | .error _ => True
  | .ok result => options.dryRun = true ∨ result.status = .noOp ∨
      (result.status = .failed ∧ BeginsWith earlyFailures result.description)

theorem Parts.quiet {options : RebalanceOptions} {result : RebalanceResult} {wrote : Bool}
    (parts : Parts options result wrote) (short : StopsShort options (.ok result)) :
    wrote = false := by
  cases parts with
  | before quiet early => exact quiet
  | after real needed late =>
    rcases short with dry | idle | ⟨failed, early⟩
    · exact absurd (real.symm.trans dry) Bool.false_ne_true
    · exact absurd idle needed
    · exact absurd (late failed) (not_late_of_early early)

theorem Parts.reason {options : RebalanceOptions} {result : RebalanceResult} {wrote : Bool}
    (parts : Parts options result wrote) (failed : result.status = .failed) :
    BeginsWith earlyFailures result.description ↔ ¬ BeginsWith lateFailures result.description := by
  refine ⟨not_late_of_early, fun other => ?_⟩
  cases parts with
  | before quiet early => exact early failed
  | after real needed late => exact absurd (late failed) other

theorem run_parts (setup : RebalanceSetup) (table : TableConfig) (options : RebalanceOptions)
    (job : String) :
    Ensures (recording respond) (fun state => state.1 = false) (run setup table options job)
      fun outcome state => (∀ error, outcome = .error error → state.1 = false) ∧
        ∀ result, outcome = .ok result → Parts options result state.1 := by
  unfold run
  split
  · exact .pure fun _ quiet => ⟨fun _ _ => quiet, nofun⟩
  · refine .bind (work_parts setup table options job) fun result => ?_
    have told : Ensures (recording respond) (fun state => Parts options result state.1)
        (Program.call (.report ⟨job, 0, 0, .completed result.status⟩))
        fun _ state => Parts options result state.1 :=
      .call fun state parts => by
        rw [recording]
        exact (Bool.or_false state.1).symm ▸ parts
    refine .bind told fun _ => .pure fun _ parts => ⟨nofun, fun other same => ?_⟩
    exact Except.ok.inj same ▸ parts

/-- A rebalance that stops short writes nothing, so whatever reads do not change is as before. A
rebalance that fails stops short or not by the reason that it gives. -/
theorem run_leaves_cluster (setup : RebalanceSetup) (table : TableConfig)
    (options : RebalanceOptions) (job : String) (respond : Responder σ) (state : σ) :
    let ended := (run setup table options job).run respond state
    (StopsShort options ended.value →
      (∀ exchange ∈ ended.exchanges, exchange.request.writes = false) ∧
      ∀ (τ : Type) (view : σ → τ),
        (∀ request state, request.writes = false → view (respond request state).2 = view state) →
        view ended.state = view state) ∧
    ∀ result, ended.value = .ok result → result.status = .failed →
      (BeginsWith earlyFailures result.description ↔
        ¬ BeginsWith lateFailures result.description) := by
  intro ended
  have ensures : Ensures (recording respond) _ _ _ := run_parts setup table options job
  have parts := ensures (false, state) rfl
  rw [run_recording] at parts
  obtain ⟨refused, carried⟩ := parts
  refine ⟨fun short => ?_, fun result value failed => (carried result value).reason failed⟩
  have none : (false || ended.exchanges.any fun exchange => exchange.request.writes) = false := by
    cases value : ended.value with
    | error error => exact refused error value
    | ok result => exact (carried result value).quiet (value ▸ short)
  have quiet : ∀ exchange ∈ ended.exchanges, exchange.request.writes = false := by
    simpa using none
  exact ⟨quiet, fun τ view kept => view_of_reads view quiet kept⟩

def soundTable : TableConfig := .offline "t" 1 "T"

/-- One slot that lists a server twice. -/
def spoiledLayout : Layout :=
  { name := "t_OFFLINE"
    numPartitions := 1
    numGroups := 1
    slots := .ofList [("0_0", ["a", "a"])] }

def spoiledStore : Store :=
  { snapshot :=
      { servers := [{ id := "a", tags := ["T"] }]
        tables := .ofList [("t_OFFLINE", { config := soundTable, ideal := { table := "t_OFFLINE" } })]
        layouts := .ofList [("t_OFFLINE", spoiledLayout)] } }

theorem spoiledStore_left :
    let ended := (run {} soundTable { reassignInstances := true } "job").run Store.respond spoiledStore
    ended.value = .ok ⟨"job", .failed, "Caught exception while calculating instance partitions: " ++
      "Invalid instance partitions: duplicate instance in slot 0_0 of t_OFFLINE", none⟩ ∧
    (∀ exchange ∈ ended.exchanges, exchange.request.writes = false) ∧
      ended.state = spoiledStore := by
  intro ended
  have value : ended.value = .ok ⟨"job", .failed,
      "Caught exception while calculating instance partitions: " ++
        "Invalid instance partitions: duplicate instance in slot 0_0 of t_OFFLINE", none⟩ := by
    decide +kernel
  have short : StopsShort { reassignInstances := true } ended.value := by
    rw [value]
    exact Or.inr (Or.inr ⟨rfl, .append (by decide) _⟩)
  obtain ⟨quiet, kept⟩ := (run_leaves_cluster {} soundTable { reassignInstances := true } "job"
    Store.respond spoiledStore).1 short
  exact ⟨value, quiet, kept Store id fun _ store reads => Store.respond_of_reads reads store⟩

end Rebalance

end SegmentPlacement

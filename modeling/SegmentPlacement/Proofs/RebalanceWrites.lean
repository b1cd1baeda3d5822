import SegmentPlacement.Proofs.ApplyWrites
import SegmentPlacement.Rebalance.Run

/-! Which ideal states a rebalance writes. All of them come from the loop that
applies the target, so each is a step toward the assignment that the rebalance
reports, with the floor that its options allow for that assignment. -/

namespace SegmentPlacement.Rebalance
open Program SharedTable

/-- No request of this kind replaces an ideal state. -/
def Leaves (request : Request) : Prop := request.replacesIdeal = false

theorem leaves_of_reads (request : Request) (reads : request.writes = false) : Leaves request :=
  Request.replacesIdeal_of_reads reads

theorem readFacts_asks (table : String) :
    (readFacts table).Asks fun request => request.writes = false := by
  unfold readFacts
  refine .bind (.call rfl) fun ideal => ?_
  split
  · exact .pure _
  · exact .pure _
  · refine .bind (.call rfl) fun servers => ?_
    split
    · exact .pure _
    · refine .bind (.call rfl) fun segments => ?_
      split <;> exact .pure _

private theorem readLayout_asks (name : String) :
    (LayoutPlan.readLayout name).Asks fun request => request.writes = false := by
  unfold LayoutPlan.readLayout
  refine .bind (.call rfl) fun stored => ?_
  split <;> exact .pure _

private theorem addAll_asks (nameOf : ι → String)
    (add : LayoutPlan → ι → Option Layout → Except Error LayoutPlan) (items : List ι)
    (plan : LayoutPlan) :
    (LayoutPlan.addAll nameOf add items plan).Asks fun request => request.writes = false := by
  induction items generalizing plan with
  | nil => exact .pure _
  | cons item rest ih =>
    rw [LayoutPlan.addAll]
    refine .bind (readLayout_asks _) fun stored => ?_
    split
    · exact .pure _
    · split
      · exact .pure _
      · exact ih _

theorem make_asks (table : TableConfig) (options : RebalanceOptions) (servers : List Server) :
    (LayoutPlan.make table options servers).Asks fun request => request.writes = false := by
  unfold LayoutPlan.make
  refine .bind (addAll_asks ..) fun kinds => ?_
  split
  · exact .pure _
  · split
    · exact .pure _
    · exact addAll_asks ..

theorem storeLayouts_asks {allowed : Request → Prop} (puts : ∀ layout, allowed (.putLayout layout))
    (layouts : List Layout) : (storeLayouts layouts).Asks allowed := by
  induction layouts with
  | nil => exact .pure _
  | cons layout rest ih =>
    rw [storeLayouts]
    refine .bind (.call (puts layout)) fun reply => ?_
    split
    · exact .pure _
    · exact ih

theorem dropLayouts_asks {allowed : Request → Prop} (removes : ∀ name, allowed (.removeLayout name))
    (names : List String) : (dropLayouts names).Asks allowed := by
  induction names with
  | nil => exact .pure _
  | cons name rest ih =>
    rw [dropLayouts]
    refine .bind (.call (removes name)) fun reply => ?_
    split
    · exact .pure _
    · exact ih

private theorem recordTiers_asks (table : TableConfig) (options : RebalanceOptions)
    (segments : OrderedMap String Segment) (target : Target) :
    (recordTiers table options segments target).Asks Leaves := by
  unfold recordTiers
  split
  · exact .bind (.call rfl) fun _ => .pure _
  · exact .pure _

/-- The program has not written yet. -/
structure Untouched (shared : SharedTable) : Prop where
  writes : shared.writes = []
  foreign : shared.foreign = shared.ideal.assignment

theorem Untouched.start (ideal : IdealState) (schedule : Nat → Turn) :
    Untouched (.start ideal schedule) := ⟨rfl, rfl⟩

theorem Untouched.respects {shared : SharedTable} (untouched : Untouched shared)
    (apply : ApplyJob) : apply.Respects shared := by
  refine ⟨?_, untouched.foreign ▸ .refl ..⟩
  intro write member
  rw [untouched.writes] at member
  cases member

private theorem asks_untouched {program : Program α} (asks : program.Asks Leaves) :
    Ensures SharedTable.respond Untouched program fun _ => Untouched := by
  refine .of_asks asks fun request shared leaves untouched => ?_
  obtain ⟨read, after⟩ := respond_of_no_write shared leaves
  rw [after]
  obtain ⟨writes, _, ⟨ideal, foreign⟩ | latest⟩ := shared.arrive_cases
  · exact ⟨writes.trans untouched.writes, foreign.trans (untouched.foreign.trans (ideal ▸ rfl))⟩
  · exact ⟨writes.trans untouched.writes, latest⟩

private theorem compute_assignment {setup : RebalanceSetup} {table : TableConfig}
    {options : RebalanceOptions} {facts : TableFacts} {plan : LayoutPlan} {target : Target}
    {computed : Computation} (done : compute setup table options facts plan = .ok (target, computed)) :
    computed.assignment = target.assignment := by
  unfold compute at done
  cases placed : table.target facts.segments plan.layouts plan.tiers facts.ideal.assignment
      { includeConsuming := options.includeConsuming, bootstrap := options.bootstrap,
        now := setup.now } with
  | error error => simp [placed, Bind.bind, Except.bind] at done
  | ok found =>
    simp only [placed, Bind.bind, Except.bind, Pure.pure, Except.pure, Except.ok.injEq,
      Prod.mk.injEq] at done
    obtain ⟨rfl, rfl⟩ := done
    rfl

private theorem judge_goesOn {table : TableConfig} {options : RebalanceOptions} {unchanged : Bool}
    {plan : LayoutPlan} {target : Assignment} {minAvailable : Nat}
    (judged : judge table options unchanged plan target = .goesOn minAvailable) :
    minAvailable = options.minAvailable (target.replication table.replication) := by
  simp only [judge] at judged
  split at judged
  · cases judged
  · split at judged
    · cases judged
    · split at judged
      · cases judged
      · exact (Verdict.goesOn.inj judged).symm

/-- Every write is a step toward the target. -/
def StepsToward (target : Assignment) (minAvailable : Nat) (batch : Option Nat)
    (shared : SharedTable) : Prop :=
  ∀ write ∈ shared.writes,
    write.after = Move.next write.before.assignment target minAvailable batch

private theorem Untouched.stepsToward {shared : SharedTable} (untouched : Untouched shared)
    (target : Assignment) (minAvailable : Nat) (batch : Option Nat) :
    StepsToward target minAvailable batch shared := by
  intro write member
  rw [untouched.writes] at member
  cases member

theorem carryOut_steps (setup : RebalanceSetup) (table : TableConfig) (options : RebalanceOptions)
    (job : String) (facts : TableFacts) (plan : LayoutPlan) (target : Target)
    (minAvailable : Nat) :
    Ensures SharedTable.respond Untouched
      (carryOut setup table options job facts plan target minAvailable)
      fun _ => StepsToward target.assignment minAvailable options.batchSize := by
  have idle : ∀ shared, Untouched shared →
      StepsToward target.assignment minAvailable options.batchSize shared :=
    fun _ untouched => untouched.stepsToward _ _ _
  unfold carryOut
  refine .bind (asks_untouched (storeLayouts_asks (fun _ => rfl) _)) fun stored => ?_
  split
  · exact .pure idle
  · refine .bind (asks_untouched (dropLayouts_asks (fun _ => rfl) _)) fun dropped => ?_
    split
    · exact .pure idle
    · refine .bind (asks_untouched (recordTiers_asks ..)) fun _ => ?_
      split
      · exact .pure idle
      · let apply := applyJob setup table options job target.assignment minAvailable
        have steps : ∀ shared, apply.Respects shared →
            StepsToward target.assignment minAvailable options.batchSize shared :=
          fun _ respects write member => (respects.writes write member).step
        have written := ApplyJob.writeSteps_respects apply apply.roundLimit 0 facts.ideal.assignment
        refine .bind (.weaken written (fun _ untouched => untouched.respects apply)
          fun _ shared respects => steps shared respects) fun outcome => ?_
        split <;> exact .pure fun _ holds => holds

/-- What a rebalance reports accounts for what it wrote. -/
def Accounts (table : TableConfig) (options : RebalanceOptions) (result : RebalanceResult)
    (shared : SharedTable) : Prop :=
  shared.writes = [] ∨ ∃ computed, result.computed = some computed ∧
    StepsToward computed.assignment
      (options.minAvailable (computed.assignment.replication table.replication))
      options.batchSize shared

theorem work_accounts (setup : RebalanceSetup) (table : TableConfig) (options : RebalanceOptions)
    (job : String) :
    Ensures SharedTable.respond Untouched (work setup table options job)
      (Accounts table options) := by
  have idle : ∀ {result : RebalanceResult}, ∀ shared, Untouched shared →
      Accounts table options result shared := fun _ untouched => Or.inl untouched.writes
  rw [work]
  split
  · exact .pure idle
  · split
    · exact .pure idle
    · refine .bind (asks_untouched ((readFacts_asks _).mono leaves_of_reads)) fun facts => ?_
      split
      · exact .pure idle
      · refine .bind (asks_untouched ((make_asks ..).mono leaves_of_reads)) fun plan => ?_
        split
        · exact .pure idle
        · split
          · exact .pure idle
          · rename_i target computed done
            simp only
            split
            · exact .pure idle
            · rename_i minAvailable judged
              refine .bind (carryOut_steps _ _ _ _ _ _ _ _) fun ended => ?_
              refine .pure fun shared steps => Or.inr ⟨computed, rfl, ?_⟩
              rw [compute_assignment done, ← judge_goesOn judged]
              exact steps

/-- Every ideal state that a rebalance writes is a step toward the assignment that it reports,
from the state that it replaces. -/
theorem run_accounts (setup : RebalanceSetup) (table : TableConfig) (options : RebalanceOptions)
    (job : String) :
    Ensures SharedTable.respond Untouched (run setup table options job) fun outcome shared =>
      shared.writes = [] ∨
        ∃ result, outcome = .ok result ∧ Accounts table options result shared := by
  unfold run
  split
  · exact .pure fun _ untouched => Or.inl untouched.writes
  · refine .bind (work_accounts _ _ _ _) fun result => ?_
    have reported : Ensures SharedTable.respond (Accounts table options result)
        (Program.call (.report ⟨job, 0, 0, .completed result.status⟩))
        fun _ => Accounts table options result := by
      refine .call fun shared accounts => ?_
      have leaves : Leaves (.report ⟨job, 0, 0, .completed result.status⟩) := rfl
      obtain ⟨read, after⟩ := respond_of_no_write shared leaves
      rw [after]
      simp only [Accounts, StepsToward, shared.arrive_cases.1] at accounts ⊢
      exact accounts
    refine .bind reported fun _ => ?_
    exact .pure fun _ accounts => Or.inr ⟨result, rfl, accounts⟩

end SegmentPlacement.Rebalance

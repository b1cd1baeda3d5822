import Mathlib.Algebra.Order.Floor.Div
import SegmentPlacement.Proofs.ApplyWaits
import SegmentPlacement.Rebalance.Run

/-! Waits that come to an end. Whatever the servers report, a wait looks at them at
most once more than its interval fits into its timeout. Between two looks of a job
that sets an interval of 0 no time passes, though, and such a job is accepted: if it
has any time to wait, it may wait forever. -/

namespace SegmentPlacement

namespace ApplyJob
open Program

def isLook : Request → Bool
  | .externalView _ => true
  | _ => false

def countLook (looks : Nat) : Exchange → Nat
  | ⟨.compareAndSet .., .ok true⟩ => 0
  | ⟨.externalView _, _⟩ => looks + 1
  | _ => looks

/-- The looks at the servers since the latest write that was accepted. -/
def looksSinceWrite (exchanges : List Exchange) : Nat := exchanges.foldl countLook 0

/-- Whatever a wait is answered, it comes to an end after so many looks. -/
structure WaitsWithin (apply : ApplyJob) (most : Nat) : Prop where
  /-- The wait is over by then, so room for more rounds makes no difference. -/
  ends : ∀ (written : Assignment) (rounds : Nat), most ≤ rounds →
    apply.wait written rounds 0 = apply.wait written most 0
  looks : ∀ (written : Assignment) (rounds : Nat) {σ : Type} (respond : Responder σ) (state : σ),
    looksSinceWrite ((apply.wait written rounds 0).run respond state).exchanges ≤ most
  /-- So it is after every step of the loop. -/
  run : ∀ (current : Assignment) {σ : Type} (respond : Responder σ) (state : σ)
    (before : List Exchange) (exchange : Exchange) (after : List Exchange),
    ((apply.run current).run respond state).exchanges = before ++ exchange :: after →
      isLook exchange.request = true → looksSinceWrite before < most

variable {apply : ApplyJob} {written : Assignment} {looks most rounds elapsedMs : Nat}

private theorem wait_of_enough (enough : apply.timeoutMs ≤ elapsedMs + most * apply.checkIntervalMs)
    (room : most < rounds) :
    apply.wait written rounds elapsedMs = apply.wait written (most + 1) elapsedMs := by
  induction most generalizing rounds elapsedMs with
  | zero =>
    obtain ⟨rounds, rfl⟩ := Nat.exists_eq_add_of_lt room
    have late : apply.timeoutMs ≤ elapsedMs := by simpa using enough
    simp only [wait, if_pos late]
  | succ most ih =>
    obtain ⟨rounds, rfl⟩ : ∃ others, rounds = others + 1 := ⟨rounds - 1, by omega⟩
    have later := @ih rounds (elapsedMs + apply.checkIntervalMs) (by rw [Nat.succ_mul] at enough; omega)
      (by omega)
    rw [wait, wait, later]

/-- No look is made when there were as many as there may be. -/
def MayLook (most looks : Nat) (request : Request) : Prop := isLook request = true → looks < most

private theorem heeds_of_idle {program : Program α}
    (asks : program.Asks fun request => idle request = true) :
    program.Heeds countLook (MayLook most) (fun _ now => now = looks) looks := by
  refine .of_asks asks (fun request _ asked _ look => ?_) (fun request answer now asked same => ?_) rfl
  · cases request with
    | externalView => cases asked
    | _ => cases look
  · cases request with
    | compareAndSet | externalView => cases asked
    | _ => exact same

private theorem wait_mayLook (room : looks + rounds ≤ most) :
    (apply.wait written rounds elapsedMs).Heeds countLook (MayLook most) (fun _ now => now ≤ most)
      looks := by
  induction rounds generalizing looks elapsedMs with
  | zero => exact .pure room
  | succ rounds ih =>
    rw [wait]
    have looked : (Program.call (.externalView apply.table)).Heeds countLook (MayLook most)
        (fun _ now => now = looks + 1) looks := .call (fun _ => by omega) fun _ => rfl
    refine .bind looked fun view now seen => ?_
    subst seen
    split
    · exact .pure (by omega)
    · split
      · exact .pure (by omega)
      · refine .bind (heeds_of_idle (.call rfl)) fun _ now same => ?_
        subst same
        exact ih (by omega)

theorem settle_mayLook (enough : apply.timeoutMs ≤ most * apply.checkIntervalMs) (step updated : Nat) :
    (apply.settle written step updated).Heeds countLook (MayLook (most + 1)) (fun _ _ => True) 0 := by
  have waits : (apply.wait written apply.roundLimit 0).Heeds countLook (MayLook (most + 1))
      (fun _ now => now ≤ most + 1) 0 := by
    by_cases room : most < apply.roundLimit
    · rw [wait_of_enough (by rwa [Nat.zero_add]) room]
      exact wait_mayLook (Nat.zero_add _).le
    · exact wait_mayLook (by omega)
  unfold settle
  split
  · exact .pure trivial
  · refine .bind waits fun outcome now _ => ?_
    split
    · exact .pure trivial
    · exact .bind (heeds_of_idle (.call rfl)) fun _ _ _ => .pure trivial

theorem attempt_mayLook (policy : RetryPolicy) (left tried : Nat) (failure : Option String) :
    (StateUpdate.attempt apply.table apply.change policy true left tried failure).Heeds countLook
      (MayLook most)
      (fun result now => ∀ update, result = .ok update → update.updated = true → now = 0) looks := by
  have failed (error : Error) (now : Nat) :
      (pure (.error error) : Program (Except Error StateUpdate)).Heeds countLook (MayLook most)
        (fun result now => ∀ update, result = .ok update → update.updated = true → now = 0) now :=
    .pure fun _ same => by cases same
  induction left generalizing tried failure looks with
  | zero => cases failure <;> exact failed _ _
  | succ left ih =>
    rw [StateUpdate.attempt]
    refine .bind (heeds_of_idle (pauseBefore_idle policy tried)) fun _ now paused => ?_
    refine .bind (heeds_of_idle (.call rfl)) fun reply seen read => ?_
    subst paused read
    split
    · exact ih _ _
    · exact failed _ _
    · rename_i current
      split
      · exact .pure fun update same updated => by cases same; cases updated
      · rename_i next _
        have written : (Program.call (.compareAndSet apply.table current.version next)).Heeds
            countLook (MayLook most) (fun reply now => reply = .ok true → now = 0) seen := by
          refine .call (fun look => by cases look) fun reply accepted => ?_
          rw [accepted]
          rfl
        refine .bind written fun reply now fresh => ?_
        split
        · exact .pure fun _ _ _ => fresh rfl
        · exact ih _ _
        · exact ih _ _

private theorem writeSteps_mayLook (enough : apply.timeoutMs ≤ most * apply.checkIntervalMs)
    (rounds steps : Nat) (previous : Assignment) :
    (apply.writeSteps rounds steps previous).Heeds countLook (MayLook (most + 1)) (fun _ _ => True)
      looks := by
  induction rounds generalizing steps previous looks with
  | zero => exact .pure trivial
  | succ rounds ih =>
    rw [writeSteps]
    refine .bind (heeds_of_idle (.call rfl)) fun stopped _ _ => ?_
    split
    · exact .pure trivial
    · refine .bind (attempt_mayLook _ _ _ _) fun result now attempted => ?_
      cases result with
      | error error => exact .pure trivial
      | ok update =>
        simp only
        split
        · exact .pure trivial
        · rename_i wrote
          have fresh := attempted update rfl (by simpa using wrote)
          subst fresh
          refine .bind (heeds_of_idle (.call rfl)) fun _ now same => ?_
          subst same
          refine .bind (settle_mayLook enough _ _) fun outcome _ _ => ?_
          split
          · exact .pure trivial
          · split
            · exact .pure trivial
            · exact ih _ _

private theorem waitsWithin_of_enough (enough : apply.timeoutMs ≤ most * apply.checkIntervalMs) :
    apply.WaitsWithin (most + 1) where
  ends _ rounds room := wait_of_enough (by rwa [Nat.zero_add]) room
  looks written rounds _ respond state := by
    by_cases room : most < rounds
    · rw [wait_of_enough (by rwa [Nat.zero_add]) room]
      exact ((wait_mayLook (Nat.zero_add _).le).run respond state).2
    · exact ((wait_mayLook (by omega)).run respond state).2
  run current _ respond state before exchange after split look :=
    ((writeSteps_mayLook enough _ _ current).run respond state).1 before exchange after split look

/-- A service that never answers. -/
def unanswered : Responder Unit
  | .externalView _, state => (.error "no answer", state)
  | request, state => ((Store.respond request {}).1, state)

/-- When no time passes, only the room for rounds ends a wait. -/
theorem looks_of_standstill (still : apply.checkIntervalMs = 0) (early : elapsedMs < apply.timeoutMs) :
    ((apply.wait written rounds elapsedMs).run unanswered ()).exchanges.foldl countLook looks =
      looks + rounds := by
  induction rounds generalizing looks elapsedMs with
  | zero => rfl
  | succ rounds ih =>
    have later := @ih (looks + 1) (elapsedMs + apply.checkIntervalMs) (by omega)
    have looked : (Program.call (.externalView apply.table)).run unanswered () =
        ⟨.error "no answer", [⟨.externalView apply.table, .error "no answer"⟩], ()⟩ := rfl
    have pending : apply.settledBy written (.error "no answer") = none := rfl
    rw [wait, run_bind, looked]
    simp only [pending, if_neg (Nat.not_le.mpr early), run_bind, List.foldl_append]
    exact later.trans (Nat.succ_add_eq_add_succ looks rounds)

private theorem not_waitsWithin_of_standstill (still : apply.checkIntervalMs = 0)
    (some : apply.timeoutMs ≠ 0) : ¬ apply.WaitsWithin most := by
  intro within
  have looks := within.looks {} (most + 1) unanswered ()
  rw [looksSinceWrite, looks_of_standstill still (Nat.pos_of_ne_zero some)] at looks
  omega

end ApplyJob

private theorem ServiceSettings.viewCheckIntervalMs_ne_zero {settings : ServiceSettings}
    (accepted : settings.validate = .ok settings) : settings.viewCheckIntervalMs ≠ 0 := by
  intro zero
  unfold ServiceSettings.validate at accepted
  split at accepted
  · cases accepted
  · split at accepted
    · cases accepted
    · cases accepted

namespace Rebalance
open ApplyJob

/-- The interval and the timeout are those of the job, or else those of the service. Every wait ends
in time unless the job sets the interval to 0 and has time to wait, and then nothing ends it. -/
theorem waitsWithin_iff (setup : RebalanceSetup) (table : TableConfig) (options : RebalanceOptions)
    (job : String) (target : Assignment) (minAvailable : Nat)
    (accepted : setup.service.validate = .ok setup.service) :
    let interval := options.viewCheckIntervalMs.getD setup.service.viewCheckIntervalMs
    let timeout := options.viewTimeoutMs.getD setup.service.viewTimeoutMs
    let apply := applyJob setup table options job target minAvailable
    (apply.WaitsWithin (timeout ⌈/⌉ interval + 1) ↔
      (options.viewCheckIntervalMs = some 0 → timeout = 0)) ∧
    (options.viewCheckIntervalMs = some 0 → timeout ≠ 0 → ∀ most, ¬ apply.WaitsWithin most) := by
  intro interval timeout apply
  have endless : options.viewCheckIntervalMs = some 0 → timeout ≠ 0 →
      ∀ most, ¬ apply.WaitsWithin most := by
    intro zero some most
    have still : apply.checkIntervalMs = 0 := congrArg (Option.getD · _) zero
    exact not_waitsWithin_of_standstill still some
  refine ⟨⟨fun within zero => ?_, fun ends => waitsWithin_of_enough ?_⟩, endless⟩
  · by_contra some
    exact endless zero some _ within
  · change timeout ≤ timeout ⌈/⌉ interval * interval
    by_cases zero : interval = 0
    · have set : options.viewCheckIntervalMs = some 0 := by
        cases given : options.viewCheckIntervalMs with
        | none =>
          have unset : interval = setup.service.viewCheckIntervalMs :=
            congrArg (Option.getD · _) given
          exact absurd (unset.symm.trans zero) (ServiceSettings.viewCheckIntervalMs_ne_zero accepted)
        | some own =>
          have same : interval = own := congrArg (Option.getD · _) given
          rw [← same, zero]
      rw [ends set]
      exact Nat.zero_le _
    · rw [Nat.mul_comm]
      exact le_smul_ceilDiv (Nat.pos_of_ne_zero zero)

/-- A job that looks every 700 ms and waits a second for its servers looks three times. -/
def patientOptions : RebalanceOptions :=
  { viewCheckIntervalMs := some 700, viewTimeoutMs := some 1000 }

theorem patient_waits_within :
    ({} : RebalanceSetup).service.validate = .ok {} ∧
      (applyJob {} (.offline "t" 2 "T") patientOptions "job" {} 1).WaitsWithin 3 :=
  have accepted : ({} : RebalanceSetup).service.validate = .ok {} := by decide +kernel
  ⟨accepted, (waitsWithin_iff {} (.offline "t" 2 "T") patientOptions "job" {} 1 accepted).1.mpr nofun⟩

/-- An interval of 0 passes the checks of the job, and those of the service do not see it. -/
theorem not_all_waits_end :
    ¬ ∀ (setup : RebalanceSetup) (table : TableConfig) (options : RebalanceOptions) (job : String)
      (target : Assignment) (minAvailable : Nat), options.validate = .ok () →
      setup.service.validate = .ok setup.service →
      (applyJob setup table options job target minAvailable).WaitsWithin
        (options.viewTimeoutMs.getD setup.service.viewTimeoutMs ⌈/⌉
          options.viewCheckIntervalMs.getD setup.service.viewCheckIntervalMs + 1) := by
  intro all
  have within := all {} (.offline "t" 2 "T") { viewCheckIntervalMs := some 0 } "job" {} 1 rfl
    (by decide +kernel)
  exact not_waitsWithin_of_standstill rfl (by decide) within

end Rebalance

end SegmentPlacement

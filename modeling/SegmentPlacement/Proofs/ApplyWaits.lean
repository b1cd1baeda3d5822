import SegmentPlacement.Cluster.Script
import SegmentPlacement.Proofs.Convergence
import SegmentPlacement.Proofs.ProgramLogic
import SegmentPlacement.Proofs.SharedTable
import SegmentPlacement.Rebalance.Apply

/-! The loop that writes a target waits for the servers. Whatever the views say,
a step is written only after the servers were seen to hold the one before it, and
a look that finds an error, or comes too late to find nothing, is the last thing
that the loop does. -/

namespace SegmentPlacement.ApplyJob
open Program

/-- A look at what the servers report, after a wait. -/
structure Look where
  afterMs : Nat
  view : Reply (Option Assignment)

/-- What is known of the latest write that was accepted: how long ago it was, and the last look at
the servers since then. -/
structure Watch where
  written : Option Assignment := none
  waitedMs : Nat := 0
  look : Option Look := none

namespace Watch

def see (watch : Watch) : Exchange → Watch
  | ⟨.compareAndSet _ _ assignment, .ok true⟩ => ⟨some assignment, 0, none⟩
  | ⟨.externalView _, view⟩ => { watch with look := some ⟨watch.waitedMs, view⟩ }
  | ⟨.pause least _, _⟩ => { watch with waitedMs := watch.waitedMs + least }
  | _ => watch

def after (exchanges : List Exchange) : Watch := exchanges.foldl see {}

/-- If anything was written, the last look showed that the servers hold it. -/
def Settled (watch : Watch) : Prop :=
  ∀ written, watch.written = some written →
    ∃ look view, watch.look = some look ∧ look.view = .ok (some view) ∧
      Convergence.Shows view written

end Watch

/-- The last look leaves the loop no choice but to fail with a text. -/
inductive Hopeless (apply : ApplyJob) (watch : Watch) : String → Prop where
  | broken (written : Assignment) (look : Look) (view : Assignment) (segment : String)
      (wrote : watch.written = some written) (looked : watch.look = some look)
      (found : look.view = .ok (some view)) (breaks : Convergence.Breaks view written segment) :
      Hopeless apply watch
        ("Found segment " ++ segment ++ " in ERROR state for table: " ++ apply.table)
  | late (written : Assignment) (look : Look)
      (wrote : watch.written = some written) (looked : watch.look = some look)
      (expired : apply.timeoutMs ≤ look.afterMs)
      (pending : ∀ view, look.view = .ok (some view) →
        ¬ Convergence.Shows view written ∧ ∀ segment, ¬ Convergence.Breaks view written segment) :
      Hopeless apply watch
        ("Timed out waiting for external view to converge for table: " ++ apply.table)

variable {apply : ApplyJob} {watch : Watch}

theorem settledBy_eq_ok_iff (strict : apply.bestEfforts = false) {written : Assignment}
    {reply : Reply (Option Assignment)} :
    apply.settledBy written reply = some (.ok ()) ↔
      ∃ view, reply = .ok (some view) ∧ Convergence.Shows view written := by
  unfold settledBy
  split
  · rename_i view
    simp only [strict, Except.ok.injEq, Option.some.injEq, exists_eq_left',
      ← Convergence.check_eq_converged_iff]
    cases Convergence.check written view false <;> simp
  · rename_i unread
    refine ⟨nofun, ?_⟩
    rintro ⟨view, same, _⟩
    exact absurd same (unread view)

theorem settledBy_eq_error_iff (strict : apply.bestEfforts = false) {written : Assignment}
    {reply : Reply (Option Assignment)} {text : String} :
    apply.settledBy written reply = some (.error text) ↔
      ∃ view segment, reply = .ok (some view) ∧ Convergence.Breaks view written segment ∧
        "Found segment " ++ segment ++ " in ERROR state for table: " ++ apply.table = text := by
  unfold settledBy
  split
  · rename_i view
    simp only [strict, Except.ok.injEq, Option.some.injEq, exists_and_left, exists_eq_left',
      ← Convergence.check_eq_failed_iff]
    cases Convergence.check written view false <;> simp
  · rename_i unread
    refine ⟨nofun, ?_⟩
    rintro ⟨view, _, same, _⟩
    exact absurd same (unread view)

theorem hopeless_iff (strict : apply.bestEfforts = false) {written : Assignment} {afterMs : Nat}
    {reply : Reply (Option Assignment)} (wrote : watch.written = some written)
    (looked : watch.look = some ⟨afterMs, reply⟩) {text : String} :
    apply.Hopeless watch text ↔
      apply.settledBy written reply = some (.error text) ∨
        apply.settledBy written reply = none ∧ apply.timeoutMs ≤ afterMs ∧
          apply.timedOut = text := by
  constructor
  · intro hopeless
    cases hopeless with
    | broken other seen view segment wrote' looked' found breaks =>
      obtain rfl := Option.some.inj (wrote'.symm.trans wrote)
      obtain rfl := Option.some.inj (looked'.symm.trans looked)
      exact Or.inl ((settledBy_eq_error_iff strict).mpr ⟨view, segment, found, breaks, rfl⟩)
    | late other seen wrote' looked' expired pending =>
      obtain rfl := Option.some.inj (wrote'.symm.trans wrote)
      obtain rfl := Option.some.inj (looked'.symm.trans looked)
      refine Or.inr ⟨?_, expired, rfl⟩
      cases settled : apply.settledBy other reply with
      | none => rfl
      | some outcome =>
        cases outcome with
        | ok =>
          obtain ⟨view, found, shows⟩ := (settledBy_eq_ok_iff strict).mp settled
          exact absurd shows (pending view found).1
        | error text =>
          obtain ⟨view, segment, found, breaks, _⟩ := (settledBy_eq_error_iff strict).mp settled
          exact absurd breaks ((pending view found).2 segment)
  · rintro (settled | ⟨settled, expired, rfl⟩)
    · obtain ⟨view, segment, found, breaks, rfl⟩ := (settledBy_eq_error_iff strict).mp settled
      exact .broken written _ view segment wrote looked found breaks
    · refine .late written _ wrote looked expired fun view found => ⟨fun shows => ?_, ?_⟩
      · have shown := (settledBy_eq_ok_iff strict).mpr ⟨view, found, shows⟩
        rw [settled] at shown
        cases shown
      · intro segment breaks
        have broken := (settledBy_eq_error_iff strict).mpr ⟨view, segment, found, breaks, rfl⟩
        rw [settled] at broken
        cases broken

theorem Hopeless.seen {text : String} (hopeless : apply.Hopeless watch text) :
    ∃ written look, watch.written = some written ∧ watch.look = some look := by
  cases hopeless with
  | broken written look _ _ wrote looked => exact ⟨written, look, wrote, looked⟩
  | late written look wrote looked => exact ⟨written, look, wrote, looked⟩

private theorem not_hopeless_of_unseen (unseen : watch.look = none) (text : String) :
    ¬ apply.Hopeless watch text := by
  intro hopeless
  obtain ⟨_, look, _, looked⟩ := hopeless.seen
  rw [unseen] at looked
  cases looked

theorem not_hopeless_of_settled (strict : apply.bestEfforts = false) (settled : watch.Settled)
    (text : String) : ¬ apply.Hopeless watch text := by
  intro hopeless
  obtain ⟨written, _, wrote, _⟩ := hopeless.seen
  obtain ⟨look, view, looked, found, shows⟩ := settled written wrote
  have shown := (settledBy_eq_ok_iff strict).mpr ⟨view, found, shows⟩
  rw [hopeless_iff strict wrote looked, shown] at hopeless
  obtain broken | ⟨pending, _⟩ := hopeless
  · cases broken
  · cases pending

/-- Nothing is asked after a hopeless look, and nothing is written before a look that settles. -/
def Permits (apply : ApplyJob) (watch : Watch) (request : Request) : Prop :=
  (∀ text, ¬ apply.Hopeless watch text) ∧ (request.replacesIdeal = true → watch.Settled)

private theorem permits_of_settled (strict : apply.bestEfforts = false) (settled : watch.Settled)
    (request : Request) : apply.Permits watch request :=
  ⟨not_hopeless_of_settled strict settled, fun _ => settled⟩

/-- Requests that neither write nor look at the servers. -/
def idle : Request → Bool
  | .compareAndSet .. | .externalView _ => false
  | _ => true

private theorem settled_of_idle {program : Program α}
    (asks : program.Asks fun request => idle request = true) (strict : apply.bestEfforts = false)
    (settled : watch.Settled) :
    program.Heeds Watch.see apply.Permits (fun _ => Watch.Settled) watch := by
  refine .of_asks asks (fun request now _ settled => permits_of_settled strict settled request)
    (fun request answer now asked settled => ?_) settled
  cases request with
  | compareAndSet | externalView => cases asked
  | _ => exact settled

theorem pauseBefore_idle (policy : RetryPolicy) (made : Nat) :
    (StateUpdate.pauseBefore policy made).Asks fun request => idle request = true := by
  unfold StateUpdate.pauseBefore
  split
  · exact .call rfl
  · exact .pure _

/-- What an update leaves to watch: what it has just written, or what was settled before. -/
def Attempted : Except Error StateUpdate → Watch → Prop
  | .error _, watch => watch.Settled
  | .ok update, watch =>
    (update.updated = true → watch = { written := some update.state.assignment }) ∧
      (update.updated = false → watch.Settled)

theorem attempt_heeds (strict : apply.bestEfforts = false) (policy : RetryPolicy) (left tried : Nat)
    (failure : Option String) (settled : watch.Settled) :
    (StateUpdate.attempt apply.table apply.change policy true left tried failure).Heeds
      Watch.see apply.Permits Attempted watch := by
  induction left generalizing tried failure watch with
  | zero => cases failure <;> exact .pure settled
  | succ left ih =>
    rw [StateUpdate.attempt]
    refine .bind (settled_of_idle (pauseBefore_idle policy tried) strict settled)
      fun _ now settled => ?_
    refine .bind (settled_of_idle (.call rfl) strict settled) fun reply now settled => ?_
    split
    · exact ih _ _ settled
    · exact .pure settled
    · rename_i current
      split
      · exact .pure ⟨nofun, fun _ => settled⟩
      · rename_i next _
        have written : (Program.call (.compareAndSet apply.table current.version next)).Heeds
            Watch.see apply.Permits (fun reply seen =>
              (reply = .ok true → seen = { written := some next }) ∧
              (reply ≠ .ok true → seen.Settled)) now := by
          refine .call (permits_of_settled strict settled _) fun answer => ?_
          match answer with
          | .ok true => exact ⟨fun _ => rfl, fun refused => absurd rfl refused⟩
          | .ok false => exact ⟨nofun, fun _ => settled⟩
          | .error _ => exact ⟨nofun, fun _ => settled⟩
        refine .bind written fun reply now seen => ?_
        split
        · exact .pure ⟨fun _ => seen.1 rfl, nofun⟩
        · exact ih _ _ (seen.2 nofun)
        · exact ih _ _ (seen.2 nofun)

/-- How a wait ends: the servers have caught up, or there is no hope. -/
def Waited (apply : ApplyJob) (outcome : Except String Unit) (watch : Watch) : Prop :=
  (outcome = .ok () → watch.Settled) ∧
    ∀ text, apply.Hopeless watch text → outcome = .error text

theorem hopeless_look_iff (strict : apply.bestEfforts = false) {written : Assignment}
    (wrote : watch.written = some written) (waitedMs elapsedMs : Nat)
    (view : Reply (Option Assignment)) (text : String) :
    apply.Hopeless { watch with waitedMs, look := some ⟨elapsedMs, view⟩ } text ↔
      apply.settledBy written view = some (.error text) ∨
        apply.settledBy written view = none ∧ apply.timeoutMs ≤ elapsedMs ∧ apply.timedOut = text :=
  hopeless_iff strict (by exact wrote) rfl

private theorem waited_of_settledBy (strict : apply.bestEfforts = false) {written : Assignment}
    (wrote : watch.written = some written) {elapsedMs : Nat} {view : Reply (Option Assignment)}
    {outcome : Except String Unit} (settled : apply.settledBy written view = some outcome) :
    apply.Waited outcome { watch with look := some ⟨elapsedMs, view⟩ } := by
  refine ⟨fun same => ?_, fun text hopeless => ?_⟩
  · subst same
    obtain ⟨found, read, shows⟩ := (settledBy_eq_ok_iff strict).mp settled
    intro other wrote'
    obtain rfl := Option.some.inj (wrote'.symm.trans wrote)
    exact ⟨_, found, rfl, read, shows⟩
  · rw [hopeless_look_iff strict wrote, settled] at hopeless
    obtain broken | ⟨pending, _⟩ := hopeless
    · exact Option.some.inj broken
    · cases pending

private theorem not_hopeless_of_early (strict : apply.bestEfforts = false) {written : Assignment}
    (wrote : watch.written = some written) {elapsedMs : Nat} {view : Reply (Option Assignment)}
    (pending : apply.settledBy written view = none) (early : ¬ apply.timeoutMs ≤ elapsedMs)
    (waitedMs : Nat) (text : String) :
    ¬ apply.Hopeless { watch with waitedMs, look := some ⟨elapsedMs, view⟩ } text := by
  intro hopeless
  rw [hopeless_look_iff strict wrote, pending] at hopeless
  obtain broken | ⟨_, expired, _⟩ := hopeless
  · cases broken
  · exact early expired

private theorem wait_heeds (strict : apply.bestEfforts = false) {written : Assignment}
    (rounds elapsedMs : Nat) (wrote : watch.written = some written)
    (waited : watch.waitedMs = elapsedMs) (hope : ∀ text, ¬ apply.Hopeless watch text) :
    (apply.wait written rounds elapsedMs).Heeds Watch.see apply.Permits apply.Waited watch := by
  induction rounds generalizing elapsedMs watch with
  | zero => exact .pure ⟨nofun, fun text hopeless => absurd hopeless (hope text)⟩
  | succ rounds ih =>
    rw [wait]
    have looked : (Program.call (.externalView apply.table)).Heeds Watch.see apply.Permits
        (fun view seen => seen = { watch with look := some ⟨elapsedMs, view⟩ }) watch :=
      .call ⟨hope, nofun⟩ fun view => by rw [← waited]; rfl
    refine .bind looked ?_
    rintro view seen rfl
    cases settled : apply.settledBy written view with
    | some outcome => exact .pure (waited_of_settledBy strict wrote settled)
    | none =>
      simp only [strict, Bool.false_eq_true, if_false]
      split
      · refine .pure ⟨nofun, fun text hopeless => ?_⟩
        rw [hopeless_look_iff strict wrote, settled] at hopeless
        obtain broken | ⟨_, _, rfl⟩ := hopeless
        · cases broken
        · rfl
      · rename_i early
        -- the look was in vain but in time, and the pause after it changes neither
        have hope := not_hopeless_of_early strict wrote settled early
        have paused : (Program.call (.pause apply.checkIntervalMs apply.checkIntervalMs)).Heeds
            Watch.see apply.Permits
            (fun _ seen => seen =
              { watch with
                waitedMs := watch.waitedMs + apply.checkIntervalMs
                look := some ⟨elapsedMs, view⟩ })
            { watch with look := some ⟨elapsedMs, view⟩ } := .call ⟨hope _, nofun⟩ fun _ => rfl
        refine .bind paused ?_
        rintro _ seen rfl
        exact ih _ wrote (by rw [waited]) (hope _)

private theorem settle_heeds (waits : apply.downtime = false) (strict : apply.bestEfforts = false)
    (written : Assignment) (step updated : Nat) :
    (apply.settle written step updated).Heeds Watch.see apply.Permits apply.Waited
      { written := some written } := by
  unfold settle
  simp only [waits, Bool.false_eq_true, if_false]
  refine .bind (wait_heeds strict _ 0 rfl rfl (not_hopeless_of_unseen rfl)) fun outcome seen waited => ?_
  split
  · exact .pure waited
  · have settled := waited.1 rfl
    refine .bind (settled_of_idle (.call rfl) strict settled) fun _ now settled => ?_
    exact .pure ⟨fun _ => settled, fun text hopeless =>
      absurd hopeless (not_hopeless_of_settled strict settled text)⟩

/-- How the loop ends: a hopeless look makes it fail, and at its goal the servers have caught up. -/
def Concludes (apply : ApplyJob) (outcome : ApplyOutcome) (watch : Watch) : Prop :=
  (∀ text, apply.Hopeless watch text → outcome = .failed text) ∧
    ∀ steps, outcome = .done steps → watch.Settled

private theorem concludes_of_settled (strict : apply.bestEfforts = false) (settled : watch.Settled)
    (outcome : ApplyOutcome) : apply.Concludes outcome watch :=
  ⟨fun text hopeless => absurd hopeless (not_hopeless_of_settled strict settled text),
    fun _ _ => settled⟩

theorem writeSteps_heeds (waits : apply.downtime = false) (strict : apply.bestEfforts = false)
    (rounds steps : Nat) (previous : Assignment) (settled : watch.Settled) :
    (apply.writeSteps rounds steps previous).Heeds Watch.see apply.Permits apply.Concludes watch := by
  induction rounds generalizing steps previous watch with
  | zero => exact .pure (concludes_of_settled strict settled _)
  | succ rounds ih =>
    rw [writeSteps]
    refine .bind (settled_of_idle (.call rfl) strict settled) fun stopped now settled => ?_
    split
    · exact .pure (concludes_of_settled strict settled _)
    · refine .bind (attempt_heeds strict _ _ _ _ settled) fun result now attempted => ?_
      cases result with
      | error error => exact .pure (concludes_of_settled strict attempted _)
      | ok update =>
        simp only
        split
        · rename_i idle
          exact .pure (concludes_of_settled strict (attempted.2 (by simpa using idle)) _)
        · rename_i wrote
          obtain rfl := attempted.1 (by simpa using wrote)
          let unseen : Watch := { written := some update.state.assignment }
          have reported : (Program.call (.report ⟨apply.job, steps + 1,
              Move.changedSegments previous update.state.assignment, .running⟩)).Heeds Watch.see
              apply.Permits (fun _ seen => seen = unseen) unseen :=
            .call ⟨not_hopeless_of_unseen rfl, nofun⟩ fun _ => rfl
          refine .bind reported ?_
          rintro _ seen rfl
          refine .bind (settle_heeds waits strict _ _ _) fun outcome seen waited => ?_
          split
          · exact .pure ⟨fun text hopeless =>
              congrArg _ (Except.error.inj (waited.2 text hopeless)), nofun⟩
          · split
            · exact .pure (concludes_of_settled strict (waited.1 rfl) _)
            · exact ih _ _ (waited.1 rfl)

/-- Whoever answers, a step is written and the goal is reached only after the last look has shown
that the servers hold what was written before. A look that shows an error, or that comes when the
time is over and does not show convergence, ends the loop: it fails, and asks nothing more. -/
theorem run_awaits_servers (apply : ApplyJob) (waits : apply.downtime = false)
    (strict : apply.bestEfforts = false) (respond : Responder σ) (state : σ)
    (current : Assignment) :
    let ended := (apply.run current).run respond state
    (∀ before exchange after, ended.exchanges = before ++ exchange :: after →
      exchange.request.replacesIdeal = true → (Watch.after before).Settled) ∧
    (∀ steps, ended.value = .done steps → (Watch.after ended.exchanges).Settled) ∧
    ∀ before after text, ended.exchanges = before ++ after →
      apply.Hopeless (Watch.after before) text → after = [] ∧ ended.value = .failed text := by
  intro ended
  have heeds : (apply.run current).Heeds Watch.see apply.Permits apply.Concludes {} :=
    writeSteps_heeds waits strict _ _ _ nofun
  obtain ⟨permitted, concludes⟩ := heeds.run respond state
  refine ⟨fun before exchange after split replaces => ?_, fun steps done => ?_, ?_⟩
  · exact (permitted before exchange after split).2 replaces
  · exact concludes.2 steps done
  · intro before after text split hopeless
    cases after with
    | cons next rest => exact absurd hopeless ((permitted before next rest split).1 text)
    | nil =>
      rw [List.append_nil] at split
      exact ⟨rfl, concludes.1 text (split ▸ hopeless)⟩

/-- Two servers give way to two others, one at a time; the servers may take a second for it. -/
def slowJob : ApplyJob :=
  { job := "job", table := "t_OFFLINE", minAvailable := 1, batch := none
    target := OrderedMap.ofList [("s", .uniform ["c", "d"] .online)]
    downtime := false, bestEfforts := false, retry := .fixed 1 0, checkIntervalMs := 700
    timeoutMs := 1000, roundLimit := 5 }

def slowBefore : Assignment := OrderedMap.ofList [("s", .uniform ["a", "b"] .online)]

/-- The first two looks find no view; the third, after 1400 ms, finds all in place. -/
def slowStore : ScriptedStore :=
  { store :=
      { snapshot :=
          { tables := OrderedMap.ofList [("t_OFFLINE",
              { config := .offline "t" 2 "T"
                ideal := { table := "t_OFFLINE", assignment := slowBefore } })] } }
    script := [⟨.externalView, some 0, .nothing⟩, ⟨.externalView, some 1, .nothing⟩] }

theorem slowJob_awaits_servers :
    slowJob.downtime = false ∧ slowJob.bestEfforts = false ∧
      let ended := (slowJob.run slowBefore).run ScriptedStore.respond slowStore
      ended.value = .done 2 ∧ ended.state.store.writes = 2 ∧
        (Watch.after ended.exchanges).Settled := by
  have done : ((slowJob.run slowBefore).run ScriptedStore.respond slowStore).value = .done 2 := by
    decide +kernel
  obtain ⟨_, reached, _⟩ :=
    run_awaits_servers slowJob rfl rfl ScriptedStore.respond slowStore slowBefore
  exact ⟨rfl, rfl, done, by decide +kernel, reached 2 done⟩

/-- The time can be over while the servers are still behind, and the job goes on all the same: a
last look is made after that, and it counts. -/
theorem run_outlives_deadline :
    ¬ ∀ (apply : ApplyJob) (σ : Type) (respond : Responder σ) (state : σ) (current : Assignment),
      apply.downtime = false → apply.bestEfforts = false →
      let ended := (apply.run current).run respond state
      ∀ before after, ended.exchanges = before ++ after → ¬ (Watch.after before).Settled →
        apply.timeoutMs < (Watch.after before).waitedMs →
        (∃ text, ended.value = .failed text) ∧
          ∀ exchange ∈ after, exchange.request.replacesIdeal = false := by
  intro fails
  let exchanges := ((slowJob.run slowBefore).run ScriptedStore.respond slowStore).exchanges
  have waited : (Watch.after (exchanges.take 8)).waitedMs = 1400 := by decide +kernel
  have wrote : (Watch.after (exchanges.take 8)).written.isSome = true := by decide +kernel
  have unread : ((Watch.after (exchanges.take 8)).look.bind fun look =>
      look.view.toOption.join).isNone = true := by decide +kernel
  have behind : ¬ (Watch.after (exchanges.take 8)).Settled := by
    intro settled
    obtain ⟨written, wrote⟩ := Option.isSome_iff_exists.mp wrote
    obtain ⟨look, view, looked, found, _⟩ := settled written wrote
    rw [looked, Option.bind_some, found] at unread
    cases unread
  obtain ⟨⟨text, failed⟩, _⟩ := fails slowJob ScriptedStore ScriptedStore.respond slowStore slowBefore
    rfl rfl (exchanges.take 8) (exchanges.drop 8) (List.take_append_drop 8 exchanges).symm behind
    (by rw [waited]; decide)
  have done : ((slowJob.run slowBefore).run ScriptedStore.respond slowStore).value = .done 2 := by
    decide +kernel
  rw [done] at failed
  cases failed

end SegmentPlacement.ApplyJob

import SegmentPlacement.Proofs.SharedTable
import SegmentPlacement.Rebalance.Apply

/-! The loop that writes a target, seen from whoever answers it. It reads before
every write, writes only what its step makes of what it read, and counts the
writes that were acknowledged. Whatever the requests between them keep, and a
write after a read keeps, the loop keeps. -/

namespace SegmentPlacement

/-- The text begins with one of the listed ones. -/
def BeginsWith (starts : List String) (text : String) : Prop :=
  ∃ start ∈ starts, ∃ rest, text = start ++ rest

namespace BeginsWith

variable {starts others : List String} {text : String}

theorem append {start : String} (listed : start ∈ starts) (rest : String) :
    BeginsWith starts (start ++ rest) := ⟨start, listed, rest, rfl⟩

theorem mono (begins : BeginsWith starts text) (within : starts ⊆ others) :
    BeginsWith others text := by
  obtain ⟨start, listed, rest, same⟩ := begins
  exact ⟨start, within listed, rest, same⟩

theorem apart (begins : BeginsWith starts text)
    (differ : ∀ first ∈ starts, ∀ second ∈ others,
      ¬ first.toByteArray.data.toList <+: second.toByteArray.data.toList ∧
        ¬ second.toByteArray.data.toList <+: first.toByteArray.data.toList) :
    ¬ BeginsWith others text := by
  have before (start rest : String) :
      start.toByteArray.data.toList <+: (start ++ rest).toByteArray.data.toList := by
    simp
  intro ⟨second, listed, after, same⟩
  obtain ⟨first, member, rest, rfl⟩ := begins
  obtain ⟨one, other⟩ := differ first member second listed
  rcases List.prefix_or_prefix_of_prefix (before first rest) (same ▸ before second after) with
    shorter | longer
  · exact one shorter
  · exact other longer

end BeginsWith

namespace ApplyJob
open Program

private theorem pauseBefore_asks (policy : RetryPolicy) (made : Nat) :
    (StateUpdate.pauseBefore policy made).Asks fun request => request.writes = false := by
  unfold StateUpdate.pauseBefore
  split
  · exact .call rfl
  · exact .pure _

private theorem wait_asks (apply : ApplyJob) (written : Assignment) (rounds elapsedMs : Nat) :
    (apply.wait written rounds elapsedMs).Asks fun request => request.writes = false := by
  induction rounds generalizing elapsedMs with
  | zero => exact .pure _
  | succ rounds ih =>
    rw [wait]
    refine .bind (.call rfl) fun view => ?_
    split
    · exact .pure _
    · split
      · exact .pure _
      · exact .bind (.call rfl) fun _ => ih _

private theorem settle_asks (apply : ApplyJob) (written : Assignment) (step updated : Nat) :
    (apply.settle written step updated).Asks fun request => request.writes = false := by
  unfold settle
  split
  · exact .pure _
  · refine .bind (wait_asks ..) fun outcome => ?_
    split
    · exact .pure _
    · exact .bind (.call rfl) fun _ => .pure _

/-- `holds made` is kept after `made` acknowledged writes, `stores made assignment` is kept as long
as the loop goes on with what it has read or written, and `knows made current` is what holds right
after `current` was read. A write whose answer is lost may have been carried out. -/
structure Sustains (apply : ApplyJob) (respond : Responder σ) (holds : Nat → σ → Prop)
    (stores : Nat → Assignment → σ → Prop) (knows : Nat → IdealState → σ → Prop) : Prop where
  between : ∀ made request state, request.writes = false → holds made state →
    holds made (respond request state).2
  lasts : ∀ made assignment request state, request.writes = false →
    stores made assignment state → stores made assignment (respond request state).2
  held : ∀ made assignment state, stores made assignment state → holds made state
  read : ∀ made current state, holds made state →
    (respond (.idealState apply.table) state).1 = .ok (some current) →
    knows made current (respond (.idealState apply.table) state).2
  known : ∀ made current state, knows made current state → stores made current.assignment state
  write : ∀ made current next state, knows made current state →
    apply.change current.assignment = some next →
    holds made (respond (.compareAndSet apply.table current.version next) state).2 ∧
      ((respond (.compareAndSet apply.table current.version next) state).1 = .ok true →
        stores (made + 1) next
          (respond (.compareAndSet apply.table current.version next) state).2)

/-- The step has nothing to write. -/
def Rests (apply : ApplyJob) (assignment : Assignment) : Prop :=
  ((apply.change assignment).filter fun next => next ≠ assignment) = none

/-- How the loop ends after `made` acknowledged writes, when it has room for `limit` of them. -/
inductive Ends (apply : ApplyJob) (limit made : Nat) : ApplyOutcome → Prop where
  | done : Ends apply limit made (.done made)
  | cancelled : Ends apply limit made (.cancelled made)
  | stuck (assignment : Assignment) (rests : apply.Rests assignment)
      (short : Move.reached assignment apply.target = false) :
      Ends apply limit made (.failed ("Rebalance of " ++ apply.table ++ " made no progress"))
  | endless (full : limit ≤ made) :
      Ends apply limit made
        (.failed ("Rebalance of " ++ apply.table ++ " did not come to an end"))
  | failed (text : String) (other : text.toList.head? ≠ some 'R') :
      Ends apply limit made (.failed text)

section

variable {apply : ApplyJob} {respond : Responder σ} {holds : Nat → σ → Prop}
  {stores : Nat → Assignment → σ → Prop} {knows : Nat → IdealState → σ → Prop}

theorem Sustains.asks (sustains : apply.Sustains respond holds stores knows) {program : Program α}
    (asks : program.Asks fun request => request.writes = false) (made : Nat) :
    Ensures respond (holds made) program fun _ => holds made :=
  .of_asks asks fun request state quiet held => sustains.between made request state quiet held

private theorem Sustains.asks_stored (sustains : apply.Sustains respond holds stores knows)
    {program : Program α} (asks : program.Asks fun request => request.writes = false) (made : Nat)
    (assignment : Assignment) :
    Ensures respond (stores made assignment) program fun _ => stores made assignment :=
  .of_asks asks fun request state quiet stored =>
    sustains.lasts made assignment request state quiet stored

/-- What an update leaves: one more write if it says so, and otherwise a state that needs none. -/
def Updates (apply : ApplyJob) (holds : Nat → σ → Prop) (stores : Nat → Assignment → σ → Prop)
    (made : Nat) : Except Error StateUpdate → σ → Prop
  | .error _, state => holds made state
  | .ok update, state =>
    (update.updated = true → stores (made + 1) update.state.assignment state) ∧
      (update.updated = false →
        stores made update.state.assignment state ∧ apply.Rests update.state.assignment)

theorem Sustains.attempt (sustains : apply.Sustains respond holds stores knows)
    (policy : RetryPolicy) (made left tried : Nat) (failure : Option String) :
    Ensures respond (holds made)
      (StateUpdate.attempt apply.table apply.change policy true left tried failure)
      (apply.Updates holds stores made) := by
  induction left generalizing tried failure with
  | zero => cases failure <;> exact .pure fun _ held => held
  | succ left ih =>
    rw [StateUpdate.attempt]
    refine .bind (sustains.asks (pauseBefore_asks policy tried) made) fun _ => ?_
    have read : Ensures respond (holds made) (Program.call (.idealState apply.table))
        fun answer state => holds made state ∧
          ∀ current, answer = .ok (some current) → knows made current state :=
      .call fun state held => ⟨sustains.between made _ state rfl held,
        fun current answered => sustains.read made current state held answered⟩
    refine .bind read fun answer => ?_
    split
    · exact .weaken (ih _ _) (fun _ known => known.1) fun _ _ kept => kept
    · exact .pure fun _ known => known.1
    · rename_i current
      split
      · rename_i rests
        exact .pure fun state known =>
          ⟨nofun, fun _ => ⟨sustains.known made current state (known.2 current rfl), rests⟩⟩
      · rename_i next filtered
        obtain ⟨changed, _⟩ := Option.filter_eq_some_iff.mp filtered
        have written : Ensures respond (knows made current)
            (Program.call (.compareAndSet apply.table current.version next)) fun reply state =>
              holds made state ∧ (reply = .ok true → stores (made + 1) next state) :=
          .call fun state known => sustains.write made current next state known changed
        refine .bind (.weaken written (fun _ known => known.2 current rfl) fun _ _ kept => kept)
          fun reply => ?_
        split
        · exact .pure fun state kept => ⟨fun _ => kept.2 rfl, nofun⟩
        · exact .weaken (ih _ _) (fun _ kept => kept.1) fun _ _ ended => ended
        · exact .weaken (ih _ _) (fun _ kept => kept.1) fun _ _ ended => ended

/-- How the reasons begin for which a step fails. -/
def stepFailures : List String :=
  ["Table ", "Caught exception while updating ideal state: ",
    "Timed out waiting for external view to converge for table: ", "Found segment "]

private theorem head_of_begins {text : String} (begins : BeginsWith stepFailures text) :
    text.toList.head? ≠ some 'R' := by
  intro same
  obtain ⟨rest, first⟩ := List.head?_eq_some_iff.mp same
  have begun : text = "R" ++ String.ofList rest := by
    apply String.toList_injective
    simp [first]
  exact begins.apart (by decide +kernel) ⟨"R", List.mem_singleton_self _, _, begun⟩

theorem updateFailure_begins (error : Error) :
    BeginsWith stepFailures (apply.updateFailure error) := by
  unfold updateFailure
  split
  · rw [String.append_assoc]
    exact .append (by decide) _
  · exact .append (by decide) _

theorem settledBy_begins {written : Assignment} {view : Reply (Option Assignment)} {text : String}
    (failed : apply.settledBy written view = some (.error text)) : BeginsWith stepFailures text := by
  unfold settledBy at failed
  split at failed
  · split at failed
    · cases failed
    · cases failed
      simp only [String.append_assoc]
      exact .append (by decide) _
    · cases failed
  · cases failed

private theorem wait_ensures (written : Assignment) (rounds elapsedMs : Nat) :
    Ensures respond (fun _ => True) (apply.wait written rounds elapsedMs) fun outcome _ =>
      ∀ text, outcome = .error text → BeginsWith stepFailures text := by
  have timedOut : BeginsWith stepFailures apply.timedOut := .append (by decide) _
  induction rounds generalizing elapsedMs with
  | zero => exact .pure fun _ _ text same => by cases same; exact timedOut
  | succ rounds ih =>
    rw [wait]
    refine .bind .trivially fun view => ?_
    split
    · rename_i outcome settled
      exact .pure fun _ _ text same => settledBy_begins (same ▸ settled)
    · split
      · refine .pure fun _ _ text same => ?_
        split at same
        · cases same
        · cases same
          exact timedOut
      · exact .bind .trivially fun _ => ih _

theorem settle_ensures (written : Assignment) (step updated : Nat) :
    Ensures respond (fun _ => True) (apply.settle written step updated) fun outcome _ =>
      ∀ text, outcome = .error text → BeginsWith stepFailures text := by
  unfold settle
  split
  · exact .pure fun _ _ text same => by cases same
  · refine .bind (wait_ensures written _ _) fun outcome => ?_
    split
    · exact .pure fun _ others text same => others text same
    · exact .bind .trivially fun _ =>
        .pure fun _ _ text same => by cases same

/-- When the loop says that it is done, what is stored has reached the target. -/
def Finishes (apply : ApplyJob) (stores : Nat → Assignment → σ → Prop) (made : Nat)
    (outcome : ApplyOutcome) (state : σ) : Prop :=
  ∀ steps, outcome = .done steps → ∃ assignment, stores made assignment state ∧
    Move.reached assignment apply.target = true

private theorem Finishes.of_reached {made : Nat} {assignment : Assignment} {outcome : ApplyOutcome}
    {state : σ} (stored : stores made assignment state)
    (reached : Move.reached assignment apply.target = true) :
    apply.Finishes stores made outcome state := fun _ _ => ⟨assignment, stored, reached⟩

theorem Sustains.writeSteps (sustains : apply.Sustains respond holds stores knows)
    (rounds steps : Nat) (previous : Assignment) :
    Ensures respond (holds steps) (apply.writeSteps rounds steps previous) fun outcome state =>
      ∃ made, holds made state ∧ apply.Ends (steps + rounds) made outcome ∧
        apply.Finishes stores made outcome state := by
  induction rounds generalizing steps previous with
  | zero => exact .pure fun _ held => ⟨steps, held, .endless (Nat.le_refl _), nofun⟩
  | succ rounds ih =>
    rw [ApplyJob.writeSteps]
    refine .bind (sustains.asks (.call rfl) steps) fun stopped => ?_
    split
    · exact .pure fun _ held => ⟨steps, held, .cancelled, nofun⟩
    · refine .bind (sustains.attempt _ steps _ _ _) fun result => ?_
      cases result with
      | error error =>
        exact .pure fun _ held =>
          ⟨steps, held, .failed _ (head_of_begins (updateFailure_begins error)), nofun⟩
      | ok update =>
        simp only
        split
        · rename_i idle
          refine .pure fun state left => ?_
          obtain ⟨stored, rests⟩ := left.2 (by simpa using idle)
          have held := sustains.held steps _ state stored
          split
          · rename_i reached
            exact ⟨steps, held, .done, .of_reached stored reached⟩
          · rename_i short
            exact ⟨steps, held, .stuck _ rests (Bool.eq_false_iff.mpr short), nofun⟩
        · rename_i wrote
          refine .weaken (?_ : Ensures respond (stores (steps + 1) update.state.assignment) _ _)
            (fun _ left => left.1 (by simpa using wrote)) fun _ _ ended => ended
          refine .bind (sustains.asks_stored (.call rfl) (steps + 1) _) fun _ => ?_
          refine .bind (.weaken ((sustains.asks_stored (settle_asks ..) (steps + 1) _).and
            (settle_ensures _ _ _)) (fun _ stored => ⟨stored, trivial⟩) fun _ _ both => both)
            fun outcome => ?_
          split
          · rename_i text
            exact .pure fun state ended => ⟨steps + 1, sustains.held _ _ state ended.1,
              .failed text (head_of_begins (ended.2 text rfl)), nofun⟩
          · split
            · rename_i reached
              exact .pure fun state ended => ⟨steps + 1, sustains.held _ _ state ended.1, .done,
                .of_reached ended.1 reached⟩
            · refine .weaken (ih (steps + 1) _)
                (fun state ended => sustains.held _ _ state ended.1) ?_
              rintro outcome state ⟨made, held, ends, finishes⟩
              have room : steps + 1 + rounds = steps + (rounds + 1) := by omega
              exact ⟨made, held, room ▸ ends, finishes⟩

theorem Sustains.run (sustains : apply.Sustains respond holds stores knows) (current : Assignment) :
    Ensures respond (holds 0) (apply.run current) fun outcome state =>
      ∃ made, holds made state ∧ apply.Ends apply.roundLimit made outcome := by
  have ensures := sustains.writeSteps apply.roundLimit 0 current
  rw [Nat.zero_add] at ensures
  exact .weaken ensures (fun _ held => held) fun _ _ ⟨made, held, ends, _⟩ => ⟨made, held, ends⟩

theorem Sustains.run_finishes (sustains : apply.Sustains respond holds stores knows)
    (current : Assignment) :
    Ensures respond (holds 0) (apply.run current) fun outcome state =>
      ∃ made, apply.Finishes stores made outcome state :=
  .weaken (sustains.writeSteps apply.roundLimit 0 current) (fun _ held => held)
    fun _ _ ⟨made, _, _, finishes⟩ => ⟨made, finishes⟩

end

end ApplyJob

end SegmentPlacement

import SegmentPlacement.Rebalance.Result

/-! Programs that talk to a cluster. A program asks one request after the other
and goes on with the reply, whatever it is: the replies may come from a store, a
script, or a store that other writers change in between. -/

namespace SegmentPlacement

inductive Request where
  | idealState (table : String)
  /-- Replaces the assignment if the stored version is still the expected one. -/
  | compareAndSet (table : String) (version : Nat) (assignment : Assignment)
  | externalView (table : String)
  | servers
  | layout (name : String)
  | putLayout (layout : Layout)
  | removeLayout (name : String)
  | segments (table : String)
  | setTargetTiers (table : String) (tiers : OrderedMap String (Option String))
  /-- Whether the job has been told to stop. -/
  | cancelled
  /-- Lets some time pass, in milliseconds. -/
  | pause (least greatest : Nat)
  | report (progress : Progress)

/-- A service that fails says why. -/
abbrev Reply (α : Type) := Except String α

/-- What a request is answered with. -/
@[reducible] def Request.Answer : Request → Type
  | .idealState _ => Reply (Option IdealState)
  | .compareAndSet .. => Reply Bool
  | .externalView _ => Reply (Option Assignment)
  | .servers => Reply (List Server)
  | .layout _ => Reply (Option Layout)
  | .putLayout _ => Reply Unit
  | .removeLayout _ => Reply Unit
  | .segments _ => Reply (List Segment)
  | .setTargetTiers .. => Reply Unit
  | .cancelled => Bool
  | .pause .. => Unit
  | .report _ => Unit

/-- Whether a request may change what the cluster stores. -/
def Request.writes : Request → Bool
  | .compareAndSet .. | .putLayout _ | .removeLayout _ | .setTargetTiers .. => true
  | _ => false

inductive Program (α : Type) where
  | done (value : α)
  | ask (request : Request) (next : request.Answer → Program α)

/-- A request with the answer that it got. -/
structure Exchange where
  request : Request
  answer : request.Answer

/-- How a program ended: its value, what was asked and answered, and the state left behind. -/
structure Run (σ α : Type) where
  value : α
  exchanges : List Exchange
  state : σ

/-- Who answers the requests of a program, and how each request changes its state. -/
abbrev Responder (σ : Type) := (request : Request) → σ → request.Answer × σ

namespace Program

def bind (program : Program α) (next : α → Program β) : Program β :=
  match program with
  | .done value => next value
  | .ask request rest => .ask request fun answer => (rest answer).bind next

instance : Monad Program where
  pure := .done
  bind := bind

/-- The answer to a single request. -/
def call (request : Request) : Program request.Answer := .ask request .done

/-- A run that goes on after the exchanges in `earlier`, the latest of them first. -/
def runAfter (respond : Responder σ) : Program α → List Exchange → σ → Run σ α
  | .done value, earlier, state => ⟨value, earlier.reverse, state⟩
  | .ask request next, earlier, state =>
    let (answer, after) := respond request state
    (next answer).runAfter respond (⟨request, answer⟩ :: earlier) after

def run (respond : Responder σ) (program : Program α) (state : σ) : Run σ α :=
  program.runAfter respond [] state

theorem runAfter_eq (respond : Responder σ) (program : Program α) (earlier : List Exchange)
    (state : σ) :
    program.runAfter respond earlier state =
      { program.run respond state with
        exchanges := earlier.reverse ++ (program.run respond state).exchanges } := by
  induction program generalizing earlier state with
  | done value => simp [run, runAfter]
  | ask request next ih =>
    simp only [run, runAfter]
    rw [ih, ih _ [_]]
    simp

theorem run_done (respond : Responder σ) (value : α) (state : σ) :
    (Program.done value).run respond state = ⟨value, [], state⟩ := rfl

theorem run_ask (respond : Responder σ) (request : Request) (next : request.Answer → Program α)
    (state : σ) :
    (Program.ask request next).run respond state =
      let reply := respond request state
      let rest := (next reply.1).run respond reply.2
      { rest with exchanges := ⟨request, reply.1⟩ :: rest.exchanges } := by
  simp only [run, runAfter]
  rw [runAfter_eq]
  simp [run]

end Program

end SegmentPlacement

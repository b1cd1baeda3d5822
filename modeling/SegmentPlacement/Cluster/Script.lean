import SegmentPlacement.Cluster.Store

/-! A store whose replies are scripted in part. A scripted reply stands in for
one call of a service, counted from the start of the script, or for all calls
without a reply of their own; the store does not hear of that call. -/

namespace SegmentPlacement

/-- The services that requests go to. -/
inductive Service where
  | idealState
  | compareAndSet
  | externalView
  | servers
  | layout
  | putLayout
  | removeLayout
  | segments
  | setTargetTiers
  deriving DecidableEq, Repr

/-- The service behind a request, when it is one of the cluster's. -/
def Request.service? : Request → Option Service
  | .idealState _ => some .idealState
  | .compareAndSet .. => some .compareAndSet
  | .externalView _ => some .externalView
  | .servers => some .servers
  | .layout _ => some .layout
  | .putLayout _ => some .putLayout
  | .removeLayout _ => some .removeLayout
  | .segments _ => some .segments
  | .setTargetTiers .. => some .setTargetTiers
  | .cancelled | .pause .. | .report _ => none

inductive ScriptedReply where
  | failure (text : String)
  /-- Nothing found, or a write that lost to another one. -/
  | nothing
  | idealState (state : IdealState)
  | view (view : Assignment)
  | layout (layout : Layout)
  deriving DecidableEq

/-- A scripted reply as an answer to a request that it fits. -/
def ScriptedReply.answer? (reply : ScriptedReply) : (request : Request) → Option request.Answer
  | .idealState _ =>
    match reply with
    | .failure text => some (.error text)
    | .nothing => some (.ok none)
    | .idealState state => some (.ok (some state))
    | _ => none
  | .compareAndSet .. =>
    match reply with
    | .failure text => some (.error text)
    | .nothing => some (.ok false)
    | _ => none
  | .externalView _ =>
    match reply with
    | .failure text => some (.error text)
    | .nothing => some (.ok none)
    | .view found => some (.ok (some found))
    | _ => none
  | .layout _ =>
    match reply with
    | .failure text => some (.error text)
    | .nothing => some (.ok none)
    | .layout found => some (.ok (some found))
    | _ => none
  | .servers | .putLayout _ | .removeLayout _ | .segments _ | .setTargetTiers .. =>
    match reply with
    | .failure text => some (.error text)
    | _ => none
  | .cancelled | .pause .. | .report _ => none

/-- One line of a script; without a number it stands for all calls that have none of their own. -/
structure ScriptLine where
  service : Service
  call : Option Nat
  reply : ScriptedReply
  deriving DecidableEq

/-- The reply for a call of a service. -/
def scriptedReply? (script : List ScriptLine) (service : Service) (call : Nat) :
    Option ScriptedReply :=
  let lines := script.filter fun line => line.service = service
  ((lines.find? fun line => line.call = some call).orElse fun _ =>
    lines.find? fun line => line.call = none).map ScriptLine.reply

structure ScriptedStore where
  store : Store
  script : List ScriptLine := []
  /-- The number of calls of each service that was called. -/
  calls : List (Service × Nat) := []
  /-- The number of stored writes at which the job is told to stop. -/
  stopAtWrites : Option Nat := none

namespace ScriptedStore

/-- The calls of a service so far. -/
def callsOf (scripted : ScriptedStore) (service : Service) : Nat :=
  (scripted.calls.lookup service).getD 0

/-- The numbers of calls after one more of a service. -/
def counted (scripted : ScriptedStore) (service : Service) : List (Service × Nat) :=
  (service, scripted.callsOf service + 1)
    :: scripted.calls.filter fun entry => entry.1 ≠ service

/-- The answer of the script, or that of the store. -/
def answer (scripted : ScriptedStore) (reply : Option ScriptedReply) (request : Request) :
    request.Answer × Store :=
  match reply.bind fun found => found.answer? request with
  | some found => (found, scripted.store)
  | none => Store.respond request scripted.store

def respond : Responder ScriptedStore
  | .cancelled, scripted =>
    (((scripted.stopAtWrites.map fun writes => decide (writes ≤ scripted.store.writes)).getD false),
      scripted)
  | request, scripted =>
    match request.service? with
    | none =>
      let (answer, store) := scripted.answer none request
      (answer, { scripted with store })
    | some service =>
      let reply := scriptedReply? scripted.script service (scripted.callsOf service)
      let (answer, store) := scripted.answer reply request
      (answer, { scripted with store, calls := scripted.counted service })

end ScriptedStore

end SegmentPlacement

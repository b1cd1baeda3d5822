import SegmentPlacement.Cluster.Store
import SegmentPlacement.Proofs.ProgramLogic
import SegmentPlacement.StateUpdate

/-! Updates of an ideal state, attempt by attempt. An attempt reads, writes at most
what it makes of that very read, and is followed by another one only when the store
failed or another writer was faster. So the replies alone tell how an update ends,
and nothing is stored by an update that does not say so. -/

namespace SegmentPlacement

/-- The number of attempts that a policy asks for. -/
def RetryPolicy.attempts : RetryPolicy → Nat
  | .fixed attempts _ | .exponential attempts _ _ | .random attempts _ _ => attempts

private theorem RetryPolicy.maxAttempts_eq (policy : RetryPolicy) :
    policy.maxAttempts = max 1 policy.attempts := by
  cases policy <;> exact Nat.max_comm ..

namespace StateUpdate
open Program

/-- How an attempt goes: what it reads, and what its write is answered. -/
inductive Attempt where
  | unread (text : String)
  | missing
  | idle (current : IdealState)
  /-- Another writer was faster. -/
  | refused (current : IdealState) (next : Assignment)
  | unwritten (current : IdealState) (next : Assignment) (text : String)
  | written (current : IdealState) (next : Assignment)

def replaced (current : IdealState) (next : Assignment) : IdealState :=
  { current with version := current.version + 1, assignment := next }

namespace Attempt

/-- One read, and at most one write, which expects the version that was read. -/
def exchanges (table : String) : Attempt → List Exchange
  | .unread text => [⟨.idealState table, .error text⟩]
  | .missing => [⟨.idealState table, .ok none⟩]
  | .idle current => [⟨.idealState table, .ok (some current)⟩]
  | .refused current next =>
    [⟨.idealState table, .ok (some current)⟩,
      ⟨.compareAndSet table current.version next, .ok false⟩]
  | .unwritten current next text =>
    [⟨.idealState table, .ok (some current)⟩,
      ⟨.compareAndSet table current.version next, .error text⟩]
  | .written current next =>
    [⟨.idealState table, .ok (some current)⟩,
      ⟨.compareAndSet table current.version next, .ok true⟩]

/-- What is written is what `change` makes of the state that was read, and nothing is written only
if that changes nothing. -/
def Follows (change : Assignment → Option Assignment) : Attempt → Prop
  | .unread _ | .missing => True
  | .idle current => ∀ next, change current.assignment = some next → next = current.assignment
  | .refused current next | .unwritten current next _ | .written current next =>
    change current.assignment = some next ∧ next ≠ current.assignment

def isRetried : Attempt → Bool
  | .unread _ | .refused .. | .unwritten .. => true
  | .missing | .idle _ | .written .. => false

/-- The failure of the store that is remembered after an attempt. -/
def failure? (table : String) : Attempt → Option String
  | .unread text => some ("failed to read ideal state of " ++ table ++ ": " ++ text)
  | .unwritten _ _ text => some ("failed to write ideal state of " ++ table ++ ": " ++ text)
  | _ => none

/-- How an update ends with an attempt, the last of `made`. -/
def verdict (table : String) (noChangeOk : Bool) (made : Nat) : Attempt → Except Error StateUpdate
  | .unread text =>
    .error (.cluster ("failed to read ideal state of " ++ table ++ ": " ++ text))
  | .unwritten _ _ text =>
    .error (.cluster ("failed to write ideal state of " ++ table ++ ": " ++ text))
  | .refused .. => .error (.contended table made)
  | .missing => .error (.tableNotFound table)
  | .idle current =>
    if noChangeOk then .ok ⟨current, false, made⟩
    else .error (.cluster ("ideal state update for " ++ table ++ " produced no change"))
  | .written current next => .ok ⟨replaced current next, true, made⟩

def leaves? : Attempt → Option IdealState
  | .written current next => some (replaced current next)
  | _ => none

end Attempt

def pauses (policy : RetryPolicy) (made : Nat) : List Exchange :=
  if 0 < made then [⟨.pause (policy.pause (made - 1)).1 (policy.pause (made - 1)).2, ()⟩] else []

/-- Everything that is asked and answered in a series of attempts, after `made` others. -/
def trace (table : String) (policy : RetryPolicy) : Nat → List Attempt → List Exchange
  | _, [] => []
  | made, first :: rest =>
    pauses policy made ++ first.exchanges table ++ trace table policy (made + 1) rest

structure Retried (change : Assignment → Option Assignment) (attempts : List Attempt) : Prop where
  follow : ∀ attempt ∈ attempts, attempt.Follows change
  retried : ∀ attempt ∈ attempts, attempt.isRetried = true

/-- An update as a series of attempts with room for `room` of them. All but the last had to be made
again, and so had the last only if there is no room left. -/
structure Course (table : String) (change : Assignment → Option Assignment) (policy : RetryPolicy)
    (noChangeOk : Bool) (room : Nat) (earlier : List Attempt) (last : Attempt)
    (exchanges : List Exchange) (value : Except Error StateUpdate) : Prop where
  trace : exchanges = trace table policy 0 (earlier ++ [last])
  before : Retried change earlier
  follows : last.Follows change
  within : earlier.length + 1 ≤ room
  spent : last.isRetried = true → earlier.length + 1 = room
  value : value = last.verdict table noChangeOk (earlier.length + 1)

def Concluded (table : String) (change : Assignment → Option Assignment) (policy : RetryPolicy)
    (noChangeOk : Bool) (room : Nat) (value : Except Error StateUpdate)
    (exchanges : List Exchange) : Prop :=
  ∃ earlier last, Course table change policy noChangeOk room earlier last exchanges value

section

variable {table : String} {change : Assignment → Option Assignment} {policy : RetryPolicy}
  {noChangeOk : Bool}

private theorem trace_append (made : Nat) (earlier : List Attempt) (last : Attempt) :
    trace table policy made (earlier ++ [last]) =
      trace table policy made earlier ++ pauses policy (made + earlier.length) ++
        last.exchanges table := by
  induction earlier generalizing made with
  | nil => simp [trace]
  | cons first rest ih =>
    have next : made + 1 + rest.length = made + (first :: rest).length := by
      rw [List.length_cons]
      omega
    simp only [List.cons_append, trace, ih, List.append_assoc, next]

private theorem pauseBefore_records (made : Nat) (seen : List Exchange) :
    (pauseBefore policy made).Records (fun _ now => now = seen ++ pauses policy made) seen := by
  unfold pauseBefore pauses
  split
  · exact .call _ seen
  · exact .pure (List.append_nil seen).symm

theorem Retried.again {earlier : List Attempt} {last : Attempt} (retried : Retried change earlier)
    (follows : last.Follows change) (again : last.isRetried = true) :
    Retried change (earlier ++ [last]) where
  follow := List.forall_mem_append.mpr ⟨retried.follow, List.forall_mem_singleton.mpr follows⟩
  retried := List.forall_mem_append.mpr ⟨retried.retried, List.forall_mem_singleton.mpr again⟩

/-- An attempt that is not made again is the last one. -/
theorem Retried.stops {earlier : List Attempt} {last : Attempt} {room : Nat}
    (retried : Retried change earlier) (follows : last.Follows change)
    (final : last.isRetried = false) (within : earlier.length + 1 ≤ room) :
    Concluded table change policy noChangeOk room
      (last.verdict table noChangeOk (earlier.length + 1))
      (trace table policy 0 (earlier ++ [last])) := by
  refine ⟨earlier, last, rfl, retried, follows, within, fun again => ?_, rfl⟩
  rw [final] at again
  cases again

/-- When there is no room for another attempt, the latest one decides. -/
theorem Retried.spent {earlier : List Attempt} {last : Attempt}
    (retried : Retried change (earlier ++ [last])) :
    Concluded table change policy noChangeOk (earlier ++ [last]).length
      (last.verdict table noChangeOk (earlier ++ [last]).length)
      (trace table policy 0 (earlier ++ [last])) := by
  obtain ⟨follow, follows⟩ := List.forall_mem_append.mp retried.follow
  obtain ⟨again, _⟩ := List.forall_mem_append.mp retried.retried
  rw [List.length_append, List.length_singleton]
  exact ⟨earlier, last, rfl, ⟨follow, again⟩, List.forall_mem_singleton.mp follows,
    Nat.le_refl _, fun _ => rfl, rfl⟩

variable (table policy noChangeOk) in
theorem attempt_records (left : Nat) (earlier : List Attempt) (begun : 0 < earlier.length + left)
    (retried : Retried change earlier) :
    (attempt table change policy noChangeOk left earlier.length
        (earlier.getLast?.bind (Attempt.failure? table))).Records
      (Concluded table change policy noChangeOk (earlier.length + left))
      (trace table policy 0 earlier) := by
  -- The attempts made and the room that is left always add up to the same.
  induction left generalizing earlier with
  | zero =>
    obtain rfl | ⟨before, last, rfl⟩ := earlier.eq_nil_or_concat
    · cases begun
    rw [List.concat_eq_append] at *
    have again := retried.retried last (by simp)
    rw [List.getLast?_concat, Option.bind_some]
    cases last with
    | unread | refused | unwritten => exact .pure retried.spent
    | missing | idle | written => cases again
  | succ left ih =>
    let room := earlier.length + (left + 1)
    let asked := trace table policy 0 earlier ++ pauses policy earlier.length
    have split (last : Attempt) :
        trace table policy 0 (earlier ++ [last]) = asked ++ last.exchanges table := by
      rw [trace_append, Nat.zero_add]
    have stops (last : Attempt) (follows : last.Follows change) (final : last.isRetried = false) :
        Concluded table change policy noChangeOk room
          (last.verdict table noChangeOk (earlier.length + 1)) (asked ++ last.exchanges table) :=
      split last ▸ retried.stops follows final (Nat.add_le_add_left (Nat.le_add_left 1 left) _)
    have goesOn (last : Attempt) (follows : last.Follows change) (again : last.isRetried = true) :
        (attempt table change policy noChangeOk left (earlier.length + 1)
          (last.failure? table)).Records (Concluded table change policy noChangeOk room)
          (asked ++ last.exchanges table) := by
      have enough : 0 < (earlier ++ [last]).length + left := by
        rw [List.length_append, List.length_singleton]
        omega
      have later := ih (earlier ++ [last]) enough (retried.again follows again)
      rw [split, List.length_append, List.length_singleton, List.getLast?_concat, Option.bind_some,
        Nat.add_assoc, Nat.add_comm 1] at later
      exact later
    rw [attempt]
    refine .bind (pauseBefore_records ..) fun _ now paused => ?_
    refine .bind (Records.call _ now) fun read now seen => ?_
    subst paused seen
    change Heeds _ _ _ _ (asked ++ _)
    split
    · exact goesOn (.unread _) trivial rfl
    · exact .pure (stops .missing trivial rfl)
    · rename_i current
      split
      · rename_i idle
        have stays : (Attempt.idle current).Follows change := fun next changed => by
          simpa using Option.filter_eq_none_iff.mp idle next changed
        have stopped := stops (.idle current) stays rfl
        cases noChangeOk <;> exact .pure stopped
      · rename_i next proposed
        obtain ⟨changed, differs⟩ := Option.filter_eq_some_iff.mp proposed
        have follows := And.intro changed (of_decide_eq_true differs)
        refine .bind (Records.call _ _) fun reply now seen => ?_
        subst seen
        rw [List.append_assoc]
        split
        · exact .pure (stops (.written current next) follows rfl)
        · exact goesOn (.refused current next) follows rfl
        · exact goesOn (.unwritten current next _) follows rfl

/-- Whatever it is answered, an update is a series of attempts. -/
theorem run_records (table : String) (change : Assignment → Option Assignment)
    (policy : RetryPolicy) (noChangeOk : Bool) :
    (run table change policy noChangeOk).Records
      (Concluded table change policy noChangeOk (max 1 policy.attempts)) [] := by
  have begun : 0 < ([] : List Attempt).length + max 1 policy.attempts := by
    rw [List.length_nil]
    omega
  have none : Retried change [] := ⟨nofun, nofun⟩
  have records := attempt_records table policy noChangeOk _ [] begun none
  rw [List.length_nil, Nat.zero_add] at records
  rw [run, policy.maxAttempts_eq]
  exact records

end

end StateUpdate

/-- A table whose replies are scripted, and what they tell of it. A failed write was not carried
out, and an accepted one replaced the state that was read last. -/
structure ScriptedTable where
  /-- What the reads are answered, one after the other. -/
  reads : Nat → Reply (Option IdealState)
  /-- What the writes are answered, one after the other. -/
  writes : Nat → Reply Bool
  readCount : Nat := 0
  writeCount : Nat := 0
  stored : Option IdealState := none
  /-- The states that the program has put in place. -/
  own : List IdealState := []

namespace ScriptedTable
open StateUpdate

def notice (script : ScriptedTable) : Exchange → ScriptedTable
  | ⟨.idealState _, .ok found⟩ =>
    { script with readCount := script.readCount + 1, stored := found }
  | ⟨.idealState _, .error _⟩ => { script with readCount := script.readCount + 1 }
  | ⟨.compareAndSet _ version next, .ok true⟩ =>
    let stored := script.stored.map fun current =>
      { current with version := version + 1, assignment := next }
    { script with
      writeCount := script.writeCount + 1, stored, own := script.own ++ stored.toList }
  | ⟨.compareAndSet .., _⟩ => { script with writeCount := script.writeCount + 1 }
  | _ => script

def answer (script : ScriptedTable) : (request : Request) → request.Answer
  | .idealState _ => script.reads script.readCount
  | .compareAndSet .. => script.writes script.writeCount
  | request => (Store.respond request {}).1

def respond : Responder ScriptedTable := fun request script =>
  (script.answer request, script.notice ⟨request, script.answer request⟩)

variable (table : String) (policy : RetryPolicy)

private theorem foldl_notice_pauses (script : ScriptedTable) (made : Nat) :
    (pauses policy made).foldl notice script = script := by
  unfold pauses
  split <;> rfl

private theorem notice_attempt (script : ScriptedTable) (attempt : Attempt) :
    let after := (attempt.exchanges table).foldl notice script
    after.readCount = script.readCount + 1 ∧ after.writeCount ≤ script.writeCount + 1 ∧
      after.own = script.own ++ attempt.leaves?.toList ∧
      ∀ state ∈ attempt.leaves?, after.stored = some state := by
  cases attempt <;>
    simp [Attempt.exchanges, Attempt.leaves?, notice, replaced]

private theorem foldl_notice_trace (script : ScriptedTable) (made : Nat) (attempts : List Attempt) :
    let after := (trace table policy made attempts).foldl notice script
    after.readCount = script.readCount + attempts.length ∧
      after.writeCount ≤ script.writeCount + attempts.length ∧
      after.own = script.own ++ attempts.filterMap Attempt.leaves? := by
  induction attempts generalizing script made with
  | nil => simp [trace]
  | cons first rest ih =>
    obtain ⟨reads, writes, own, _⟩ := notice_attempt table script first
    obtain ⟨laterReads, laterWrites, laterOwn⟩ :=
      ih ((first.exchanges table).foldl notice script) (made + 1)
    simp only [trace, List.foldl_append, foldl_notice_pauses, List.length_cons]
    refine ⟨by omega, by omega, ?_⟩
    rw [laterOwn, own, List.append_assoc]
    cases first <;> rfl

end ScriptedTable

namespace StateUpdate
open ScriptedTable

theorem Retried.leaves {change : Assignment → Option Assignment} {attempts : List Attempt}
    (retried : Retried change attempts) : attempts.filterMap Attempt.leaves? = [] := by
  refine List.filterMap_eq_nil_iff.mpr fun attempt member => ?_
  have again := retried.retried attempt member
  cases attempt with
  | written => cases again
  | _ => rfl

variable {table : String} {noChangeOk : Bool} {made : Nat} {last : Attempt}

private theorem leaves_of_updated {update : StateUpdate}
    (ended : last.verdict table noChangeOk made = .ok update) (updated : update.updated = true) :
    last.leaves? = some update.state := by
  cases last with
  | idle current =>
    cases noChangeOk <;> cases ended
    cases updated
  | written current next =>
    cases ended
    rfl
  | _ => cases ended

private theorem leaves_of_not_updated (stays : ∀ update,
    last.verdict table noChangeOk made = .ok update → update.updated = false) :
    last.leaves? = none := by
  cases last with
  | written current next => cases stays _ rfl
  | _ => rfl

/-- Whatever a table replies to reads and writes, an update is a series of attempts, all but the
last of which failed or lost to another writer. It stores exactly the state that it answers when it
says that it has written, and otherwise nothing. -/
theorem run_follows_replies (table : String) (change : Assignment → Option Assignment)
    (policy : RetryPolicy) (noChangeOk : Bool) (reads : Nat → Reply (Option IdealState))
    (writes : Nat → Reply Bool) :
    let ended := (run table change policy noChangeOk).run ScriptedTable.respond { reads, writes }
    (∃ earlier last, Course table change policy noChangeOk (max 1 policy.attempts) earlier last
      ended.exchanges ended.value) ∧
    (ended.state.readCount ≤ max 1 policy.attempts ∧
      ended.state.writeCount ≤ ended.state.readCount) ∧
    (∀ update, ended.value = .ok update → update.updated = true →
      ended.state.own = [update.state] ∧ ended.state.stored = some update.state) ∧
    ((∀ update, ended.value = .ok update → update.updated = false) → ended.state.own = []) := by
  intro ended
  obtain ⟨earlier, last, course⟩ :=
    (run_records table change policy noChangeOk).run ScriptedTable.respond { reads, writes }
  have state : ended.state =
      (trace table policy 0 (earlier ++ [last])).foldl notice { reads, writes } :=
    (Program.run_state (fun _ _ => rfl) _ _).trans (congrArg _ course.trace)
  obtain ⟨readCount, writeCount, own⟩ :=
    foldl_notice_trace table policy { reads, writes } 0 (earlier ++ [last])
  simp only [← state, List.length_append, List.length_singleton, List.filterMap_append,
    course.before.leaves, List.nil_append, Nat.zero_add] at readCount writeCount own
  have within := course.within
  refine ⟨⟨earlier, last, course⟩, ⟨by omega, by omega⟩, fun update value updated => ?_,
    fun stays => ?_⟩
  · have leaves := leaves_of_updated (course.value ▸ value) updated
    refine ⟨own.trans (by simp [leaves]), ?_⟩
    rw [state, trace_append, List.foldl_append]
    exact (notice_attempt table _ last).2.2.2 _ leaves
  · have leaves := leaves_of_not_updated fun update ended => stays update (course.value ▸ ended)
    exact own.trans (by simp [leaves])

-- A read fails, a write loses to another writer, and the third attempt succeeds.
example :
    let stored (version : Nat) (server : String) : IdealState :=
      { table := "t_OFFLINE", version,
        assignment := .ofList [("s", .uniform [server] .online)] }
    let reads (count : Nat) : Reply (Option IdealState) :=
      if count = 0 then .error "no answer" else .ok (some (stored (3 + count) "a"))
    let ended := (run "t_OFFLINE" (fun _ => some (stored 0 "b").assignment) (.fixed 3 0) false).run
      ScriptedTable.respond { reads, writes := fun count => .ok (count = 1) }
    ended.state.own = [stored 6 "b"] ∧ ended.exchanges.length = 7 := by
  decide +kernel

end StateUpdate

end SegmentPlacement

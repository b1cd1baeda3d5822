import SegmentPlacement.Proofs.ApplyLoop
import SegmentPlacement.Proofs.MoveStep

/-! The loop that writes a target, among other writers. Whatever they write
between its requests, it replaces only what it has read, by the next step from
there, and their segments are safe from it. -/

namespace SegmentPlacement.ApplyJob
open Program SharedTable

/-- An assignment has the segments of another one, and the same replicas of every segment without
a target. -/
structure Spares (target after before : Assignment) : Prop where
  names : after.keys = before.keys
  untargeted : ∀ segment, target.get? segment = none → after.get? segment = before.get? segment

theorem Spares.refl (target assignment : Assignment) : Spares target assignment assignment :=
  ⟨rfl, fun _ _ => rfl⟩

theorem Spares.trans {target last middle first : Assignment} (later : Spares target last middle)
    (earlier : Spares target middle first) : Spares target last first :=
  ⟨later.names.trans earlier.names, fun segment missing =>
    (later.untargeted segment missing).trans (earlier.untargeted segment missing)⟩

theorem spares_next (current target : Assignment) (minAvailable : Nat) (batch : Option Nat) :
    Spares target (Move.next current target minAvailable batch) current :=
  ⟨Move.keys_next .., fun _ => Move.get?_next_of_untargeted minAvailable batch⟩

structure Faithful (apply : ApplyJob) (write : Write) : Prop where
  current : write.read = some write.before
  step : write.after =
    Move.next write.before.assignment apply.target apply.minAvailable apply.batch
  foreign : Spares apply.target write.after write.foreign

structure Respects (apply : ApplyJob) (shared : SharedTable) : Prop where
  writes : ∀ write ∈ shared.writes, apply.Faithful write
  foreign : Spares apply.target shared.ideal.assignment shared.foreign

variable {apply : ApplyJob} {shared : SharedTable}

theorem Respects.start (apply : ApplyJob) (ideal : IdealState) (schedule : Nat → Turn) :
    apply.Respects (.start ideal schedule) :=
  ⟨fun _ member => absurd member List.not_mem_nil, .refl ..⟩

theorem Respects.arrive (respects : apply.Respects shared) : apply.Respects shared.arrive := by
  obtain ⟨writes, _, ⟨ideal, foreign⟩ | latest⟩ := shared.arrive_cases
  · exact ⟨writes ▸ respects.writes, by rw [ideal, foreign]; exact respects.foreign⟩
  · exact ⟨writes ▸ respects.writes, latest ▸ .refl ..⟩

theorem Respects.request (respects : apply.Respects shared) {request : Request}
    (reads : request.replacesIdeal = false) :
    apply.Respects (SharedTable.respond request shared).2 := by
  obtain ⟨read, after⟩ := respond_of_no_write shared reads
  rw [after]
  exact ⟨respects.arrive.writes, respects.arrive.foreign⟩

/-- After a read the loop knows what is stored. -/
structure HasRead (apply : ApplyJob) (current : IdealState) (shared : SharedTable) : Prop where
  respects : apply.Respects shared
  stored : shared.ideal = current
  read : shared.lastRead = some current

private theorem read_known (respects : apply.Respects shared) {current : IdealState} {table : String}
    (answered : (SharedTable.respond (.idealState table) shared).1 = .ok (some current)) :
    apply.HasRead current (SharedTable.respond (.idealState table) shared).2 := by
  have kept : apply.Respects (SharedTable.respond (.idealState table) shared).2 :=
    respects.request rfl
  cases treatment : shared.turn.treatment with
  | served =>
    simp only [SharedTable.respond, treatment] at answered kept ⊢
    cases answered
    exact ⟨kept, rfl, rfl⟩
  | missed => simp [SharedTable.respond, treatment] at answered
  | failed text carriedOut => simp [SharedTable.respond, treatment] at answered

private theorem write_kept {current : IdealState} {next : Assignment}
    (known : apply.HasRead current shared) (changed : apply.change current.assignment = some next)
    (table : String) :
    apply.Respects
      (SharedTable.respond (.compareAndSet table current.version next) shared).2 := by
  rcases respond_compareAndSet table current.version next shared with ⟨_, lost⟩ | ⟨same, written⟩
  · rw [lost]
    exact known.respects.arrive
  · rw [← known.stored] at same
    rw [written, arrive_of_version same]
    have step : next = Move.next current.assignment apply.target apply.minAvailable apply.batch := by
      unfold change at changed
      split at changed
      · cases changed
      · exact (Option.some.inj changed).symm
    have spared : Spares apply.target next shared.foreign := by
      rw [step, ← known.stored]
      exact (spares_next ..).trans known.respects.foreign
    refine ⟨?_, spared⟩
    intro write member
    rcases List.mem_append.mp member with earlier | latest
    · exact known.respects.writes write earlier
    · obtain rfl := List.mem_singleton.mp latest
      exact ⟨known.stored ▸ known.read, known.stored ▸ step, spared⟩

private theorem sustains_respects (apply : ApplyJob) :
    apply.Sustains SharedTable.respond (fun _ => apply.Respects) (fun _ _ => apply.Respects)
      fun _ => apply.HasRead where
  between _ _ _ reads respects := respects.request (Request.replacesIdeal_of_reads reads)
  lasts _ _ _ _ reads respects := respects.request (Request.replacesIdeal_of_reads reads)
  held _ _ _ respects := respects
  read _ _ _ respects answered := read_known respects answered
  known _ _ _ known := known.respects
  write _ _ _ _ known changed :=
    ⟨write_kept known changed apply.table, fun _ => write_kept known changed apply.table⟩

theorem writeSteps_respects (apply : ApplyJob) (rounds steps : Nat) (previous : Assignment) :
    Ensures SharedTable.respond apply.Respects (apply.writeSteps rounds steps previous)
      fun _ => apply.Respects :=
  .weaken (apply.sustains_respects.writeSteps rounds steps previous) (fun _ respects => respects)
    fun _ _ ⟨_, respects, _⟩ => respects

/-- Whatever others write between the requests of a run, every write of the loop replaces the state
that the loop has read, by the next step from there. So it has the segments that the others left,
and those without a target as they left them: none is lost, moved or brought back. -/
theorem run_respects_other_writers (apply : ApplyJob) (current : Assignment) (ideal : IdealState)
    (schedule : Nat → Turn) :
    let ended := ((apply.run current).run SharedTable.respond (.start ideal schedule)).state
    (∀ write ∈ ended.writes,
      write.read = some write.before ∧
      write.after =
        Move.next write.before.assignment apply.target apply.minAvailable apply.batch ∧
      Spares apply.target write.after write.before.assignment ∧
      Spares apply.target write.after write.foreign) ∧
    Spares apply.target ended.ideal.assignment ended.foreign := by
  intro ended
  have respects : apply.Respects ended :=
    writeSteps_respects apply apply.roundLimit 0 current _ (.start apply ideal schedule)
  refine ⟨?_, respects.foreign⟩
  intro write member
  have faithful := respects.writes write member
  refine ⟨faithful.current, faithful.step, ?_, faithful.foreign⟩
  rw [faithful.step]
  exact spares_next ..

-- A segment that is uploaded between the loop's first read and its first write is still there in
-- the end, and the other one has moved.
example :
    let before : Assignment := OrderedMap.ofList [("s", .uniform ["a"] .online)]
    let apply : ApplyJob :=
      { job := "job", table := "t_OFFLINE", target := OrderedMap.ofList [("s", .uniform ["b"] .online)]
        minAvailable := 0, batch := none, downtime := true, bestEfforts := false
        retry := .fixed 2 0, checkIntervalMs := 0, timeoutMs := 0, roundLimit := 2 }
    let schedule : Nat → Turn := fun index =>
      { others := if index = 2 then [fun stored => stored.insert "u" (.uniform ["c"] .online)] else []
        answer := fun request => (Store.respond request {}).1 }
    let ended := ((apply.run before).run SharedTable.respond
      (.start { table := "t_OFFLINE", assignment := before } schedule)).state
    ended.ideal.assignment =
      OrderedMap.ofList [("s", .uniform ["b"] .online), ("u", .uniform ["c"] .online)] := by
  decide +kernel

end SegmentPlacement.ApplyJob

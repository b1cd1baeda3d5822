import SegmentPlacement.Proofs.ApplyLoop
import SegmentPlacement.Proofs.MoveProgress

/-! The loop that writes a target makes progress. It never finds a step that has
nothing to write before the target is reached, and as long as nobody else writes,
every write uses up one of the steps that were needed at the beginning. -/

namespace SegmentPlacement.ApplyJob
open Program SharedTable

variable {apply : ApplyJob}

/-- Batches, where there are any, have room for a segment. -/
def Roomy (apply : ApplyJob) : Prop := ∀ size, apply.batch = some size → 0 < size

private theorem reached_of_rests (roomy : apply.Roomy) {assignment : Assignment}
    (rests : apply.Rests assignment) : Move.reached assignment apply.target = true := by
  by_contra left
  have short := Bool.eq_false_iff.mpr left
  have closer := Move.stepsNeeded_next_lt apply.minAvailable roomy short
  simp only [Rests, change, if_neg left, Option.filter_eq_none_iff, Option.some.injEq,
    decide_not, Bool.not_eq_true, Bool.not_eq_false', decide_eq_true_eq] at rests
  rw [rests _ rfl] at closer
  exact Nat.lt_irrefl _ closer

private theorem stepsNeeded_of_change (roomy : apply.Roomy) {current next : Assignment}
    (changed : apply.change current = some next) :
    Move.stepsNeeded next apply.target < Move.stepsNeeded current apply.target := by
  unfold change at changed
  split at changed
  · cases changed
  · rename_i left
    obtain rfl := Option.some.inj changed
    exact Move.stepsNeeded_next_lt apply.minAvailable roomy (Bool.eq_false_iff.mpr left)

/-- Nobody else writes, and the writes so far and the steps still needed stay within a bound. -/
structure Within (apply : ApplyJob) (bound made : Nat) (shared : SharedTable) : Prop where
  alone : ∀ index, (shared.schedule index).others = []
  counted : made ≤ shared.writes.length
  bounded : shared.writes.length + Move.stepsNeeded shared.ideal.assignment apply.target ≤ bound

variable {bound made : Nat} {shared : SharedTable}

private theorem Within.arrive_eq (within : apply.Within bound made shared) :
    shared.arrive = { shared with requests := shared.requests + 1 } := by
  simp only [SharedTable.arrive, SharedTable.turn, within.alone, List.foldl_nil]

theorem Within.arrive (within : apply.Within bound made shared) :
    apply.Within bound made shared.arrive := by
  rw [within.arrive_eq]
  exact ⟨within.alone, within.counted, within.bounded⟩

theorem Within.request (within : apply.Within bound made shared) {request : Request}
    (reads : request.replacesIdeal = false) :
    apply.Within bound made (SharedTable.respond request shared).2 := by
  obtain ⟨read, after⟩ := respond_of_no_write shared reads
  rw [after]
  exact ⟨within.arrive.alone, within.arrive.counted, within.arrive.bounded⟩

private theorem ideal_of_read {table : String} {current : IdealState}
    (answered : (SharedTable.respond (.idealState table) shared).1 = .ok (some current)) :
    (SharedTable.respond (.idealState table) shared).2.ideal = current := by
  cases treatment : shared.turn.treatment with
  | served =>
    simp only [SharedTable.respond, treatment] at answered ⊢
    cases answered
    rfl
  | missed => simp [SharedTable.respond, treatment] at answered
  | failed text carriedOut => simp [SharedTable.respond, treatment] at answered

private theorem sustains_within (roomy : apply.Roomy) (bound : Nat) :
    apply.Sustains SharedTable.respond (apply.Within bound)
      (fun made _ => apply.Within bound made) fun made current shared =>
        apply.Within bound made shared ∧ shared.ideal = current where
  between _ _ _ reads within := within.request (Request.replacesIdeal_of_reads reads)
  lasts _ _ _ _ reads within := within.request (Request.replacesIdeal_of_reads reads)
  held _ _ _ within := within
  read _ _ _ within answered := ⟨within.request rfl, ideal_of_read answered⟩
  known _ _ _ known := known.1
  write made current next shared known changed := by
    obtain ⟨within, rfl⟩ := known
    rcases respond_compareAndSet apply.table shared.ideal.version next shared with
      ⟨refused, lost⟩ | ⟨_, written⟩
    · rw [lost]
      exact ⟨within.arrive, fun accepted => absurd accepted refused⟩
    · have fewer := stepsNeeded_of_change roomy changed
      have counted := within.counted
      have bounded := within.bounded
      have after : apply.Within bound (made + 1)
          (SharedTable.respond (.compareAndSet apply.table shared.ideal.version next) shared).2 := by
        rw [written, within.arrive_eq]
        refine ⟨within.alone, ?_, ?_⟩
        · simp only [List.length_append, List.length_singleton]
          omega
        · simp only [List.length_append, List.length_singleton]
          omega
      exact ⟨⟨after.alone, Nat.le_of_succ_le after.counted, after.bounded⟩, fun _ => after⟩

private theorem reasons_differ (table : String) :
    "Rebalance of " ++ table ++ " made no progress" ≠
      "Rebalance of " ++ table ++ " did not come to an end" := by
  intro same
  have lists := congrArg String.toList same
  simp only [String.toList_append] at lists
  exact absurd (List.append_cancel_left lists) (by decide)

private theorem head_reason (table reason : String) :
    ("Rebalance of " ++ table ++ reason).toList.head? = some 'R' := by
  simp only [String.toList_append]
  rfl

private theorem Ends.progresses {limit made : Nat} {outcome : ApplyOutcome} (roomy : apply.Roomy)
    (ends : apply.Ends limit made outcome) :
    outcome ≠ .failed ("Rebalance of " ++ apply.table ++ " made no progress") := by
  intro failed
  cases ends with
  | done => cases failed
  | cancelled => cases failed
  | stuck assignment rests short =>
    rw [reached_of_rests roomy rests] at short
    cases short
  | endless => exact reasons_differ apply.table (ApplyOutcome.failed.inj failed).symm
  | failed text other =>
    obtain rfl := ApplyOutcome.failed.inj failed
    exact other (head_reason apply.table _)

theorem Ends.full {limit made : Nat} {outcome : ApplyOutcome} (ends : apply.Ends limit made outcome)
    (failed : outcome = .failed ("Rebalance of " ++ apply.table ++ " did not come to an end")) :
    limit ≤ made := by
  cases ends with
  | done => cases failed
  | cancelled => cases failed
  | stuck => exact absurd (ApplyOutcome.failed.inj failed) (reasons_differ apply.table)
  | endless full => exact full
  | failed text other =>
    obtain rfl := ApplyOutcome.failed.inj failed
    exact absurd (head_reason apply.table _) other

private theorem sustains_nothing (apply : ApplyJob) (respond : Responder σ) :
    apply.Sustains respond (fun _ _ => True) (fun _ _ _ => True) fun _ _ _ => True where
  between _ _ _ _ _ := trivial
  lasts _ _ _ _ _ _ := trivial
  held _ _ _ _ := trivial
  read _ _ _ _ _ := trivial
  known _ _ _ _ := trivial
  write _ _ _ _ _ _ := ⟨trivial, fun _ => trivial⟩

/-- Every step gets on until the target is reached, which takes no more steps than are needed one
segment after the other. So the loop never finds itself stuck, whoever answers it, and if nobody
else writes it makes no more writes than that, and does not run into its limit of rounds. -/
theorem run_makes_progress (apply : ApplyJob) (roomy : ∀ size, apply.batch = some size → 0 < size) :
    let step := fun assignment =>
      Move.next assignment apply.target apply.minAvailable apply.batch
    (∀ current, Move.reached current apply.target = false → step current ≠ current) ∧
    (∀ current steps, Move.stepsNeeded current apply.target ≤ steps →
      Move.reached (step^[steps] current) apply.target = true) ∧
    (∀ (σ : Type) (respond : Responder σ) (state : σ) (current : Assignment),
      ((apply.run current).run respond state).value ≠
        .failed ("Rebalance of " ++ apply.table ++ " made no progress")) ∧
    ∀ (current : Assignment) (ideal : IdealState) (schedule : Nat → Turn),
      (∀ index, (schedule index).others = []) →
      let ended := (apply.run current).run SharedTable.respond (.start ideal schedule)
      ended.state.writes.length ≤ Move.stepsNeeded ideal.assignment apply.target ∧
      (Move.stepsNeeded ideal.assignment apply.target < apply.roundLimit →
        ended.value ≠ .failed ("Rebalance of " ++ apply.table ++ " did not come to an end")) := by
  intro step
  refine ⟨?_, ?_, ?_, ?_⟩
  · intro current left same
    have closer := Move.stepsNeeded_next_lt apply.minAvailable roomy left
    change Move.stepsNeeded (step current) apply.target < _ at closer
    rw [same] at closer
    exact Nat.lt_irrefl _ closer
  · intro current steps enough
    exact Move.reached_iterate apply.minAvailable roomy enough
  · intro σ respond state current
    obtain ⟨made, _, ends⟩ := (sustains_nothing apply respond).run current state trivial
    exact ends.progresses roomy
  · intro current ideal schedule alone ended
    have start : apply.Within (Move.stepsNeeded ideal.assignment apply.target) 0
        (.start ideal schedule) := ⟨alone, Nat.zero_le _, by simp [SharedTable.start]⟩
    obtain ⟨made, within, ends⟩ := (sustains_within roomy _).run current _ start
    have bounded := within.bounded
    have counted := within.counted
    refine ⟨Nat.le_trans (Nat.le_add_right ..) bounded, ?_⟩
    intro room failed
    have full := ends.full failed
    omega

/-- One segment changes both of its servers and another one its only server, one at a time. -/
def pairJob : ApplyJob :=
  { job := "job", table := "t_OFFLINE", minAvailable := 1, batch := some 1
    target := OrderedMap.ofList
      [("s", .uniform ["c", "d"] .online), ("u", .uniform ["c"] .online)]
    downtime := true, bestEfforts := false, retry := .fixed 1 0, checkIntervalMs := 0
    timeoutMs := 0, roundLimit := 4 }

def pairBefore : Assignment :=
  OrderedMap.ofList [("s", .uniform ["a", "b"] .online), ("u", .uniform ["a"] .online)]

theorem pairJob_makes_progress :
    (∀ size, pairJob.batch = some size → 0 < size) ∧
      Move.reached pairBefore pairJob.target = false ∧
      Move.next pairBefore pairJob.target 1 (some 1) ≠ pairBefore ∧
      Move.stepsNeeded pairBefore pairJob.target = 3 ∧
      ∀ schedule : Nat → Turn, (∀ index, (schedule index).others = []) →
        ((pairJob.run pairBefore).run SharedTable.respond
          (.start { table := "t_OFFLINE", assignment := pairBefore } schedule)).state.writes.length ≤
            3 := by
  have roomy : ∀ size, pairJob.batch = some size → 0 < size := by
    intro size same
    cases same
    decide
  have short : Move.reached pairBefore pairJob.target = false := by decide +kernel
  have needed : Move.stepsNeeded pairBefore pairJob.target = 3 := by decide +kernel
  obtain ⟨moves, _, _, bounded⟩ := run_makes_progress pairJob roomy
  refine ⟨roomy, short, moves pairBefore short, needed, ?_⟩
  intro schedule alone
  have fewer := (bounded pairBefore { table := "t_OFFLINE", assignment := pairBefore } schedule alone).1
  rwa [needed] at fewer

end SegmentPlacement.ApplyJob

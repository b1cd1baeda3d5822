import SegmentPlacement.Proofs.RebalanceWrites

/-! How many replicas keep serving while a rebalance writes its steps. The number
that is asked for is checked against the most replicas of any target segment, but
a step keeps room for one new server of the segment at hand, so segments with few
target replicas may keep less. -/

namespace SegmentPlacement

/-- The write leaves every segment at least so many of the servers that held it. -/
def Write.Keeps (write : Write) (floor : String → Replicas → Nat) : Prop :=
  ∀ segment before, write.before.assignment.get? segment = some before →
    ∃ after, write.after.get? segment = some after ∧
      floor segment before ≤ (Move.staying before after).length

namespace Rebalance

/-- The assignment that a rebalance reports, if it got so far. -/
def reported (outcome : Except Error RebalanceResult) : Option Assignment :=
  outcome.toOption.bind fun result => result.computed.map (·.assignment)

/-- The replicas that keep serving, as they are checked before the first write. -/
def promised (table : TableConfig) (options : RebalanceOptions) (target : Assignment) : Nat :=
  options.minAvailable (target.replication table.replication)

/-- What a step keeps of a segment that `before` holds. Without a target it keeps everything. -/
def stepFloor (target : Assignment) (minAvailable : Nat) (segment : String)
    (before : Replicas) : Nat :=
  match target.get? segment with
  | none => before.size
  | some wanted => min (min minAvailable before.size) (wanted.size - 1)

theorem StepsToward.keeps {target : Assignment} {minAvailable : Nat} {batch : Option Nat}
    {shared : SharedTable} (steps : StepsToward target minAvailable batch shared) :
    ∀ write ∈ shared.writes, write.Keeps (stepFloor target minAvailable) := by
  intro write member segment before held
  rw [steps write member]
  unfold stepFloor
  cases aimed : target.get? segment with
  | none =>
    refine ⟨before, ?_, Nat.le_of_eq (Move.staying_self before).symm⟩
    rw [Move.get?_next_of_untargeted _ _ aimed, held]
  | some wanted => exact Move.le_staying_next minAvailable batch held aimed

/-- Every ideal state that a rebalance writes keeps the promised number of the servers that held a
segment just before, as far as the target of the segment leaves room for a new server. Others may
write in between, if each of their writes raises the version, as writes to a table do that is not
registered anew. -/
theorem run_keeps_floor (setup : RebalanceSetup) (table : TableConfig) (options : RebalanceOptions)
    (job : String) (ideal : IdealState) (schedule : Nat → Turn) :
    let ended := (run setup table options job).run SharedTable.respond (.start ideal schedule)
    ∀ write ∈ ended.state.writes, ∃ target, reported ended.value = some target ∧
      write.Keeps (stepFloor target (promised table options target)) := by
  intro ended write member
  rcases run_accounts setup table options job _ (.start ideal schedule) with idle | accounted
  · rw [idle] at member
    cases member
  · obtain ⟨result, outcome, idle | ⟨computed, told, steps⟩⟩ := accounted
    · rw [idle] at member
      cases member
    · refine ⟨computed.assignment, ?_, steps.keeps write member⟩
      simp [ended, outcome, reported, told, Except.toOption]

/-- A table whose consuming segment stays where it is. Its three replicas make room for a promise
of two, which the other segment with its two target replicas cannot keep. -/
def wideTable : TableConfig :=
  { name := "events_REALTIME", kind := .realtime, replication := 2, serverTag := "T"
    streamPartitions := some 1 }

def wideAssignment (servers : List String) : Assignment :=
  OrderedMap.ofList
    [("c", .uniform ["a", "b", "x"] .consuming), ("s", .uniform servers .online)]

def wideIdeal : IdealState :=
  { table := "events_REALTIME", assignment := wideAssignment ["a", "b"] }

def wideStore : Store :=
  { snapshot :=
      { servers := [{ id := "d", tags := ["T"] }, { id := "e", tags := ["T"] }]
        tables := OrderedMap.ofList [("events_REALTIME",
          { config := wideTable, ideal := wideIdeal
            view := wideAssignment ["a", "b", "d", "e"] })] } }

def wideSchedule : Nat → Turn := fun _ =>
  { answer := fun request => (Store.respond request wideStore).1 }

/-- The promise itself is not kept, even if nobody else writes and all replicas serve. -/
theorem run_breaks_promise :
    ¬ ∀ (setup : RebalanceSetup) (table : TableConfig) (options : RebalanceOptions) (job : String)
      (ideal : IdealState) (schedule : Nat → Turn),
      let ended := (run setup table options job).run SharedTable.respond (.start ideal schedule)
      options.downtime = false →
      (∀ index, (schedule index).others = []) →
      (∀ replicas ∈ ideal.assignment.values, ∀ state ∈ replicas.values, state.isServing) →
      ∀ target, reported ended.value = some target →
        promised table options target < target.replication table.replication →
        ∀ write ∈ ended.state.writes,
          write.Keeps fun _ before => min (promised table options target) before.size := by
  intro kept
  have first : (⟨some wideIdeal, wideIdeal, wideAssignment ["a", "d"], wideAssignment ["a", "b"]⟩ :
      Write) ∈ ((run { roundLimit := 10 } wideTable { minAvailableReplicas := 2 } "job").run
        SharedTable.respond (.start wideIdeal wideSchedule)).state.writes := by decide +kernel
  obtain ⟨after, held, enough⟩ := kept { roundLimit := 10 } wideTable
    { minAvailableReplicas := 2 } "job" wideIdeal wideSchedule rfl (fun _ => rfl)
    (by decide +kernel) (wideAssignment ["d", "e"]) (by decide +kernel) (by decide +kernel)
    _ first "s" (.uniform ["a", "b"] .online) (by decide +kernel)
  have lost : (wideAssignment ["a", "d"]).get? "s" = some (.uniform ["a", "d"] .online) := by
    decide +kernel
  rw [lost] at held
  cases held
  exact absurd enough (by decide +kernel)

end Rebalance

end SegmentPlacement

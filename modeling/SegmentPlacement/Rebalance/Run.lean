import SegmentPlacement.Rebalance.Apply
import SegmentPlacement.Rebalance.Plan

/-! A rebalance of one table: read what there is, compute layouts and target,
report, and write the target unless there is nothing to do or nothing may be
done. All failures before the first write leave the cluster as it was. -/

namespace SegmentPlacement

/-- Everything a rebalance needs besides its table and its options. -/
structure RebalanceSetup where
  service : ServiceSettings := {}
  /-- Checks without sources are used when there is none. -/
  checker : Option Checker := none
  offsets : Option OffsetSource := none
  /-- The time, in milliseconds, that ages are measured from. -/
  now : Int := 0
  roundLimit : Nat := 0x4000000000000000

/-- What is read of a table before anything is computed. -/
structure TableFacts where
  ideal : IdealState
  servers : List Server
  segments : OrderedMap String Segment

namespace Rebalance

/-- Reads the ideal state, the servers and the segments, in this order. -/
def readFacts (table : String) : Program (Except String TableFacts) := do
  match ← Program.call (.idealState table) with
  | .error text => return .error ("Caught exception while fetching ideal state: " ++ text)
  | .ok none => return .error ("Cannot find the ideal state for table: " ++ table)
  | .ok (some ideal) =>
    match ← Program.call .servers with
    | .error text => return .error ("Caught exception while fetching instance configs: " ++ text)
    | .ok servers =>
      match ← Program.call (.segments table) with
      | .error text => return .error ("Caught exception while fetching segment metadata: " ++ text)
      | .ok segments =>
        return .ok ⟨ideal, servers,
          OrderedMap.ofList (segments.map fun segment => (segment.name, segment))⟩

/-- The summary of a move; that of a realtime table tells about consuming segments as well. -/
def summarize (setup : RebalanceSetup) (table : TableConfig) (facts : TableFacts)
    (target : Assignment) : Summary :=
  let current := facts.ideal.assignment
  let summary := Summary.compute table current target facts.servers facts.segments
  if table.isRealtime then
    let consuming := ConsumingSummary.compute current target facts.segments setup.offsets setup.now
    { summary with segments := { summary.segments with consuming := some consuming } }
  else summary

/-- The checks of a rebalance that asks for them. -/
def checks (setup : RebalanceSetup) (table : TableConfig) (options : RebalanceOptions)
    (current target : Assignment) (summary : Summary) : Option (List (CheckName × CheckResult)) :=
  if options.preChecks then
    let checker := setup.checker.getD { diskThreshold := setup.service.diskThreshold }
    some (PreCheck.run checker { table, options, current, target, summary })
  else none

/-- The target and everything that is reported of it. -/
def compute (setup : RebalanceSetup) (table : TableConfig) (options : RebalanceOptions)
    (facts : TableFacts) (plan : LayoutPlan) : Except Error (Target × Computation) := do
  let current := facts.ideal.assignment
  let target ← table.target facts.segments plan.layouts plan.tiers current
    { includeConsuming := options.includeConsuming, bootstrap := options.bootstrap,
      now := setup.now }
  let summary := summarize setup table facts target.assignment
  return (target,
    { layouts := plan.layouts
      tierLayouts := plan.tierLayouts
      assignment := target.assignment
      summary
      checks := checks setup table options current target.assignment summary })

/-- Whether a rebalance ends before its first write, or the floor of replicas that it keeps. -/
inductive Verdict where
  | ends (status : RebalanceStatus) (description : String)
  | goesOn (minAvailable : Nat)
  deriving DecidableEq, Repr

def judge (table : TableConfig) (options : RebalanceOptions) (unchanged : Bool) (plan : LayoutPlan)
    (target : Assignment) : Verdict :=
  let replication := target.replication table.replication
  let minAvailable := options.minAvailable replication
  if unchanged ∧ ¬ plan.changes then .ends .noOp "Table is already balanced"
  else if options.dryRun then .ends .done "Dry-run mode"
  else if ¬ options.downtime ∧ replication ≤ minAvailable then
    .ends .failed ("Illegal config for minAvailableReplicas: " ++ toString minAvailable
      ++ " for table: " ++ table.name ++ ", must be less than number of replicas: "
      ++ toString replication)
  else .goesOn minAvailable

/-- Stores layouts until one fails. -/
def storeLayouts : List Layout → Program (Except String Unit)
  | [] => return .ok ()
  | layout :: rest => do
    match ← Program.call (.putLayout layout) with
    | .error text => return .error ("Caught exception while persisting instance partitions: " ++ text)
    | .ok () => storeLayouts rest

/-- Drops layouts until one fails. -/
def dropLayouts : List String → Program (Except String Unit)
  | [] => return .ok ()
  | name :: rest => do
    match ← Program.call (.removeLayout name) with
    | .error text => return .error ("Caught exception while removing instance partitions: " ++ text)
    | .ok () => dropLayouts rest

/-- Records the tier of every known segment; a failure to do so does not stop the rebalance. -/
def recordTiers (table : TableConfig) (options : RebalanceOptions)
    (segments : OrderedMap String Segment) (target : Target) : Program Unit := do
  if options.updateTargetTier then
    let tiers := segments.map fun name _ => target.segmentTiers.get? name
    let _ ← Program.call (.setTargetTiers table.name tiers)

def applyJob (setup : RebalanceSetup) (table : TableConfig) (options : RebalanceOptions)
    (job : String) (target : Assignment) (minAvailable : Nat) : ApplyJob :=
  { job, table := table.name, target, minAvailable
    batch := options.batchSize
    downtime := options.downtime
    bestEfforts := options.bestEfforts
    retry := setup.service.stateRetry
    checkIntervalMs := options.viewCheckIntervalMs.getD setup.service.viewCheckIntervalMs
    timeoutMs := options.viewTimeoutMs.getD setup.service.viewTimeoutMs
    roundLimit := setup.roundLimit }

/-- Carries out what was planned, and tells how that ended. -/
def carryOut (setup : RebalanceSetup) (table : TableConfig) (options : RebalanceOptions)
    (job : String) (facts : TableFacts) (plan : LayoutPlan) (target : Target)
    (minAvailable : Nat) : Program (RebalanceStatus × String) := do
  match ← storeLayouts plan.toStore with
  | .error description => return (.failed, description)
  | .ok () =>
    match ← dropLayouts plan.toDrop with
    | .error description => return (.failed, description)
    | .ok () =>
      recordTiers table options facts.segments target
      if target.assignment = facts.ideal.assignment then
        return (.done, "Instance partitions updated, segment assignment unchanged")
      else
        let apply := applyJob setup table options job target.assignment minAvailable
        match ← apply.run facts.ideal.assignment with
        | .done steps => return (.done, "Success with " ++ toString steps ++ " steps")
        | .cancelled steps =>
          return (.cancelled, "Rebalance cancelled after " ++ toString steps ++ " steps")
        | .failed description => return (.failed, description)

/-- The result of a rebalance whose options are valid. -/
def work (setup : RebalanceSetup) (table : TableConfig) (options : RebalanceOptions)
    (job : String) : Program RebalanceResult := do
  let failed (description : String) : RebalanceResult := ⟨job, .failed, description, none⟩
  if options.preChecks ∧ ¬ options.dryRun then
    return failed "Pre-checks can only be enabled in dry-run mode, not triggering rebalance"
  else match table.validate with
    | .error error => return failed ("Invalid table config: " ++ error.message)
    | .ok () =>
      match ← readFacts table.name with
      | .error description => return failed description
      | .ok facts =>
        match ← LayoutPlan.make table options facts.servers with
        | .error error =>
          return failed ("Caught exception while calculating instance partitions: "
            ++ error.message)
        | .ok plan =>
          match compute setup table options facts plan with
          | .error error =>
            return failed ("Caught exception while calculating target assignment: "
              ++ error.message)
          | .ok (target, computed) =>
            let unchanged := decide (target.assignment = facts.ideal.assignment)
            match judge table options unchanged plan target.assignment with
            | .ends status description => return ⟨job, status, description, some computed⟩
            | .goesOn minAvailable =>
              let (status, description) ←
                carryOut setup table options job facts plan target minAvailable
              return ⟨job, status, description, some computed⟩

/-- A rebalance. Only options that are invalid in themselves are an error; every other failure is
told by the result. -/
def run (setup : RebalanceSetup) (table : TableConfig) (options : RebalanceOptions)
    (job : String) : Program (Except Error RebalanceResult) := do
  match options.validate with
  | .error error => return .error error
  | .ok () =>
    let result ← work setup table options job
    Program.call (.report ⟨job, 0, 0, .completed result.status⟩)
    return .ok result

end Rebalance

end SegmentPlacement

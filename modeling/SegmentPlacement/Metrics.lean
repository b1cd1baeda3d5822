import SegmentPlacement.Program
import SegmentPlacement.Routing.Selector

/-! Counters and gauges, as totals under the name and labels of each. They are
read off the results of an operation and the exchanges it had. -/

namespace SegmentPlacement

inductive Metric where
  | rebalances (table : String) (status : RebalanceStatus)
  | steps (table : String)
  | segmentsUpdated (table : String)
  | conflicts
  | checkErrors (check : CheckName)
  | poolSegments (pool : Nat)
  | refreshes (table : String)
  | unavailable (table : String)
  deriving DecidableEq, Repr

/-- A name and the text of its labels. -/
private def labelled (name labels : String) : String := name ++ "\x7b" ++ labels ++ "\x7d"

def Metric.text : Metric → String
  | .rebalances table status =>
    labelled "tessera_rebalance_total" ("status=" ++ status.text ++ ",table=" ++ table)
  | .steps table => labelled "tessera_rebalance_steps_total" ("table=" ++ table)
  | .segmentsUpdated table =>
    labelled "tessera_rebalance_segments_updated_total" ("table=" ++ table)
  | .conflicts => labelled "tessera_rebalance_ideal_state_conflicts_total" ""
  | .checkErrors check =>
    labelled "tessera_rebalance_pre_check_errors_total" ("check=" ++ check.text)
  | .poolSegments pool =>
    labelled "tessera_broker_pool_segments_queried_total" ("pool=" ++ toString pool)
  | .refreshes table => labelled "tessera_broker_routing_refreshes_total" ("table=" ++ table)
  | .unavailable table => labelled "tessera_broker_unavailable_segments" ("table=" ++ table)

/-- Totals by the text of the metric. -/
abbrev Tally := OrderedMap String Nat

namespace Tally

def count (tally : Tally) (metric : Metric) (amount : Nat) : Tally := tally.add metric.text amount

/-- A gauge keeps the last value. -/
def gauge (tally : Tally) (metric : Metric) (value : Nat) : Tally := tally.insert metric.text value

/-- What one exchange counts for in the rebalance of a table. -/
def countExchange (table : String) (tally : Tally) : Exchange → Tally
  | ⟨.compareAndSet .., .ok false⟩ => tally.count .conflicts 1
  | ⟨.report progress, _⟩ =>
    if progress.status = .running then
      (tally.count (.steps table) 1).count (.segmentsUpdated table) progress.segmentsUpdated
    else tally
  | _ => tally

def ofExchanges (table : String) (exchanges : List Exchange) : Tally :=
  exchanges.foldl (countExchange table) {}

/-- What the result of a rebalance counts for. -/
def countResult (tally : Tally) (table : String) (result : RebalanceResult) : Tally :=
  countErrors (tally.count (.rebalances table result.status) 1)
    ((result.computed.bind Computation.checks).getD [])
where
  countErrors (tally : Tally) (checks : List (CheckName × CheckResult)) : Tally :=
    checks.foldl (fun tally check =>
      if check.2.status = .error then tally.count (.checkErrors check.1) 1 else tally) tally

def ofChecks (checks : List (CheckName × CheckResult)) : Tally := countResult.countErrors {} checks

def ofChoices (choices : List (String × Option Candidate)) : Tally :=
  (Selector.poolCounts choices).foldl (fun tally pool count =>
    tally.count (.poolSegments pool) count) {}

def ofRefresh (table : String) (states : RoutingStates) : Tally :=
  (count {} (.refreshes table) 1).gauge (.unavailable table) states.unavailable.size

end Tally

end SegmentPlacement

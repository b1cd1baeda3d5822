import SegmentPlacement.CommandLine
import Std.Time.DateTime.Timestamp

/-! The command on a real machine: it reads variables, files and the clock,
prints the result and writes the cluster's file back. -/

namespace SegmentPlacement.CommandLine

/-- The text of a file that can be read. -/
def readText (path : String) : IO (Option String) := do
  try
    return some (← IO.FS.readFile path)
  catch _ =>
    return none

/-- The variables that the command looks at. -/
def variableNames : List String :=
  ["TESSERA_CLUSTER", "TESSERA_EV_CHECK_INTERVAL_MS", "TESSERA_EV_STABILIZATION_TIMEOUT_MS",
    "TESSERA_PRE_CHECK_TIMEOUT_MS", "TESSERA_PRE_CHECK_PARALLELISM",
    "TESSERA_DISK_UTILIZATION_THRESHOLD", "TESSERA_IDEAL_STATE_MAX_ATTEMPTS",
    "TESSERA_METRICS_PORT"]

/-- The pairs of names and the texts found for them. -/
def gather (find : String → IO (Option String)) (names : List String) :
    IO (List (String × String)) := do
  let mut found := []
  for name in names do
    if let some text ← find name then
      found := (name, text) :: found
  return found

/-- A random number of hexadecimal digits. -/
def randomDigits (count : Nat) : IO String := do
  let mut digits := []
  for _ in List.range count do
    digits := Nat.digitChar (← IO.rand 0 15) :: digits
  return String.ofList digits

/-- A random job name of the usual shape. -/
def freshJob : IO String := do
  let front ← randomDigits 8
  let second ← randomDigits 4
  let third ← randomDigits 3
  let fourth ← randomDigits 3
  let back ← randomDigits 12
  return front ++ "-" ++ second ++ "-4" ++ third ++ "-a" ++ fourth ++ "-" ++ back

end SegmentPlacement.CommandLine

open SegmentPlacement

def main (arguments : List String) : IO UInt32 := do
  let given ← CommandLine.gather (fun name => IO.getEnv name) CommandLine.variableNames
  let environment (name : String) : Option String := given.lookup name
  match CommandLine.parse environment arguments with
  | .error stop => return stop.exitCode.toUInt32
  | .ok invocation =>
    let files ← CommandLine.gather CommandLine.readText
      (invocation.cluster :: invocation.config.toList)
    let now ← Std.Time.Timestamp.now
    let job ← CommandLine.freshJob
    let outcome := CommandLine.execute environment (fun path => files.lookup path) invocation
      now.toMillisecondsSinceUnixEpoch.val job
    IO.print outcome.output
    if let some text := outcome.saved then
      IO.FS.writeFile invocation.cluster text
    return outcome.exitCode.toUInt32

import SegmentPlacement.Cluster.Store
import SegmentPlacement.Codec.Rebalance
import SegmentPlacement.Codec.Snapshot
import SegmentPlacement.Rebalance.Run
import SegmentPlacement.Toml.Document

/-! The command that rebalances one table of a cluster kept in a file. It is a
function of its arguments, its variables and the texts of its files; running it
answers an exit code, what to print, and what to write back. -/

namespace SegmentPlacement.CommandLine

/-- The arguments of a run. -/
structure Arguments where
  cluster : Option String := none
  table : Option String := none
  config : Option String := none
  job : Option String := none
  metricsPort : Option Nat := none
  jsonLogs : Bool := false
  options : RebalanceOptions := {}
  /-- The names given so far; each may be given once. -/
  given : List String := []

/-- Why arguments do not make a run. -/
inductive Stop where
  | help
  | refused
  deriving DecidableEq, Repr

/-- The exit code for arguments that are refused, and for a request for help. -/
def Stop.exitCode : Stop → Nat
  | .help => 0
  | .refused => 2

/-- Switches take no value. -/
def switch? : String → Option (Arguments → Arguments)
  | "dry-run" => option fun options => { options with dryRun := true }
  | "pre-checks" => option fun options => { options with preChecks := true }
  | "reassign-instances" => option fun options => { options with reassignInstances := true }
  | "include-consuming" => option fun options => { options with includeConsuming := true }
  | "bootstrap" => option fun options => { options with bootstrap := true }
  | "downtime" => option fun options => { options with downtime := true }
  | "best-efforts" => option fun options => { options with bestEfforts := true }
  | "update-target-tier" => option fun options => { options with updateTargetTier := true }
  | "json-logs" => some fun arguments => { arguments with jsonLogs := true }
  | _ => none
where
  option (change : RebalanceOptions → RebalanceOptions) : Option (Arguments → Arguments) :=
    some fun arguments => { arguments with options := change arguments.options }

/-- A path has at least one character. -/
def path? (text : String) : Option String := if text.isEmpty then none else some text

def number? (text : String) : Option Int := Text.signed? (-0x80000000) 0x7FFFFFFF text.toList

def enablementWord? : String → Option Enablement
  | "enable" => some .enable
  | "disable" => some .disable
  | "default" => some .byTable
  | _ => none

/-- A setting with a value; the value may be unfit for it. -/
abbrev Setting := String → Arguments → Option Arguments

def setting? : String → Option Setting
  | "cluster" => some fun text arguments =>
    (path? text).map fun path => { arguments with cluster := some path }
  | "table" => some fun text arguments => some { arguments with table := some text }
  | "config" => some fun text arguments =>
    (path? text).map fun path => { arguments with config := some path }
  | "job-id" => some fun text arguments => some { arguments with job := some text }
  | "metrics-port" => some fun text arguments =>
    (Text.signed? 0 0xFFFF text.toList).map fun port =>
      { arguments with metricsPort := some port.toNat }
  | "min-available-replicas" => some fun text arguments =>
    (number? text).map fun number =>
      { arguments with options := { arguments.options with minAvailableReplicas := number } }
  | "batch-size-per-server" => some fun text arguments =>
    (number? text).map fun number =>
      { arguments with options := { arguments.options with batchSizePerServer := number } }
  | "minimize-data-movement" => some fun text arguments =>
    (enablementWord? text).map fun choice =>
      { arguments with options := { arguments.options with minimizeMovement := choice } }
  | _ => none

/-- The settings whose value may begin with a minus sign, when it is a number. -/
def takesNegatives (name : String) : Bool :=
  name == "min-available-replicas" || name == "batch-size-per-server"

/-- Whether the next argument can be the value of a setting. -/
def isValueFor (name : String) (text : String) : Bool :=
  match text.toList with
  | '-' :: first :: rest => takesNegatives name && (first :: rest).all Text.isDigit
  | _ => true

/-- Notes that a name was given, which may happen once. -/
def Arguments.note (arguments : Arguments) (name : String) : Except Stop Arguments :=
  if arguments.given.contains name then .error .refused
  else .ok { arguments with given := name :: arguments.given }

/-- Gives a setting its value. -/
def Arguments.set (arguments : Arguments) (name : String) (setting : Setting) (value : String) :
    Except Stop Arguments := do
  let noted ← arguments.note name
  match setting value noted with
  | some changed => return changed
  | none => .error .refused

/-- The name of a long argument, and the value after its equals sign. -/
def splitLong (chars : List Char) : String × Option String :=
  let name := String.ofList (chars.takeWhile (· ≠ '='))
  match chars.dropWhile (· ≠ '=') with
  | _ :: value => (name, some (String.ofList value))
  | [] => (name, none)

/-- Reads arguments from the first on; the first that does not fit decides. -/
def readAll (arguments : Arguments) : List String → Except Stop Arguments
  | [] => .ok arguments
  | text :: rest =>
    match text.toList with
    | ['-', '-'] => if rest.isEmpty then .ok arguments else .error .refused
    | '-' :: '-' :: long =>
      let (name, value) := splitLong long
      match switch? name, setting? name, value with
      | some change, _, none => do
        let noted ← arguments.note name
        readAll (change noted) rest
      | _, some setting, some value => do
        let changed ← arguments.set name setting value
        readAll changed rest
      | _, some setting, none =>
        match rest with
        | value :: later =>
          if isValueFor name value then do
            let changed ← arguments.set name setting value
            readAll changed later
          else .error .refused
        | [] => .error .refused
      | _, _, _ => if name = "help" ∧ value.isNone then .error .help else .error .refused
    | '-' :: 'h' :: _ => .error .help
    | _ => .error .refused

/-- The cluster's file may come from a variable instead of an argument. -/
def withVariables (environment : String → Option String) (arguments : Arguments) :
    Except Stop Arguments :=
  match arguments.cluster, environment "TESSERA_CLUSTER" with
  | none, some text =>
    match path? text with
    | some path => .ok { arguments with cluster := some path }
    | none => .error .refused
  | _, _ => .ok arguments

/-- What a run works on. -/
structure Invocation where
  cluster : String
  table : String
  config : Option String
  job : Option String
  options : RebalanceOptions

/-- The run that arguments and variables ask for. -/
def parse (environment : String → Option String) (texts : List String) : Except Stop Invocation := do
  let arguments ← withVariables environment (← readAll {} texts)
  match arguments.cluster, arguments.table with
  | some cluster, some table =>
    return { cluster, table, config := arguments.config, job := arguments.job,
             options := arguments.options }
  | _, _ => .error .refused

/-- How a run ended. -/
structure Outcome where
  exitCode : Nat
  output : String := ""
  /-- The new text of the cluster's file, when it is written. -/
  saved : Option String := none
  deriving DecidableEq, Repr

/-- The settings in a file's text. -/
def settingsOfText (text : Option String) : Except ServiceFault ServiceSettings :=
  match text with
  | none => .error .unreadable
  | some text =>
    match (Toml.read? text).bind Codec.serviceSettings? with
    | some settings => settings.validate
    | none => .error .malformed

/-- Settings come from a file when one is named, else from variables. -/
def settings (environment file? : String → Option String) (config : Option String) :
    Except ServiceFault ServiceSettings :=
  match config with
  | some path => settingsOfText (file? path)
  | none => ServiceSettings.ofVariables environment

/-- Rebalances a table of a cluster. Whatever was written is kept, so a later run goes on from it. -/
def rebalance (service : ServiceSettings) (snapshot : Snapshot) (state : TableState)
    (options : RebalanceOptions) (job : String) (now : Int) : Outcome :=
  let store : Store := { snapshot }
  let setup : RebalanceSetup :=
    { service, now
      checker := some (store.checker service.diskThreshold)
      offsets := some (store.offsets state.config.name) }
  let ran := (Rebalance.run setup state.config options job).run Store.respond store
  match ran.value with
  | .error _ => { exitCode := 1 }
  | .ok result =>
    let keeps := ¬ options.dryRun ∧ result.status ≠ .noOp
    { exitCode := if result.status = .failed then 1 else 0
      output := (Codec.ofResult result).pretty ++ "\n"
      saved := if keeps then some (Codec.snapshotText ran.state.snapshot) else none }

/-- Carries out a run on the texts of its files. -/
def execute (environment file? : String → Option String) (invocation : Invocation) (now : Int)
    (freshJob : String) : Outcome :=
  let found : Option (ServiceSettings × Snapshot × TableState) := do
    let service ← (settings environment file? invocation.config).toOption
    let snapshot ← (file? invocation.cluster).bind Codec.readSnapshot?
    let state ← snapshot.tables.get? invocation.table
    return (service, snapshot, state)
  match found with
  | none => { exitCode := 1 }
  | some (service, snapshot, state) =>
    rebalance service snapshot state invocation.options (invocation.job.getD freshJob) now

end SegmentPlacement.CommandLine

import SegmentPlacement.Load
import SegmentPlacement.Routing.Candidate
import SegmentPlacement.Table
import SegmentPlacement.Text.Blank
import SegmentPlacement.Text.Numeral
import SegmentPlacement.Word

/-! One server for each segment of a query. In turn, a segment takes the candidate
that the number of the request and the replica group in use point to. With a
ranking, it takes the best of its candidates when all of them are ranked. -/

namespace SegmentPlacement

/-- The UTF-16 code units of a character. -/
def utf16Units (char : Char) : List Nat :=
  let code := char.toNat
  if code < 0x10000 then [code]
  else [0xD800 + (code - 0x10000) / 0x400, 0xDC00 + (code - 0x10000) % 0x400]

/-- A hash of a name to the base 31 in signed 32-bit words, without its sign. -/
def fixedReplicaHash (name : String) : Nat :=
  ((name.toList.flatMap utf16Units).foldl (fun (hash : Int) unit =>
    (hash * 31 + Int.ofNat unit).bmod (wordCount 32)) 0).natAbs

abbrev QueryOptions := OrderedMap String String

namespace QueryOptions

/-- How many replica groups a query may use; anything that is no positive number means one. -/
def groupsToQuery (options : QueryOptions) : Nat :=
  (((options.get? "numReplicaGroupsToQuery").bind fun text =>
    Text.unsigned? (wordCount 64) (Text.strip text.toList)).filter (0 < ·)).getD 1

/-- A text in lower case, as far as ASCII goes. -/
def lowered (text : String) : String := String.ofList (text.toList.map Char.toLower)

/-- Whether the request number is left out; the table's choice counts unless the query has one. -/
def usesFixedReplica (options : QueryOptions) (byTable : Bool) : Bool :=
  match (options.get? "useFixedReplica").map lowered with
  | some "true" => true
  | some "false" => false
  | _ => byTable

end QueryOptions

/-- The servers chosen for a query. -/
structure Selection where
  segments : OrderedMap String String := {}
  /-- Segments sent to servers that may not have loaded them yet. -/
  optional : OrderedMap String String := {}
  /-- Segments without candidates, in the order of the query. -/
  unavailable : List String := []
  deriving DecidableEq

namespace Selection

/-- Adds the choice made for a segment. -/
def addChoice (selection : Selection) (segment : String) : Option Candidate → Selection
  | none => { selection with unavailable := selection.unavailable ++ [segment] }
  | some chosen =>
    if chosen.online then
      { selection with segments := selection.segments.insert segment chosen.server }
    else { selection with optional := selection.optional.insert segment chosen.server }

def ofChoices (choices : List (String × Option Candidate)) : Selection :=
  choices.foldl (fun selection choice => selection.addChoice choice.1 choice.2) {}

/-- All servers that the query touches. -/
def servers (selection : Selection) : NameSet :=
  OrderedMap.ofKeys (selection.segments.values ++ selection.optional.values)

end Selection

structure Selector where
  table : String
  useFixedReplica : Bool := false
  /-- Ranks servers, best first; servers it knows nothing of are left out. -/
  ranker : Option (List String → List String) := none

namespace Selector

def forTable (table : TableConfig) : Selector :=
  { table := table.name, useFixedReplica := table.routing.useFixedReplica }

/-- Choices made in turn, with the number of replica groups in use and the next of them. No more
groups are used than any segment so far had candidates. -/
def chooseInTurn (states : RoutingStates) (base : Nat) :
    Nat → Nat → List String → List (String × Option Candidate)
  | _, _, [] => []
  | groups, offset, segment :: rest =>
    match states.candidatesOf? segment with
    | none => (segment, none) :: chooseInTurn states base groups offset rest
    | some candidates =>
      let used := min groups candidates.length
      (segment, candidates[(base + offset) % wordCount 64 % candidates.length]?)
        :: chooseInTurn states base used ((offset + 1) % used) rest

/-- All candidates of the segments, each once: what a ranker is asked to rank. -/
def rankable (states : RoutingStates) (segments : List String) : List String :=
  (OrderedMap.ofKeys (segments.flatMap fun segment =>
    ((states.candidatesOf? segment).getD []).map Candidate.server)).keys

/-- The place of a server in a ranking; of several places the last counts. -/
def rankOf? (ranking : List String) (server : String) : Option Nat :=
  (ranking.zipIdx.reverse.find? fun ranked => ranked.1 == server).map Prod.snd

/-- The best ranked candidate, or the one that the request number points to when not all are
ranked. -/
def chooseRanked (ranking : List String) (request : Nat) (candidates : List Candidate) :
    Option Candidate :=
  let ranks := candidates.map fun candidate => rankOf? ranking candidate.server
  if ranks.all Option.isSome then
    let rankAt (position : Nat) : Nat := (ranks[position]?.join).getD 0
    (leastOf rankAt (List.range candidates.length)).bind fun position => candidates[position]?
  else candidates[request % candidates.length]?

/-- What every segment of a query is given. -/
def choices (selector : Selector) (states : RoutingStates) (segments : List String)
    (request : Nat) (options : QueryOptions) : List (String × Option Candidate) :=
  match selector.ranker with
  | some rank =>
    let ranking := rank (rankable states segments)
    segments.map fun segment =>
      (segment, (states.candidatesOf? segment).bind (chooseRanked ranking request))
  | none =>
    let base :=
      if options.usesFixedReplica selector.useFixedReplica then fixedReplicaHash selector.table
      else request
    chooseInTurn states base options.groupsToQuery 0 segments

def select (selector : Selector) (states : RoutingStates) (segments : List String)
    (request : Nat) (options : QueryOptions) : Selection :=
  Selection.ofChoices (selector.choices states segments request options)

/-- How many segments were sent to each pool. -/
def poolCounts (choices : List (String × Option Candidate)) : OrderedMap Nat Nat :=
  (choices.filterMap Prod.snd).foldl (fun counts chosen => counts.add chosen.pool 1) {}

end Selector

end SegmentPlacement

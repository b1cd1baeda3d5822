import SegmentPlacement.Assignment
import SegmentPlacement.Segment
import SegmentPlacement.Server
import SegmentPlacement.Table

/-! What a move from one assignment to another changes: segments added to and
removed from every server, totals for the table, and what the servers of each of
the table's tags will download. -/

namespace SegmentPlacement

/-- A number before and after a rebalance. -/
structure Change where
  before : Nat
  after : Nat
  deriving DecidableEq, Repr

inductive ServerStatus where
  | added
  | removed
  | unchanged
  deriving DecidableEq, Repr

structure ServerChange where
  status : ServerStatus
  segmentsBefore : Nat
  segmentsAfter : Nat
  added : Nat
  deleted : Nat
  unchanged : Nat
  tags : List String
  deriving DecidableEq, Repr

/-- The servers of a move: those of every status, those that gain a segment and how many they are,
and the change of each. -/
structure ServerSummary where
  gainingCount : Nat := 0
  servers : Change
  added : NameSet := {}
  removed : NameSet := {}
  unchanged : NameSet := {}
  gaining : NameSet := {}
  changes : OrderedMap String ServerChange := {}
  deriving DecidableEq

/-- A segment with the number by which it is ranked. -/
structure RankedSegment where
  segment : String
  value : Int
  deriving DecidableEq, Repr

structure ConsumingServer where
  added : Nat
  /-- -1 when an offset is not known. -/
  offsetsToCatchUp : Int
  deriving DecidableEq, Repr

/-- The consuming segments that move. -/
structure ConsumingSummary where
  moving : Nat
  /-- Missing when an offset is not known. -/
  mostOffsets : Option (List RankedSegment)
  oldestMinutes : List RankedSegment
  servers : OrderedMap String ConsumingServer
  deriving DecidableEq

structure SegmentSummary where
  moved : Nat
  deleted : Nat
  mostAddedToOneServer : Nat
  /-- -1 when no segment's size is known. -/
  averageBytes : Int
  bytesToMove : Int
  replication : Change
  segments : Change
  replicas : Change
  consuming : Option ConsumingSummary
  deriving DecidableEq

/-- What the servers of one tag have to do. -/
structure TagSummary where
  tag : String
  toDownload : Nat := 0
  unchanged : Nat := 0
  participants : Nat := 0
  deriving DecidableEq, Repr

structure Summary where
  servers : ServerSummary
  segments : SegmentSummary
  tags : List TagSummary
  deriving DecidableEq

/-- Stands for the tags of servers that carry none of the table's. -/
def outdatedTag : String := "OUTDATED_SERVERS"

namespace ServerSummary

def withStatus (summary : ServerSummary) : ServerStatus → NameSet
  | .added => summary.added
  | .removed => summary.removed
  | .unchanged => summary.unchanged

/-- One more server, listed under its status. -/
def enlist (summary : ServerSummary) (server : String) : ServerStatus → ServerSummary
  | .added => { summary with added := summary.added.insert server () }
  | .removed => { summary with removed := summary.removed.insert server () }
  | .unchanged => { summary with unchanged := summary.unchanged.insert server () }

/-- One more server with its change. -/
def take (summary : ServerSummary) (server : String) (change : ServerChange) : ServerSummary :=
  let listed := summary.enlist server change.status
  { listed with
    gaining := if 0 < change.added then listed.gaining.insert server () else listed.gaining
    changes := listed.changes.insert server change }

end ServerSummary

namespace Summary

/-- The tags of the first server registered under an id. -/
def tagsOf (servers : List Server) (id : String) : List String :=
  match servers.find? fun server => server.id == id with
  | some server => server.tags
  | none => []

def statusOf (before after : Bool) : ServerStatus :=
  match before, after with
  | false, true => .added
  | true, false => .removed
  | _, _ => .unchanged

/-- The change of one server, given its segments before and after when it has any. -/
def serverChange (before after : Option (List String)) (tags : List String) : ServerChange :=
  let former := before.getD []
  let later := after.getD []
  let unchanged := former.countP fun segment => later.contains segment
  { status := statusOf before.isSome after.isSome
    segmentsBefore := former.length
    segmentsAfter := later.length
    added := later.length - unchanged
    deleted := former.length - unchanged
    unchanged, tags }

def serverSummary (current target : Assignment) (servers : List Server) : ServerSummary :=
  let before := current.byServer
  let after := target.byServer
  let start : ServerSummary := { servers := ⟨before.size, after.size⟩ }
  let filled := (OrderedMap.ofKeys (before.keys ++ after.keys)).keys.foldl (fun summary server =>
    summary.take server
      (serverChange (before.get? server) (after.get? server) (tagsOf servers server))) start
  { filled with gainingCount := filled.gaining.size }

/-- The average size of the current segments whose size is known. The sizes of a table are taken to
add up to a word; the average is a signed one. -/
def averageBytes (current : Assignment) (segments : OrderedMap String Segment) : Int :=
  let sizes := current.keys.filterMap fun name => (segments.get? name).map Segment.sizeBytes
  if sizes.isEmpty then -1 else signedWord (total sizes / sizes.length)

/-- The totals of a table. The bytes to move are a number without bound: no table is taken to move as
many as a signed word cannot hold. -/
def segmentSummary (table : TableConfig) (current target : Assignment)
    (segments : OrderedMap String Segment) (servers : ServerSummary) : SegmentSummary :=
  let changes := servers.changes.values
  let moved := total (changes.map ServerChange.added)
  let average := averageBytes current segments
  { moved
    deleted := total (changes.map ServerChange.deleted)
    mostAddedToOneServer := (changes.map ServerChange.added).foldl max 0
    averageBytes := average
    bytesToMove := if average < 0 then -1 else average * moved
    replication := ⟨current.replication table.replication, target.replication table.replication⟩
    segments := ⟨current.size, target.size⟩
    replicas := ⟨current.replicaCount, target.replicaCount⟩
    consuming := none }

/-- One more server of a tag. -/
def TagSummary.count (summary : TagSummary) (change : ServerChange) : TagSummary :=
  { summary with
    toDownload := summary.toDownload + change.added
    unchanged := summary.unchanged + change.unchanged
    participants := summary.participants + 1 }

/-- The tags under which a server counts: those of the table, or that of outdated servers. -/
def countedTags (tableTags : NameSet) (tags : List String) : List String :=
  match tags.filter tableTags.contains with
  | [] => [outdatedTag]
  | relevant => relevant

/-- One entry for each tag of the table, and one for outdated servers when there are any. Servers
that will hold nothing do not count. -/
def tagSummaries (table : TableConfig) (servers : ServerSummary) : List TagSummary :=
  let start : OrderedMap String TagSummary := table.tags.map fun tag _ => { tag }
  let counted := servers.changes.values.filter fun change => change.segmentsAfter ≠ 0
  let final := counted.foldl (fun summaries change =>
    (countedTags table.tags change.tags).foldl (fun summaries tag =>
      summaries.insert tag (TagSummary.count ((summaries.get? tag).getD { tag }) change))
      summaries) start
  final.values

/-- The summary of a move, without the part on consuming segments. -/
def compute (table : TableConfig) (current target : Assignment) (servers : List Server)
    (segments : OrderedMap String Segment) : Summary :=
  let serverPart := serverSummary current target servers
  { servers := serverPart
    segments := segmentSummary table current target segments serverPart
    tags := tagSummaries table serverPart }

end Summary

end SegmentPlacement

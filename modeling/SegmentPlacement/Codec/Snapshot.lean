import SegmentPlacement.Codec.Cluster
import SegmentPlacement.Codec.Table
import SegmentPlacement.Json.Printer
import SegmentPlacement.Json.Reader

/-! The JSON form of a whole cluster, as it is kept in a file. -/

namespace SegmentPlacement.Codec

open Json

def ofTableState (state : TableState) : Json :=
  .obj [("config", ofTableConfig state.config), ("idealState", ofIdealState state.ideal),
    ("externalView", ofAssignment state.view), ("segments", ofMap ofSegment state.segments),
    ("streamOffsets", ofKeyedMap toString .int state.streamOffsets)]

def tableState? (value : Json) : Option TableState := do
  let members ← members? ["config", "idealState", "externalView", "segments", "streamOffsets"] value
  let config ← members.required "config" tableConfig?
  let ideal ← members.required "idealState" idealState?
  let view ← members.withDefault "externalView" assignment? {}
  let segments ← members.withDefault "segments" (map? segment?) {}
  let streamOffsets ← members.withDefault "streamOffsets" (numberedMap? 32 (signed? 64)) {}
  return { config, ideal, view, segments, streamOffsets }

def ofSnapshot (snapshot : Snapshot) : Json :=
  .obj [("instances", .arr (snapshot.servers.map ofServer)),
    ("tables", ofMap ofTableState snapshot.tables),
    ("instancePartitions", ofMap ofLayout snapshot.layouts),
    ("diskUsage", ofMap ofDiskUsage snapshot.diskUsage),
    ("needsReload", ofNameSet snapshot.needsReload)]

def snapshot? (value : Json) : Option Snapshot := do
  let members ← members? ["instances", "tables", "instancePartitions", "diskUsage",
    "needsReload"] value
  let servers ← members.withDefault "instances" (list? server?) []
  let tables ← members.withDefault "tables" (map? tableState?) {}
  let layouts ← members.withDefault "instancePartitions" (map? layout?) {}
  let diskUsage ← members.withDefault "diskUsage" (map? diskUsage?) {}
  let needsReload ← members.withDefault "needsReload" nameSet? {}
  return { servers, tables, layouts, diskUsage, needsReload }

/-- The snapshot in a file's text. -/
def readSnapshot? (text : String) : Option Snapshot := (Json.read? text).bind snapshot?

def snapshotText (snapshot : Snapshot) : String := (ofSnapshot snapshot).pretty

end SegmentPlacement.Codec

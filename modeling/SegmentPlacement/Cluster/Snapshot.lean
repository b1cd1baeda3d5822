import SegmentPlacement.Assignment
import SegmentPlacement.Layout.Basic
import SegmentPlacement.Segment
import SegmentPlacement.Server
import SegmentPlacement.Table

/-! Everything a cluster stores, as one value. -/

namespace SegmentPlacement

structure TableState where
  config : TableConfig
  ideal : IdealState
  view : Assignment := {}
  segments : OrderedMap String Segment := {}
  /-- The latest offset of each stream partition. -/
  streamOffsets : OrderedMap Nat Int := {}
  deriving DecidableEq

structure Snapshot where
  servers : List Server := []
  tables : OrderedMap String TableState := {}
  layouts : OrderedMap String Layout := {}
  diskUsage : OrderedMap String DiskUsage := {}
  /-- Servers that want a reload. -/
  needsReload : NameSet := {}
  deriving DecidableEq

end SegmentPlacement

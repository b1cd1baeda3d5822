import SegmentPlacement.Word

/-! Servers as they are registered, and the disk usage that they report. -/

namespace SegmentPlacement

structure Server where
  id : String
  tags : List String := []
  enabled : Bool := true
  pool : Nat := 0
  deriving DecidableEq, Repr

def Server.hasTag (server : Server) (tag : String) : Bool := server.tags.contains tag

structure DiskUsage where
  usedBytes : Nat
  capacityBytes : Nat
  lastUpdatedMs : Int
  deriving DecidableEq, Repr

/-- The used part of the capacity after `delta` more bytes. Bytes are counted in signed 64-bit
words and never fall below zero; a disk without capacity counts as full. -/
def DiskUsage.projected (usage : DiskUsage) (delta : Int) : Float :=
  if usage.capacityBytes = 0 then 1.0
  else
    let used := max (signedWord usage.usedBytes + delta) 0
    Float.ofNat used.toNat / Float.ofNat usage.capacityBytes

end SegmentPlacement

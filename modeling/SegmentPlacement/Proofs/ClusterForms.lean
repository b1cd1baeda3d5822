import SegmentPlacement.Codec.Cluster
import SegmentPlacement.Proofs.JsonForms

/-! The forms of servers, disk usage, layouts, segments and ideal states keep every
value whose numbers fit their words. Nothing else is asked of a value: a layout may
have any slots, and a name may be any text. -/

namespace SegmentPlacement

structure IdealState.Fits (state : IdealState) : Prop where
  version : state.version < wordCount 64

structure Server.Fits (server : Server) : Prop where
  pool : server.pool < wordCount 32

structure DiskUsage.Fits (usage : DiskUsage) : Prop where
  usedBytes : usage.usedBytes < wordCount 64
  capacityBytes : usage.capacityBytes < wordCount 64
  lastUpdatedMs : IsSignedWord usage.lastUpdatedMs

structure Layout.Fits (layout : Layout) : Prop where
  numPartitions : layout.numPartitions < wordCount 64
  numGroups : layout.numGroups < wordCount 64

/-- The numbers of a segment fit their words, as far as they are known. -/
structure Segment.Fits (segment : Segment) : Prop where
  partitionId : ∀ partition ∈ segment.partitionId, partition < wordCount 32
  startTimeMs : ∀ time ∈ segment.startTimeMs, IsSignedWord time
  endTimeMs : ∀ time ∈ segment.endTimeMs, IsSignedWord time
  creationTimeMs : IsSignedWord segment.creationTimeMs
  sizeBytes : segment.sizeBytes < wordCount 64
  totalDocs : segment.totalDocs < wordCount 64
  startOffset : ∀ offset ∈ segment.startOffset, IsSignedWord offset

namespace Codec
open Json

private theorem replicaState_kept : Keeps 0 ofReplicaState replicaState? fun _ => True :=
  Keeps.oneOf fun state => ⟨state.text, rfl, ReplicaState.ofText?_text state⟩

theorem assignment_kept : Keeps 2 ofAssignment assignment? fun _ => True :=
  (Keeps.map (Keeps.map replicaState_kept)).of_iff fun _ => by simp only [implies_true]

theorem idealState_kept : Keeps 3 ofIdealState idealState? IdealState.Fits where
  plain state fit :=
    .cons (.str _) <| .cons (Keeps.word64.within (by decide) fit.version) <|
    .cons (assignment_kept.plain _ trivial) .nil
  reads mark state faithful fit := by
    simp -implicitDefEqProofs [ofIdealState, idealState?, Keeps.str.reads mark _ faithful trivial,
      Keeps.word64.reads mark _ faithful fit.version, assignment_kept.reads mark _ faithful trivial]
  sound json state done := by
    simp only [idealState?, Option.bind_eq_bind, Option.bind_eq_some_iff, Option.pure_def,
      Option.some.injEq] at done
    obtain ⟨members, -, table, -, version, read, assignment, -, rfl⟩ := done
    exact ⟨Members.fits_of_required Keeps.word64 read⟩

theorem server_kept : Keeps 2 ofServer server? Server.Fits where
  plain server fit :=
    .cons (.str _) <| .cons (Keeps.strings.plain _ trivial) <| .cons (.bool _) <|
    .cons (Keeps.word32.within (by decide) fit.pool) .nil
  reads mark server faithful fit := by
    simp -implicitDefEqProofs [ofServer, server?, Keeps.str.reads mark _ faithful trivial,
      Keeps.strings.reads mark _ faithful trivial, Keeps.bool.reads mark _ faithful trivial,
      Keeps.word32.reads mark _ faithful fit.pool]
  sound json server done := by
    simp only [server?, Option.bind_eq_bind, Option.bind_eq_some_iff, Option.pure_def,
      Option.some.injEq] at done
    obtain ⟨members, -, id, -, tags, -, enabled, -, pool, read, rfl⟩ := done
    exact ⟨Members.fits_of_withDefault Keeps.word32 (by decide) read⟩

theorem diskUsage_kept : Keeps 1 ofDiskUsage diskUsage? DiskUsage.Fits where
  plain usage fit :=
    .cons (Keeps.word64.plain _ fit.usedBytes) <| .cons (Keeps.word64.plain _ fit.capacityBytes) <|
    .cons (Keeps.signed.plain _ fit.lastUpdatedMs) .nil
  reads mark usage faithful fit := by
    simp -implicitDefEqProofs [ofDiskUsage, diskUsage?,
      Keeps.word64.reads mark _ faithful fit.usedBytes,
      Keeps.word64.reads mark _ faithful fit.capacityBytes,
      Keeps.signed.reads mark _ faithful fit.lastUpdatedMs]
  sound json usage done := by
    simp only [diskUsage?, Option.bind_eq_bind, Option.bind_eq_some_iff, Option.pure_def,
      Option.some.injEq] at done
    obtain ⟨members, -, usedBytes, used, capacityBytes, capacity, lastUpdatedMs, time, rfl⟩ := done
    exact {
      usedBytes := Members.fits_of_required Keeps.word64 used
      capacityBytes := Members.fits_of_required Keeps.word64 capacity
      lastUpdatedMs := Members.fits_of_required Keeps.signed time }

private theorem slots_kept : Keeps 2 (ofMap ofStrings) (map? (list? str?)) fun _ => True :=
  (Keeps.map Keeps.strings).of_iff fun _ => by simp only [implies_true]

/-- A layout need not pass its checks to be kept. -/
theorem layout_kept : Keeps 3 ofLayout layout? Layout.Fits where
  plain layout fit :=
    .cons (.str _) <| .cons (Keeps.word64.within (by decide) fit.numPartitions) <|
    .cons (Keeps.word64.within (by decide) fit.numGroups) <|
    .cons (slots_kept.plain _ trivial) .nil
  reads mark layout faithful fit := by
    simp -implicitDefEqProofs [ofLayout, layout?, Keeps.str.reads mark _ faithful trivial,
      Keeps.word64.reads mark _ faithful fit.numPartitions,
      Keeps.word64.reads mark _ faithful fit.numGroups, slots_kept.reads mark _ faithful trivial]
  sound json layout done := by
    simp only [layout?, Option.bind_eq_bind, Option.bind_eq_some_iff, Option.pure_def,
      Option.some.injEq] at done
    obtain ⟨members, -, name, -, numPartitions, partitions, numGroups, groups, slots, -, rfl⟩ := done
    exact {
      numPartitions := Members.fits_of_required Keeps.word64 partitions
      numGroups := Members.fits_of_required Keeps.word64 groups }

private theorem segmentStatus_kept : Keeps 0 ofSegmentStatus segmentStatus? fun _ => True :=
  Keeps.oneOf fun status => by cases status <;> exact ⟨_, rfl, rfl⟩

/-- Times and offsets that are missing are written as nulls, and those that are there fit their
words. -/
theorem segment_kept : Keeps 1 ofSegment segment? Segment.Fits where
  plain segment fit :=
    .cons (.str _) <| .cons (Keeps.maybeWord32.plain _ fit.partitionId) <|
    .cons (Keeps.maybeSigned.plain _ fit.startTimeMs) <|
    .cons (Keeps.maybeSigned.plain _ fit.endTimeMs) <|
    .cons (Keeps.signed.plain _ fit.creationTimeMs) <|
    .cons (Keeps.word64.plain _ fit.sizeBytes) <| .cons (Keeps.word64.plain _ fit.totalDocs) <|
    .cons (segmentStatus_kept.plain _ trivial) <|
    .cons (Keeps.maybeSigned.plain _ fit.startOffset) <| .cons (Keeps.maybeStr.plain _ trivial) .nil
  reads mark segment faithful fit := by
    simp -implicitDefEqProofs [ofSegment, segment?, Members.optional,
      Keeps.str.reads mark _ faithful trivial, Keeps.maybeStr.reads mark _ faithful trivial,
      Keeps.maybeWord32.reads mark _ faithful fit.partitionId,
      Keeps.maybeSigned.reads mark _ faithful fit.startTimeMs,
      Keeps.maybeSigned.reads mark _ faithful fit.endTimeMs,
      Keeps.signed.reads mark _ faithful fit.creationTimeMs,
      Keeps.word64.reads mark _ faithful fit.sizeBytes,
      Keeps.word64.reads mark _ faithful fit.totalDocs,
      segmentStatus_kept.reads mark _ faithful trivial,
      Keeps.maybeSigned.reads mark _ faithful fit.startOffset]
  sound json segment done := by
    simp only [segment?, Option.bind_eq_bind, Option.bind_eq_some_iff, Option.some.injEq] at done
    obtain ⟨members, -, name, -, partitionId, partition, startTimeMs, started, endTimeMs, ended,
      creationTimeMs, created, sizeBytes, size, totalDocs, docs, status, -, startOffset, offset,
      targetTier, -, rfl⟩ := done
    exact {
      partitionId := Members.fits_of_optional Keeps.maybeWord32 partition
      startTimeMs := Members.fits_of_optional Keeps.maybeSigned started
      endTimeMs := Members.fits_of_optional Keeps.maybeSigned ended
      creationTimeMs := Members.fits_of_withDefault Keeps.signed (by decide) created
      sizeBytes := Members.fits_of_withDefault Keeps.word64 (by decide) size
      totalDocs := Members.fits_of_withDefault Keeps.word64 (by decide) docs
      startOffset := Members.fits_of_optional Keeps.maybeSigned offset }

end Codec

end SegmentPlacement

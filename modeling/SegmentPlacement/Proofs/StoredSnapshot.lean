import SegmentPlacement.Codec.Snapshot
import SegmentPlacement.Proofs.ClusterForms
import SegmentPlacement.Proofs.TableForms

/-! The stored form of a cluster keeps the whole cluster. What a program wrote is read
back as it was, as a value and as the text of a file, and every snapshot that was read
from anywhere is one that is kept. -/

namespace SegmentPlacement

structure TableState.Fits (state : TableState) : Prop where
  config : state.config.Fits
  ideal : state.ideal.Fits
  segments : ∀ name segment, state.segments.get? name = some segment → segment.Fits
  streamOffsets : ∀ partition offset, state.streamOffsets.get? partition = some offset →
    partition < wordCount 32 ∧ IsSignedWord offset

/-- The numbers of a snapshot fit their words. -/
structure Snapshot.Fits (snapshot : Snapshot) : Prop where
  servers : ∀ server ∈ snapshot.servers, server.Fits
  tables : ∀ name state, snapshot.tables.get? name = some state → state.Fits
  layouts : ∀ name layout, snapshot.layouts.get? name = some layout → layout.Fits
  diskUsage : ∀ server usage, snapshot.diskUsage.get? server = some usage → usage.Fits

namespace Codec
open Json

private theorem segments_kept : Keeps 2 (ofMap ofSegment) (map? segment?) fun segments =>
    ∀ name segment, segments.get? name = some segment → segment.Fits :=
  Keeps.map segment_kept

private theorem streamOffsets_kept :
    Keeps 1 (ofKeyedMap toString .int) (numberedMap? 32 (signed? 64)) fun offsets =>
      ∀ partition offset, offsets.get? partition = some offset →
        partition < wordCount 32 ∧ IsSignedWord offset :=
  Keeps.numberedMap Keeps.signed

private theorem tableState_kept : Keeps 6 ofTableState tableState? TableState.Fits where
  plain state fit :=
    .cons (tableConfig_kept.plain _ fit.config) <|
    .cons (idealState_kept.within (by decide) fit.ideal) <|
    .cons (assignment_kept.within (by decide) trivial) <|
    .cons (segments_kept.within (by decide) fit.segments) <|
    .cons (streamOffsets_kept.within (by decide) fit.streamOffsets) .nil
  reads mark state faithful fit := by
    simp -implicitDefEqProofs [ofTableState, tableState?,
      tableConfig_kept.reads mark _ faithful fit.config,
      idealState_kept.reads mark _ faithful fit.ideal,
      assignment_kept.reads mark _ faithful trivial,
      segments_kept.reads mark _ faithful fit.segments,
      streamOffsets_kept.reads mark _ faithful fit.streamOffsets]
  sound json state done := by
    simp only [tableState?, Option.bind_eq_bind, Option.bind_eq_some_iff, Option.pure_def,
      Option.some.injEq] at done
    obtain ⟨members, -, config, configured, ideal, stored, view, -, segments, known, offsets,
      latest, rfl⟩ := done
    exact {
      config := Members.fits_of_required tableConfig_kept configured
      ideal := Members.fits_of_required idealState_kept stored
      segments := Members.fits_of_map segments_kept known
      streamOffsets := Members.fits_of_map streamOffsets_kept latest }

private theorem servers_kept :
    Keeps 3 (fun servers => .arr (servers.map ofServer)) (list? server?) fun servers =>
      ∀ server ∈ servers, server.Fits :=
  Keeps.list server_kept

private theorem tables_kept : Keeps 7 (ofMap ofTableState) (map? tableState?) fun tables =>
    ∀ name state, tables.get? name = some state → state.Fits :=
  Keeps.map tableState_kept

private theorem namedLayouts_kept : Keeps 4 (ofMap ofLayout) (map? layout?) fun layouts =>
    ∀ name layout, layouts.get? name = some layout → layout.Fits :=
  Keeps.map layout_kept

private theorem diskUsages_kept : Keeps 2 (ofMap ofDiskUsage) (map? diskUsage?) fun usages =>
    ∀ server usage, usages.get? server = some usage → usage.Fits :=
  Keeps.map diskUsage_kept

private theorem snapshot_kept : Keeps 8 ofSnapshot snapshot? Snapshot.Fits where
  plain snapshot fit :=
    .cons (servers_kept.within (by decide) fit.servers) <|
    .cons (tables_kept.plain _ fit.tables) <|
    .cons (namedLayouts_kept.within (by decide) fit.layouts) <|
    .cons (diskUsages_kept.within (by decide) fit.diskUsage) <|
    .cons (Keeps.nameSet.within (by decide) trivial) .nil
  reads mark snapshot faithful fit := by
    simp -implicitDefEqProofs [ofSnapshot, snapshot?,
      servers_kept.reads mark snapshot.servers faithful fit.servers,
      tables_kept.reads mark _ faithful fit.tables,
      namedLayouts_kept.reads mark _ faithful fit.layouts,
      diskUsages_kept.reads mark _ faithful fit.diskUsage,
      Keeps.nameSet.reads mark _ faithful trivial]
  sound json snapshot done := by
    simp only [snapshot?, Option.bind_eq_bind, Option.bind_eq_some_iff, Option.pure_def,
      Option.some.injEq] at done
    obtain ⟨members, -, servers, listed, tables, stored, layouts, named, diskUsage, used,
      needsReload, -, rfl⟩ := done
    exact {
      servers := Members.fits_of_withDefault servers_kept (List.forall_mem_nil _) listed
      tables := Members.fits_of_map tables_kept stored
      layouts := Members.fits_of_map namedLayouts_kept named
      diskUsage := Members.fits_of_map diskUsages_kept used }

/-- Every snapshot whose numbers fit their words comes back from its form and from its text, and
only such snapshots are ever read, from whatever value or text. -/
theorem snapshots_read_back :
    (∀ snapshot : Snapshot, snapshot.Fits →
      snapshot? (ofSnapshot snapshot) = some snapshot ∧
        readSnapshot? (snapshotText snapshot) = some snapshot) ∧
    (∀ json snapshot, snapshot? json = some snapshot →
      snapshot.Fits ∧ snapshot? (ofSnapshot snapshot) = some snapshot ∧
        readSnapshot? (snapshotText snapshot) = some snapshot) ∧
    ∀ text snapshot, readSnapshot? text = some snapshot →
      readSnapshot? (snapshotText snapshot) = some snapshot := by
  have kept : ∀ snapshot : Snapshot, snapshot.Fits →
      snapshot? (ofSnapshot snapshot) = some snapshot ∧
        readSnapshot? (snapshotText snapshot) = some snapshot := fun snapshot fit =>
    ⟨snapshot_kept.decode_encode fit, snapshot_kept.decode_text (by decide) fit⟩
  refine ⟨kept, fun json snapshot done => ?_, fun text snapshot done => ?_⟩
  · have fit := snapshot_kept.sound json snapshot done
    exact ⟨fit, kept snapshot fit⟩
  · obtain ⟨json, _, done⟩ := Option.bind_eq_some_iff.mp done
    exact (kept snapshot (snapshot_kept.sound json snapshot done)).2

/-- A consuming table with tiers of both rules, numbers at the ends of their words, and names that
are written with escapes. -/
def extremeTable : TableState where
  config :=
    { TableConfig.realtime "clicks \"raw\"" 3 "hot\n" 2 with
      layouts := OrderedMap.ofList [(.completed, LayoutSettings.grouped "hot" 2 1)]
      tiers := [{ name := "aged", rule := .time "7d", serverTag := "cold" },
        { name := "pinned", rule := .fixed ["s\t0"], serverTag := "" }] }
  ideal :=
    { table := "clicks \"raw\"_REALTIME", version := 18446744073709551615
      assignment := OrderedMap.ofList [("s\t0", Replicas.uniform ["server_0"] .consuming)] }
  segments := OrderedMap.ofList [("s\t0",
    { name := "s\t0", partitionId := some 4294967295, endTimeMs := some (-9223372036854775808)
      status := .inProgress, startOffset := some 9223372036854775807 })]
  streamOffsets := OrderedMap.ofList [(4294967295, -1)]

def extremeSnapshot : Snapshot where
  servers := [{ id := "server_0", tags := ["hot\n"], pool := 4294967295 }]
  tables := OrderedMap.ofList [("clicks \"raw\"_REALTIME", extremeTable)]
  layouts := OrderedMap.ofList [("flat", ⟨"flat", 1, 1, {}⟩)]
  diskUsage := OrderedMap.ofList [("server_0", ⟨0, 18446744073709551615, 0⟩)]
  needsReload := OrderedMap.ofKeys ["server_0"]

private theorem extremeTable_fits : extremeTable.Fits where
  config := {
    replication := by decide
    layouts := OrderedMap.forall_get?_iff.mpr <| List.forall_mem_singleton.mpr
      { numGroups := by decide, serversPerGroup := by decide
        numPartitions := by decide, serversPerPartition := by decide }
    streamPartitions := by decide }
  ideal := ⟨by decide⟩
  segments := OrderedMap.forall_get?_iff.mpr <| List.forall_mem_singleton.mpr
    { partitionId := by decide, startTimeMs := nofun, endTimeMs := by decide
      creationTimeMs := by decide, sizeBytes := by decide, totalDocs := by decide
      startOffset := by decide }
  streamOffsets := OrderedMap.forall_get?_iff.mpr <| List.forall_mem_singleton.mpr (by decide)

private theorem extremeSnapshot_fits : extremeSnapshot.Fits where
  servers := List.forall_mem_singleton.mpr ⟨by decide⟩
  tables := OrderedMap.forall_get?_iff.mpr <| List.forall_mem_singleton.mpr extremeTable_fits
  layouts := OrderedMap.forall_get?_iff.mpr <| List.forall_mem_singleton.mpr
    { numPartitions := by decide, numGroups := by decide }
  diskUsage := OrderedMap.forall_get?_iff.mpr <| List.forall_mem_singleton.mpr
    { usedBytes := by decide, capacityBytes := by decide, lastUpdatedMs := by decide }

/-- A snapshot that another program wrote, most of it left out. -/
def sparseText : String := "\x7b \"needsReload\": [\"b\", \"a\", \"b\"], \"note\": 0.5 \x7d"

theorem snapshots_read_back_from_text :
    (extremeSnapshot.Fits ∧ snapshot? (ofSnapshot extremeSnapshot) = some extremeSnapshot ∧
      readSnapshot? (snapshotText extremeSnapshot) = some extremeSnapshot) ∧
    (snapshot? (.arr []) = some {} ∧ snapshot? (ofSnapshot {}) = some {}) ∧
    (readSnapshot? sparseText = some { needsReload := OrderedMap.ofKeys ["a", "b"] } ∧
      readSnapshot? (snapshotText { needsReload := OrderedMap.ofKeys ["a", "b"] }) =
        some { needsReload := OrderedMap.ofKeys ["a", "b"] }) := by
  have empty : snapshot? (.arr []) = some {} := by decide +kernel
  have sparse : readSnapshot? sparseText = some { needsReload := OrderedMap.ofKeys ["a", "b"] } := by
    decide +kernel
  exact ⟨⟨extremeSnapshot_fits, snapshots_read_back.1 extremeSnapshot extremeSnapshot_fits⟩,
    ⟨empty, (snapshots_read_back.2.1 _ _ empty).2.1⟩,
    ⟨sparse, snapshots_read_back.2.2 _ _ sparse⟩⟩

end Codec

end SegmentPlacement

import SegmentPlacement.Codec.Table
import SegmentPlacement.Proofs.JsonForms

/-! The form of a table configuration keeps every configuration whose numbers fit their
words. The words for kinds and rules are told apart, and a tier's rule is led by its
type.

The proofs that a record is read give no steps by unfolding, which would compare the
numbers themselves with the bounds of their words. -/

namespace SegmentPlacement

structure GroupSettings.Fits (settings : GroupSettings) : Prop where
  numGroups : settings.numGroups < wordCount 64
  serversPerGroup : settings.serversPerGroup < wordCount 64
  numPartitions : settings.numPartitions < wordCount 64
  serversPerPartition : settings.serversPerPartition < wordCount 64

private theorem GroupSettings.fits_default : ({} : GroupSettings).Fits := by
  constructor <;> decide

/-- The numbers of a configuration and of its layouts fit their words. -/
structure TableConfig.Fits (table : TableConfig) : Prop where
  replication : table.replication < wordCount 64
  layouts : ∀ kind settings, table.layouts.get? kind = some settings → settings.groups.Fits
  streamPartitions : ∀ count ∈ table.streamPartitions, count < wordCount 64

namespace Codec
open Json

private theorem tableKind_kept : Keeps 0 ofTableKind tableKind? fun _ => True :=
  Keeps.oneOf fun kind => by cases kind <;> exact ⟨_, rfl, rfl⟩

private theorem partitionRule_kept : Keeps 0 ofPartitionRule partitionRule? fun _ => True :=
  Keeps.oneOf fun rule => by cases rule <;> exact ⟨_, rfl, rfl⟩

private theorem groupSettings_kept : Keeps 1 ofGroupSettings groupSettings? GroupSettings.Fits where
  plain settings fit :=
    .cons (.bool _) <| .cons (Keeps.word64.plain _ fit.numGroups) <|
    .cons (Keeps.word64.plain _ fit.serversPerGroup) <|
    .cons (Keeps.word64.plain _ fit.numPartitions) <|
    .cons (Keeps.word64.plain _ fit.serversPerPartition) <|
    .cons (Keeps.maybeStr.plain _ trivial) <| .cons (.bool _) .nil
  reads mark settings faithful fit := by
    simp -implicitDefEqProofs [ofGroupSettings, groupSettings?, Members.optional,
      Keeps.bool.reads mark _ faithful trivial, Keeps.maybeStr.reads mark _ faithful trivial,
      Keeps.word64.reads mark _ faithful fit.numGroups,
      Keeps.word64.reads mark _ faithful fit.serversPerGroup,
      Keeps.word64.reads mark _ faithful fit.numPartitions,
      Keeps.word64.reads mark _ faithful fit.serversPerPartition]
  sound json settings done := by
    simp only [groupSettings?, Option.bind_eq_bind, Option.bind_eq_some_iff, Option.some.injEq]
      at done
    obtain ⟨members, -, groupBased, -, numGroups, groups, serversPerGroup, inGroup, numPartitions,
      partitions, serversPerPartition, inPartition, partitionColumn, -, allowReuse, -, rfl⟩ := done
    exact {
      numGroups := Members.fits_of_withDefault Keeps.word64 (by decide) groups
      serversPerGroup := Members.fits_of_withDefault Keeps.word64 (by decide) inGroup
      numPartitions := Members.fits_of_withDefault Keeps.word64 (by decide) partitions
      serversPerPartition := Members.fits_of_withDefault Keeps.word64 (by decide) inPartition }

private theorem layoutSettings_kept :
    Keeps 2 ofLayoutSettings layoutSettings? fun settings => settings.groups.Fits where
  plain settings fit :=
    .cons (.str _) <| .cons (groupSettings_kept.plain _ fit) <| .cons (.bool _) <|
    .cons (partitionRule_kept.within (by decide) trivial) .nil
  reads mark settings faithful fit := by
    simp -implicitDefEqProofs [ofLayoutSettings, layoutSettings?,
      Keeps.str.reads mark _ faithful trivial, Keeps.bool.reads mark _ faithful trivial,
      groupSettings_kept.reads mark _ faithful fit, partitionRule_kept.reads mark _ faithful trivial]
  sound json settings done := by
    simp only [layoutSettings?, Option.bind_eq_bind, Option.bind_eq_some_iff, Option.pure_def,
      Option.some.injEq] at done
    obtain ⟨members, -, tag, -, groups, within, minimizeMovement, -, partitionRule, -, rfl⟩ := done
    exact Members.fits_of_withDefault groupSettings_kept GroupSettings.fits_default within

private theorem plain_ofTierRule (rule : TierRule) : Plain 2 (ofTierRule rule) := by
  cases rule with
  | time segmentAge => exact .cons (.str _) <| .cons (.str _) .nil
  | fixed segments => exact .cons (.str _) <| .cons (Keeps.strings.plain segments trivial) .nil

/-- The type of a rule comes first, so it is found whatever the other members are. -/
theorem tierRule_kept : Keeps 2 ofTierRule tierRule? fun _ => True where
  plain rule _ := plain_ofTierRule rule
  reads mark rule faithful _ := by
    have sound := (plain_ofTierRule rule).isSound_marked mark
    cases rule with
    | time segmentAge =>
      simp only [ofTierRule, marked_obj, List.map] at sound ⊢
      rw [tierRule?, marked_str, tagged?_of_first (by simp) _ sound]
      simp [Keeps.str.reads mark _ faithful trivial]
    | fixed segments =>
      simp only [ofTierRule, marked_obj, List.map] at sound ⊢
      rw [tierRule?, marked_str, tagged?_of_first (by simp) _ sound]
      simp [Keeps.strings.reads mark _ faithful trivial]
  sound _ _ _ := trivial

private theorem tierConfig_kept : Keeps 3 ofTierConfig tierConfig? fun _ => True where
  plain tier _ :=
    .cons (.str _) <| .cons (tierRule_kept.plain _ trivial) <| .cons (.str _) .nil
  reads mark tier faithful _ := by
    simp -implicitDefEqProofs [ofTierConfig, tierConfig?, Keeps.str.reads mark _ faithful trivial,
      tierRule_kept.reads mark _ faithful trivial]
  sound _ _ _ := trivial

private theorem routingFlags_kept : Keeps 1 ofRoutingFlags routingFlags? fun _ => True where
  plain flags _ := .cons (.bool _) <| .cons (.bool _) .nil
  reads mark flags faithful _ := by
    simp -implicitDefEqProofs [ofRoutingFlags, routingFlags?,
      Keeps.bool.reads mark _ faithful trivial]
  sound _ _ _ := trivial

private theorem tiers_kept :
    Keeps 4 (fun tiers => .arr (tiers.map ofTierConfig)) (list? tierConfig?) fun _ => True :=
  (Keeps.list tierConfig_kept).of_iff fun _ => by simp only [implies_true]

private theorem layouts_kept :
    Keeps 3 (ofKeyedMap LayoutKind.text ofLayoutSettings)
      (keyedMap? LayoutKind.ofText? layoutSettings?) fun layouts =>
        ∀ kind settings, layouts.get? kind = some settings → settings.groups.Fits := by
  have keyed : Keeps 3 (ofKeyedMap LayoutKind.text ofLayoutSettings)
      (keyedMap? LayoutKind.ofText? layoutSettings?) fun layouts =>
        ∀ kind settings, layouts.get? kind = some settings → True ∧ settings.groups.Fits :=
    layoutSettings_kept.keyedMap (fun kind _ => by cases kind <;> rfl) fun _ _ _ => trivial
  exact keyed.of_iff fun _ => by simp only [true_and]

/-- Nothing is asked of a configuration but that its numbers fit: it need not pass its checks. -/
theorem tableConfig_kept : Keeps 5 ofTableConfig tableConfig? TableConfig.Fits where
  plain table fit :=
    .cons (.str _) <| .cons (tableKind_kept.within (by decide) trivial) <|
    .cons (Keeps.word64.within (by decide) fit.replication) <| .cons (.str _) <|
    .cons (layouts_kept.within (by decide) fit.layouts) <|
    .cons (tiers_kept.plain table.tiers trivial) <|
    .cons (routingFlags_kept.within (by decide) trivial) <| .cons (.bool _) <|
    .cons (Keeps.maybeWord64.within (by decide) fit.streamPartitions) .nil
  reads mark table faithful fit := by
    simp -implicitDefEqProofs [ofTableConfig, tableConfig?, Members.optional,
      Keeps.str.reads mark _ faithful trivial, Keeps.bool.reads mark _ faithful trivial,
      tableKind_kept.reads mark _ faithful trivial,
      Keeps.word64.reads mark _ faithful fit.replication,
      layouts_kept.reads mark _ faithful fit.layouts,
      tiers_kept.reads mark table.tiers faithful trivial,
      routingFlags_kept.reads mark _ faithful trivial,
      Keeps.maybeWord64.reads mark _ faithful fit.streamPartitions]
  sound json table done := by
    simp only [tableConfig?, Option.bind_eq_bind, Option.bind_eq_some_iff, Option.some.injEq]
      at done
    obtain ⟨members, -, name, -, kind, -, replication, replicas, serverTag, -, layouts, within,
      tiers, -, routing, -, pauseless, -, streamPartitions, partitions, rfl⟩ := done
    exact {
      replication := Members.fits_of_required Keeps.word64 replicas
      layouts := Members.fits_of_map layouts_kept within
      streamPartitions := Members.fits_of_optional Keeps.maybeWord64 partitions }

end Codec

end SegmentPlacement

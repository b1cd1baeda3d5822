import SegmentPlacement.Proofs.PlacedTarget

/-! Targets with tiers, segment by segment. The tier that takes a completed segment
is recorded for it, and its servers are those of the first tier of that name. All
other segments are placed by their kind. -/

namespace SegmentPlacement

/-- A slot of the layout lists the server. -/
def Layout.Lists (layout : Layout) (server : String) : Prop :=
  ∃ partition < layout.numPartitions, ∃ group < layout.numGroups,
    server ∈ (layout.servers? partition group).getD []

/-- The segment has replicas, and only on servers of the layout. -/
def Target.PlacedOn (result : Target) (name : String) (layout : Layout) : Prop :=
  ∃ placed, result.assignment.get? name = some placed ∧
    ∀ server, placed.contains server = true → layout.Lists server

namespace TableConfig
open SegmentPlacement.Balanced

variable {table : TableConfig} {segments : OrderedMap String Segment} {layouts : Layouts}
  {tiers : List TierLayout} {options : PlacementOptions} {prior : Assignment}
  {layout : Layout} {members : List Member} {placed : List (String × List String)}

private theorem placePartition_lists (valid : layout.Valid) {partition : Nat}
    (known : partition < layout.numPartitions)
    (done : table.placePartition layout prior partition members = .ok placed) :
    ∀ entry ∈ placed, ∀ server ∈ entry.2, layout.Lists server := by
  obtain ⟨lists, read, same⟩ := bind_eq_ok_iff.mp done
  cases same
  obtain ⟨_, positive⟩ := Layout.headD_pos_of_partitionLists valid known read
  obtain ⟨_, below⟩ := table.alignedIndices_spec layout positive members prior
  obtain ⟨rfl, lengths⟩ := Layout.partitionLists_eq_ok read
  intro entry inside server member
  obtain ⟨index, chosen, same⟩ := List.mem_map.mp (List.of_mem_zip inside).2
  rw [← same] at member
  obtain ⟨list, listed, rfl⟩ := List.mem_map.mp member
  obtain ⟨group, within, found, _⟩ := Layout.mem_listsOf valid known listed
  refine ⟨partition, known, group, within, ?_⟩
  rw [found]
  exact getD_mem ((below index chosen).trans_eq (lengths list listed).symm)

private theorem placeMembers_lists (done : table.placeMembers layout prior members = .ok placed) :
    ∀ entry ∈ placed, ∀ server ∈ entry.2, layout.Lists server := by
  obtain ⟨_, checked, done⟩ := bind_eq_ok_iff.mp done
  have valid := Layout.validate_iff.mp checked
  intro entry inside server member
  split at done
  · obtain ⟨_, enough, same⟩ := bind_eq_ok_iff.mp done
    cases same
    obtain ⟨last, balanced, _, same⟩ := place_spec (members.map Member.name) prior
      (checkReplication_eq_ok_iff.mp enough)
    rw [same] at inside
    obtain ⟨kept, taken, servers⟩ := mem_named inside
    rw [servers] at member
    exact ⟨0, valid.partitions, 0, valid.groups,
      namesAt_subset (balanced.tally.inside kept taken) member⟩
  · obtain ⟨parts, steps, same⟩ := bind_eq_ok_iff.mp done
    cases same
    obtain ⟨part, listed, within⟩ := List.mem_flatten.mp inside
    obtain ⟨partition, resident, here⟩ := exists_of_mem_mapM steps listed
    obtain ⟨other, _, rfl⟩ := mem_partitions.mp resident
    exact placePartition_lists valid (Nat.mod_lt other.partition valid.partitions) here
      entry within server member

/-- A segment that has a home is placed on servers of the layout of its home. -/
theorem placedOn_home {result : Target} {name : String} {replicas : Replicas} {home : Home}
    (done : table.target segments layouts tiers prior options = .ok result)
    (listed : prior.get? name = some replicas)
    (belongs : (table.member segments layouts tiers options name replicas).home = some home) :
    ∃ layout, table.homeLayout layouts tiers home = .ok layout ∧ result.PlacedOn name layout := by
  obtain ⟨parts, placing⟩ := placing_of_target done
  obtain ⟨part, within, here, servers, inside⟩ := placing.complete listed belongs
  have stored := placing.get?_assignment listed belongs
    (List.mem_flatten.mpr ⟨part, within, inside⟩)
  unfold placeHome at here
  split at here
  · cases here
    cases inside
  · obtain ⟨layout, found, placed⟩ := bind_eq_ok_iff.mp here
    refine ⟨layout, found, _, stored, fun server holds => ?_⟩
    rw [Replicas.contains_uniform] at holds
    exact placeMembers_lists placed _ inside server holds

/-- The tier that takes a completed segment of which something is known, with its layout. -/
def takenBy? (table : TableConfig) (segments : OrderedMap String Segment) (tiers : List TierLayout)
    (options : PlacementOptions) (name : String) (replicas : Replicas) : Option TierLayout := do
  if table.isConsumingSegment (segments.get? name) replicas then none
  else
    let segment ← segments.get? name
    tiers.find? fun other => other.tier.takes segment options.now

variable {name : String} {replicas : Replicas} {chosen : TierLayout}

theorem map_takenBy? : (table.takenBy? segments tiers options name replicas).map TierLayout.tier =
    if table.isConsumingSegment (segments.get? name) replicas then none
    else (segments.get? name).bind fun segment =>
      Tier.select? (tiers.map TierLayout.tier) segment options.now := by
  unfold takenBy?
  split
  · rfl
  · simp only [Option.bind_eq_bind, Option.map_bind, Tier.select?, List.find?_map]
    rfl

private theorem tierFor_eq_bind :
    tierFor tiers (segments.get? name) (table.isConsumingSegment (segments.get? name) replicas)
        options.now =
      (table.takenBy? segments tiers options name replicas).bind fun chosen =>
        tiers.findIdx? fun other => other.tier.config.name == chosen.tier.config.name := by
  let place (selected : Tier) : Option Nat :=
    tiers.findIdx? fun other => other.tier.config.name == selected.config.name
  change _ = (table.takenBy? segments tiers options name replicas).bind (place ∘ TierLayout.tier)
  rw [← Option.bind_map, map_takenBy?, tierFor]
  split
  · rfl
  · exact (Option.bind_assoc ..).symm

theorem home_of_untaken (untaken : table.takenBy? segments tiers options name replicas = none)
    (layouts : Layouts) :
    (table.member segments layouts tiers options name replicas).home =
      if Freezes options (table.isConsumingSegment (segments.get? name) replicas) then none
      else some (.kind (table.kindFor (table.isConsumingSegment (segments.get? name) replicas)
        layouts)) := by
  have none := tierFor_eq_bind.trans (congrArg (Option.bind · _) untaken)
  simp only [member, none]
  rfl

theorem completed_of_taken
    (taken : table.takenBy? segments tiers options name replicas = some chosen) :
    table.isConsumingSegment (segments.get? name) replicas = false ∧ chosen ∈ tiers := by
  unfold takenBy? at taken
  split at taken
  · cases taken
  · rename_i completed
    obtain ⟨segment, _, found⟩ := Option.bind_eq_some_iff.mp taken
    exact ⟨Bool.not_eq_true _ ▸ completed, List.mem_of_find?_eq_some found⟩

theorem home_of_taken (taken : table.takenBy? segments tiers options name replicas = some chosen) :
    ∃ position first, (∀ layouts, (table.member segments layouts tiers options name replicas).home =
        some (.tier position)) ∧ tiers[position]? = some first ∧
      tiers.find? (fun other => other.tier.config.name == chosen.tier.config.name) = some first := by
  obtain ⟨completed, listed⟩ := completed_of_taken taken
  obtain ⟨position, found⟩ : ∃ position, tiers.findIdx?
      (fun other => other.tier.config.name == chosen.tier.config.name) = some position := by
    rw [← Option.isSome_iff_exists, List.findIdx?_isSome, List.any_eq_true]
    exact ⟨chosen, listed, beq_self_eq_true _⟩
  have tier := tierFor_eq_bind.trans (congrArg (Option.bind · _) taken)
  rw [Option.bind_some, found] at tier
  obtain ⟨inside, named, earlier⟩ := List.findIdx?_eq_some_iff_getElem.mp found
  refine ⟨position, tiers[position], ?_, List.getElem?_eq_getElem inside, ?_⟩
  · intro layouts
    simp only [member, tier]
    exact if_neg fun frozen => absurd frozen.1 (Bool.eq_false_iff.mp completed)
  · refine List.find?_eq_some_iff_getElem.mpr ⟨named, position, inside, rfl, fun other before => ?_⟩
    rw [Bool.not_eq_true']
    exact Bool.not_eq_true _ ▸ earlier other before

private theorem name_of_recorded {member : Member} {entry : String × String}
    (kept : recorded tiers member = some entry) : entry.1 = member.name := by
  unfold recorded at kept
  split at kept
  · obtain ⟨_, _, rfl⟩ := Option.map_eq_some_iff.mp kept
    rfl
  · cases kept

theorem get?_segmentTiers {result : Target}
    (done : table.target segments layouts tiers prior options = .ok result)
    (listed : prior.get? name = some replicas) :
    result.segmentTiers.get? name =
      (recorded tiers (table.member segments layouts tiers options name replicas)).map Prod.snd := by
  have inside : table.member segments layouts tiers options name replicas ∈
      table.members segments layouts tiers options prior :=
    List.mem_map_of_mem (OrderedMap.get?_eq_some_iff.mp listed)
  have names := nodup_members table segments layouts tiers options prior
  rw [segmentTiers_eq done]
  cases kept : recorded tiers (table.member segments layouts tiers options name replicas) with
  | some entry =>
    have distinct : (((table.members segments layouts tiers options prior).filterMap
        (recorded tiers)).map Prod.fst).Nodup := by
      rw [List.Nodup, List.pairwise_map, List.pairwise_filterMap]
      refine (List.pairwise_map.mp names).imp fun apart first here second there same => ?_
      exact apart (name_of_recorded here ▸ name_of_recorded there ▸ same)
    obtain ⟨other, tier⟩ := entry
    obtain rfl : other = name := name_of_recorded kept
    exact OrderedMap.get?_insertAll_of_mem distinct (List.mem_filterMap.mpr ⟨_, inside, kept⟩)
  | none =>
    refine OrderedMap.get?_insertAll_of_not_mem fun entered => ?_
    obtain ⟨entry, there, same⟩ := List.mem_map.mp entered
    obtain ⟨other, within, held⟩ := List.mem_filterMap.mp there
    have equal := List.inj_on_of_nodup_map names within inside
      ((name_of_recorded held).symm.trans same)
    rw [equal, kept] at held
    cases held

/-- A completed segment of which something is known is placed by the first tier of the name of the
tier that takes it, and recorded under that name; with distinct names that is the very tier that
takes it. All others are recorded under none and, unless frozen, placed by their kind. -/
theorem placed_by_tiers {result : Target}
    (done : table.target segments layouts tiers prior options = .ok result)
    (listed : prior.get? name = some replicas) :
    (∀ chosen, table.takenBy? segments tiers options name replicas = some chosen →
      result.segmentTiers.get? name = some chosen.tier.config.name ∧
      ∃ first, tiers.find? (fun other => other.tier.config.name == chosen.tier.config.name) =
          some first ∧ result.PlacedOn name first.layout ∧
        ((tiers.map fun other => other.tier.config.name).Nodup → first = chosen)) ∧
    (table.takenBy? segments tiers options name replicas = none →
      result.segmentTiers.get? name = none ∧
      (¬ Freezes options (table.isConsumingSegment (segments.get? name) replicas) →
        ∃ layout, layouts.get? (table.kindFor (table.isConsumingSegment (segments.get? name) replicas)
          layouts) = some layout ∧ result.PlacedOn name layout)) := by
  rw [get?_segmentTiers done listed]
  constructor
  · intro chosen taken
    obtain ⟨position, first, home, found, named⟩ := home_of_taken taken
    have belongs := home layouts
    obtain ⟨layout, held, placed⟩ := placedOn_home done listed belongs
    have same : first.tier.config.name = chosen.tier.config.name := by
      simpa using List.find?_some named
    simp only [homeLayout, found] at held
    cases held
    refine ⟨?_, first, named, placed, fun distinct => ?_⟩
    · simp only [recorded, belongs, found, Option.map_some, same]
    · exact List.inj_on_of_nodup_map distinct (List.mem_of_find?_eq_some named)
        (completed_of_taken taken).2 same
  · intro untaken
    have home := home_of_untaken untaken layouts
    by_cases frozen : Freezes options (table.isConsumingSegment (segments.get? name) replicas)
    · rw [if_pos frozen] at home
      exact ⟨by simp only [recorded, home, Option.map_none], fun free => absurd frozen free⟩
    · rw [if_neg frozen] at home
      refine ⟨by simp only [recorded, home, Option.map_none], fun _ => ?_⟩
      obtain ⟨layout, held, placed⟩ := placedOn_home done listed home
      exact ⟨layout, get?_of_layoutFor held, placed⟩

/-- A tier for segments of an age, on one server. -/
def agedTier (name age : String) (seconds : Nat) (server : String) : TierLayout :=
  { tier := { config := { name, rule := .time age, serverTag := server }, age := some seconds }
    layout :=
      { name, numPartitions := 1, numGroups := 1, slots := .ofList [("0_0", [server])] } }

def monthTier (name : String) : TierLayout := agedTier name "30d" 2592000 "a"

def weekTier (name : String) : TierLayout := agedTier name "7d" 604800 "b"

def agedTable (tiers : List TierLayout) : TableConfig :=
  { TableConfig.offline "t" 1 "T" with tiers := tiers.map fun found => found.tier.config }

/-- One segment, which ended ten days before the time of placement. -/
def agedSegments : OrderedMap String Segment := .ofList [("s", { name := "s", endTimeMs := some 0 })]

def agedOptions : PlacementOptions := { now := 864000000 }

def agedPrior : Assignment := .ofList [("s", .uniform ["d"] .online)]

def agedTarget (server tier : String) : Target :=
  { assignment := .ofList [("s", .uniform [server] .online)]
    segmentTiers := .ofList [("s", tier)] }

theorem aged_placed_by_week :
    let tiers := [monthTier "month", weekTier "week"]
    ∃ result, (agedTable tiers).target agedSegments {} tiers agedPrior agedOptions = .ok result ∧
      result.segmentTiers.get? "s" = some "week" ∧ result.PlacedOn "s" (weekTier "week").layout := by
  intro tiers
  have done : (agedTable tiers).target agedSegments {} tiers agedPrior agedOptions =
      .ok (agedTarget "b" "week") := by decide +kernel
  have taken : (agedTable tiers).takenBy? agedSegments tiers agedOptions "s"
      (.uniform ["d"] .online) = some (weekTier "week") := by decide +kernel
  have listed : agedPrior.get? "s" = some (.uniform ["d"] .online) := by decide +kernel
  obtain ⟨recorded, first, _, placed, unique⟩ := (placed_by_tiers done listed).1 _ taken
  exact ⟨_, done, recorded, unique (by decide +kernel) ▸ placed⟩

private theorem sort_agedTable (month week : String) :
    Tier.sort (agedTable [monthTier month, weekTier week]).tiers =
      .ok ([monthTier month, weekTier week].map TierLayout.tier) := by
  refine bind_eq_ok_iff.mpr ⟨[(monthTier month).tier, (weekTier week).tier], rfl, ?_⟩
  exact congrArg Except.ok (List.mergeSort_of_pairwise (by simp [Tier.precedes, monthTier, weekTier,
    agedTier]))

/-- Of two tiers that are both named "cold" the first one gets the segments of the second. -/
theorem not_all_placed_by_own_tier :
    ¬ ∀ (table : TableConfig) (segments : OrderedMap String Segment) (layouts : Layouts)
      (tiers : List TierLayout) (prior : Assignment) (options : PlacementOptions) (result : Target)
      (name : String) (replicas : Replicas) (chosen : TierLayout),
      table.validate = .ok () → Tier.sort table.tiers = .ok (tiers.map TierLayout.tier) →
      table.target segments layouts tiers prior options = .ok result →
      prior.get? name = some replicas →
      table.takenBy? segments tiers options name replicas = some chosen →
      result.PlacedOn name chosen.layout := by
  intro own
  let tiers := [monthTier "cold", weekTier "cold"]
  obtain ⟨placed, found, within⟩ := own (agedTable tiers) agedSegments {} tiers agedPrior agedOptions
    (agedTarget "a" "cold") "s" (.uniform ["d"] .online) (weekTier "cold") (by decide +kernel)
    (sort_agedTable ..) (by decide +kernel) (by decide +kernel) (by decide +kernel)
  have stored : (agedTarget "a" "cold").assignment.get? "s" = some (.uniform ["a"] .online) := by
    decide +kernel
  obtain rfl := Option.some.inj (stored.symm.trans found)
  obtain ⟨partition, first, group, only, listed⟩ := within "a" (by decide +kernel)
  obtain rfl : partition = 0 := Nat.lt_one_iff.mp first
  obtain rfl : group = 0 := Nat.lt_one_iff.mp only
  exact absurd listed (by decide +kernel)

end TableConfig

end SegmentPlacement

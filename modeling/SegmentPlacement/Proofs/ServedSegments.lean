import SegmentPlacement.Proofs.SegmentPlacers

/-! A target serves every segment. None is left out and none is added: frozen
segments stay as they are, and every other one has replicas on servers of the
layout that places it. -/

namespace SegmentPlacement

/-- Replicas that a layout may give to a segment: there are some, only on servers of the layout, and
all of them in the state in which such a segment starts. -/
structure Layout.Hosts (layout : Layout) (consuming : Bool) (replicas : Replicas) : Prop where
  some : replicas.keys ≠ []
  listed : ∀ server ∈ replicas.keys, layout.Lists server
  started : ∀ server state, replicas.get? server = .some state → state = placedState consuming

private theorem Layout.hosts_uniform {layout : Layout} {servers : List String} (some : servers ≠ [])
    (listed : ∀ server ∈ servers, layout.Lists server) (consuming : Bool) :
    layout.Hosts consuming (.uniform servers (placedState consuming)) := by
  have members : ∀ server,
      server ∈ (Replicas.uniform servers (placedState consuming)).keys ↔ server ∈ servers :=
    fun server => by rw [← OrderedMap.contains_iff, Replicas.contains_uniform]
  refine ⟨?_, fun server member => listed server ((members server).mp member), ?_⟩
  · obtain ⟨server, member⟩ := List.exists_mem_of_ne_nil servers some
    exact List.ne_nil_of_mem ((members server).mpr member)
  · intro server state found
    rw [Replicas.get?_uniform] at found
    split at found
    · exact (Option.some.inj found).symm
    · cases found

namespace TableConfig

variable {table : TableConfig} {segments : OrderedMap String Segment} {layouts : Layouts}
  {tiers : List TierLayout} {options : PlacementOptions} {prior : Assignment} {name : String}
  {replicas : Replicas} {placer : Placer} {result : Target}

private theorem served_placer (replicated : 0 < table.replication)
    (done : table.target segments layouts tiers prior options = .ok result)
    (listed : prior.get? name = some replicas)
    (found : table.placer? segments layouts tiers options name replicas = some placer) :
    ∃ layout placed, placer.layout? layouts = some layout ∧
      result.assignment.get? name = some placed ∧
      layout.Hosts (table.isConsumingSegment (segments.get? name) replicas) placed := by
  obtain ⟨layout, held, placed, stored, within⟩ := placedOn_placer done listed found
  obtain ⟨home, belongs, _⟩ := home_of_placer found
  obtain ⟨parts, placing⟩ := placing_of_target done
  obtain ⟨servers, inside, some⟩ := placing.listed replicated listed belongs
  obtain rfl := Option.some.inj
    (stored.symm.trans (placing.get?_assignment listed belongs inside))
  exact ⟨layout, _, held, stored, Layout.hosts_uniform some
    (fun server member => within server (Replicas.contains_uniform.mpr member)) _⟩

/-- A target has the segments of the prior assignment and no others. Those that are frozen keep
their replicas, and every other one is served by the layout that places it. -/
theorem target_serves_all (table : TableConfig) (segments : OrderedMap String Segment)
    (layouts : Layouts) (tiers : List TierLayout) (options : PlacementOptions) (prior : Assignment)
    (result : Target) (replicated : 1 ≤ table.replication)
    (done : table.target segments layouts tiers prior options = .ok result) :
    result.assignment.keys = prior.keys ∧
    ∀ name replicas, prior.get? name = some replicas →
      let consuming := table.isConsumingSegment (segments.get? name) replicas
      (Freezes options consuming → result.assignment.get? name = some replicas) ∧
      (¬ Freezes options consuming → ∃ placer layout placed,
        table.placer? segments layouts tiers options name replicas = some placer ∧
        placer.layout? layouts = some layout ∧ result.assignment.get? name = some placed ∧
        layout.Hosts consuming placed) := by
  refine ⟨keys_target done, ?_⟩
  intro name replicas listed consuming
  constructor
  · intro frozen
    exact get?_target_of_unplaced done listed (placer?_eq_none_iff.mpr frozen)
  · intro free
    obtain ⟨placer, found⟩ := Option.ne_none_iff_exists'.mp fun none =>
      free (placer?_eq_none_iff.mp none)
    obtain ⟨layout, placed, held, stored, hosts⟩ := served_placer replicated done listed found
    exact ⟨placer, layout, placed, found, held, stored, hosts⟩

def streamTable : TableConfig :=
  { TableConfig.realtime "events" 1 "T" 1 with tiers := [(weekTier "week").tier.config] }

def streamLayout : Layout :=
  { name := "events_CONSUMING", numPartitions := 1, numGroups := 1
    slots := .ofList [("0_0", ["a", "c"])] }

def streamLayouts : Layouts := .ofList [(.consuming, streamLayout)]

/-- Nothing is known of the third segment. -/
def streamSegments : OrderedMap String Segment := .ofList
  [("filling", { name := "filling", status := .inProgress }),
    ("aged", { name := "aged", endTimeMs := some 0 })]

def streamPrior : Assignment := .ofList
  [("filling", .uniform ["gone"] .consuming), ("aged", .uniform ["gone"] .online),
    ("unknown", .uniform ["gone"] .online)]

def streamTarget : Target :=
  { assignment := .ofList
      [("filling", .uniform ["gone"] .consuming), ("aged", .uniform ["b"] .online),
        ("unknown", .uniform ["a"] .online)]
    segmentTiers := .ofList [("aged", "week")] }

/-- The server of all three is gone, and only the segment that is still filled stays on it. -/
theorem stream_served : 1 ≤ streamTable.replication ∧
    streamTable.target streamSegments streamLayouts [weekTier "week"] streamPrior agedOptions =
      .ok streamTarget ∧
    streamTarget.assignment.get? "filling" = some (.uniform ["gone"] .consuming) ∧
    (∃ placed, streamTarget.assignment.get? "aged" = some placed ∧
      (weekTier "week").layout.Hosts false placed) ∧
    ∃ placed, streamTarget.assignment.get? "unknown" = some placed ∧
      streamLayout.Hosts false placed := by
  have done : streamTable.target streamSegments streamLayouts [weekTier "week"] streamPrior
      agedOptions = .ok streamTarget := by decide +kernel
  obtain ⟨_, each⟩ := target_serves_all streamTable streamSegments streamLayouts [weekTier "week"]
    agedOptions streamPrior streamTarget (by decide) done
  refine ⟨by decide, done, ?_, ?_, ?_⟩
  · exact (each "filling" (.uniform ["gone"] .consuming) (by decide +kernel)).1 (by decide +kernel)
  · obtain ⟨placer, layout, placed, found, held, stored, hosts⟩ :=
      (each "aged" (.uniform ["gone"] .online) (by decide +kernel)).2 (by decide +kernel)
    have tier : streamTable.placer? streamSegments streamLayouts [weekTier "week"] agedOptions "aged"
        (.uniform ["gone"] .online) = some (.byTier (weekTier "week")) := by decide +kernel
    obtain rfl := Option.some.inj (tier.symm.trans found)
    obtain rfl := Option.some.inj held
    exact ⟨placed, stored, hosts⟩
  · obtain ⟨placer, layout, placed, found, held, stored, hosts⟩ :=
      (each "unknown" (.uniform ["gone"] .online) (by decide +kernel)).2 (by decide +kernel)
    have kind : streamTable.placer? streamSegments streamLayouts [weekTier "week"] agedOptions
        "unknown" (.uniform ["gone"] .online) = some (.byKind .consuming) := by decide +kernel
    obtain rfl := Option.some.inj (kind.symm.trans found)
    have own : streamLayouts.get? .consuming = some streamLayout := by decide +kernel
    obtain rfl := Option.some.inj (own.symm.trans held)
    exact ⟨placed, stored, hosts⟩

end TableConfig

end SegmentPlacement

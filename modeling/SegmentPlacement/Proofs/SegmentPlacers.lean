import SegmentPlacement.Proofs.TieredTarget

/-! What places a segment: the first tier of the name of the tier that takes it, or
the layout of its kind. A frozen segment is placed by nothing and keeps its
replicas. -/

namespace SegmentPlacement

inductive Placer where
  | byKind (kind : LayoutKind)
  | byTier (found : TierLayout)
  deriving DecidableEq

namespace Placer

def layout? (layouts : Layouts) : Placer → Option Layout
  | .byKind kind => layouts.get? kind
  | .byTier found => some found.layout

/-- The tier that is recorded for what is placed so. -/
def tierName? : Placer → Option String
  | .byKind _ => none
  | .byTier found => some found.tier.config.name

/-- The tag of the servers that it places on. -/
def tag (table : TableConfig) : Placer → String
  | .byKind kind => table.tagFor kind
  | .byTier found => found.tier.config.serverTag

/-- The home of a segment is this placer. -/
inductive Houses (tiers : List TierLayout) : Placer → Home → Prop where
  | kind (kind : LayoutKind) : Houses tiers (.byKind kind) (.kind kind)
  | tier {position : Nat} {found : TierLayout} (listed : tiers[position]? = some found) :
      Houses tiers (.byTier found) (.tier position)

end Placer

/-- A segment is placed on servers of the layout of its placer; without one it stays as it was. -/
def Target.Follows (result : Target) (layouts : Layouts) (name : String) (replicas : Replicas) :
    Option Placer → Prop
  | some placer => ∃ layout, placer.layout? layouts = some layout ∧ result.PlacedOn name layout
  | none => result.assignment.get? name = some replicas

namespace TableConfig

variable {table : TableConfig} {segments : OrderedMap String Segment} {layouts : Layouts}
  {tiers : List TierLayout} {options : PlacementOptions} {prior : Assignment} {name : String}
  {replicas : Replicas} {chosen : TierLayout} {placer : Placer} {result : Target}

def placer? (table : TableConfig) (segments : OrderedMap String Segment) (layouts : Layouts)
    (tiers : List TierLayout) (options : PlacementOptions) (name : String) (replicas : Replicas) :
    Option Placer :=
  let consuming := table.isConsumingSegment (segments.get? name) replicas
  if Freezes options consuming then none
  else match table.takenBy? segments tiers options name replicas with
    | some chosen =>
      (tiers.find? fun other => other.tier.config.name == chosen.tier.config.name).map .byTier
    | none => some (.byKind (table.kindFor consuming layouts))

private theorem not_freezes_of_taken
    (taken : table.takenBy? segments tiers options name replicas = some chosen) :
    ¬ Freezes options (table.isConsumingSegment (segments.get? name) replicas) := by
  rw [(completed_of_taken taken).1]
  exact fun frozen => Bool.false_ne_true frozen.1

theorem placer?_of_taken (taken : table.takenBy? segments tiers options name replicas = some chosen)
    (layouts : Layouts) :
    table.placer? segments layouts tiers options name replicas =
      (tiers.find? fun other => other.tier.config.name == chosen.tier.config.name).map .byTier := by
  simp only [placer?, if_neg (not_freezes_of_taken taken), taken]

theorem placer?_of_untaken (untaken : table.takenBy? segments tiers options name replicas = none)
    (free : ¬ Freezes options (table.isConsumingSegment (segments.get? name) replicas))
    (layouts : Layouts) :
    table.placer? segments layouts tiers options name replicas =
      some (.byKind (table.kindFor (table.isConsumingSegment (segments.get? name) replicas)
        layouts)) := by
  simp only [placer?, if_neg free, untaken]

private theorem placer?_of_taken_distinct
    (distinct : (tiers.map fun other => other.tier.config.name).Nodup)
    (taken : table.takenBy? segments tiers options name replicas = some chosen)
    (layouts : Layouts) :
    table.placer? segments layouts tiers options name replicas = some (.byTier chosen) := by
  obtain ⟨_, first, _, _, named⟩ := home_of_taken taken
  have same : first.tier.config.name = chosen.tier.config.name := by
    simpa using List.find?_some named
  obtain rfl := List.inj_on_of_nodup_map distinct (List.mem_of_find?_eq_some named)
    (completed_of_taken taken).2 same
  rw [placer?_of_taken taken, named, Option.map_some]

private theorem placer?_cases (table : TableConfig) (segments : OrderedMap String Segment)
    (layouts : Layouts) (tiers : List TierLayout) (options : PlacementOptions) (name : String)
    (replicas : Replicas) :
    (table.placer? segments layouts tiers options name replicas = none ∧
      Freezes options (table.isConsumingSegment (segments.get? name) replicas) ∧
      (table.member segments layouts tiers options name replicas).home = none) ∨
    ∃ placer home, table.placer? segments layouts tiers options name replicas = some placer ∧
      ¬ Freezes options (table.isConsumingSegment (segments.get? name) replicas) ∧
      (table.member segments layouts tiers options name replicas).home = some home ∧
      placer.Houses tiers home := by
  cases taken : table.takenBy? segments tiers options name replicas with
  | some chosen =>
    obtain ⟨position, first, home, found, named⟩ := home_of_taken taken
    refine Or.inr ⟨.byTier first, .tier position, ?_, not_freezes_of_taken taken, home layouts,
      .tier found⟩
    rw [placer?_of_taken taken, named, Option.map_some]
  | none =>
    have home := home_of_untaken taken layouts
    by_cases frozen : Freezes options (table.isConsumingSegment (segments.get? name) replicas)
    · rw [if_pos frozen] at home
      exact Or.inl ⟨by simp only [placer?, if_pos frozen], frozen, home⟩
    · rw [if_neg frozen] at home
      exact Or.inr ⟨_, _, placer?_of_untaken taken frozen layouts, frozen, home, .kind _⟩

theorem placer?_eq_none_iff : table.placer? segments layouts tiers options name replicas = none ↔
    Freezes options (table.isConsumingSegment (segments.get? name) replicas) := by
  rcases table.placer?_cases segments layouts tiers options name replicas with
    ⟨none, frozen, _⟩ | ⟨placer, _, found, free, _⟩
  · exact iff_of_true none frozen
  · exact iff_of_false (by rw [found]; exact nofun) free

theorem home_of_placer
    (found : table.placer? segments layouts tiers options name replicas = some placer) :
    ∃ home, (table.member segments layouts tiers options name replicas).home = some home ∧
      placer.Houses tiers home := by
  rcases table.placer?_cases segments layouts tiers options name replicas with
    ⟨none, _⟩ | ⟨_, home, same, _, belongs, houses⟩
  · rw [found] at none
    cases none
  · obtain rfl := Option.some.inj (found.symm.trans same)
    exact ⟨home, belongs, houses⟩

/-- The tag of the tier that takes a segment, or else of the kind that places it. -/
def placingTag (table : TableConfig) (segments : OrderedMap String Segment) (layouts : Layouts)
    (tiers : List TierLayout) (options : PlacementOptions) (name : String) (replicas : Replicas) :
    String :=
  match table.takenBy? segments tiers options name replicas with
  | some chosen => chosen.tier.config.serverTag
  | none =>
    table.tagFor (table.kindFor (table.isConsumingSegment (segments.get? name) replicas) layouts)

theorem exists_placer (distinct : (tiers.map fun other => other.tier.config.name).Nodup)
    (layouts : Layouts)
    (free : ¬ Freezes options (table.isConsumingSegment (segments.get? name) replicas)) :
    ∃ placer, table.placer? segments layouts tiers options name replicas = some placer ∧
      placer.tag table = table.placingTag segments layouts tiers options name replicas := by
  unfold placingTag
  cases taken : table.takenBy? segments tiers options name replicas with
  | some chosen => exact ⟨_, placer?_of_taken_distinct distinct taken layouts, rfl⟩
  | none => exact ⟨_, placer?_of_untaken taken free layouts, rfl⟩

theorem mem_tiers_of_placer {found : TierLayout}
    (placed : table.placer? segments layouts tiers options name replicas = some (.byTier found)) :
    found ∈ tiers := by
  obtain ⟨_, _, houses⟩ := home_of_placer placed
  cases houses with
  | tier listed => exact List.mem_of_getElem? listed

theorem layout?_of_houses {home : Home} {layout : Layout} (houses : placer.Houses tiers home)
    (held : table.homeLayout layouts tiers home = .ok layout) :
    placer.layout? layouts = some layout := by
  cases houses with
  | kind kind => exact get?_of_layoutFor held
  | tier listed =>
    simp only [homeLayout, listed] at held
    cases held
    rfl

/-- What is placed is placed on servers of the layout of its placer. -/
theorem placedOn_placer (done : table.target segments layouts tiers prior options = .ok result)
    (listed : prior.get? name = some replicas)
    (found : table.placer? segments layouts tiers options name replicas = some placer) :
    ∃ layout, placer.layout? layouts = some layout ∧ result.PlacedOn name layout := by
  obtain ⟨home, belongs, houses⟩ := home_of_placer found
  obtain ⟨layout, held, placed⟩ := placedOn_home done listed belongs
  exact ⟨layout, layout?_of_houses houses held, placed⟩

theorem get?_target_of_unplaced
    (done : table.target segments layouts tiers prior options = .ok result)
    (listed : prior.get? name = some replicas)
    (none : table.placer? segments layouts tiers options name replicas = none) :
    result.assignment.get? name = some replicas := by
  obtain ⟨parts, _, assigned⟩ := target_eq_ok done
  rcases table.placer?_cases segments layouts tiers options name replicas with
    ⟨_, _, homeless⟩ | ⟨_, _, found, _⟩
  · rw [assigned, OrderedMap.get?_map, listed, Option.map_some,
      placedReplicas_of_homeless homeless]
  · rw [none] at found
    cases found

theorem follows_placer (done : table.target segments layouts tiers prior options = .ok result)
    (listed : prior.get? name = some replicas) :
    result.Follows layouts name replicas
      (table.placer? segments layouts tiers options name replicas) := by
  cases found : table.placer? segments layouts tiers options name replicas with
  | some placer => exact placedOn_placer done listed found
  | none => exact get?_target_of_unplaced done listed found

/-- A target records the tier of what is placed by one, and nothing for anything else. -/
theorem segmentTiers_of_placer
    (done : table.target segments layouts tiers prior options = .ok result)
    (listed : prior.get? name = some replicas) :
    result.segmentTiers.get? name =
      (table.placer? segments layouts tiers options name replicas).bind Placer.tierName? := by
  rw [get?_segmentTiers done listed]
  rcases table.placer?_cases segments layouts tiers options name replicas with
    ⟨none, _, homeless⟩ | ⟨placer, home, found, _, belongs, houses⟩
  · simp only [none, recorded, homeless, Option.map_none, Option.bind_none]
  · rw [found, Option.bind_some]
    cases houses with
    | kind kind => simp only [recorded, belongs, Option.map_none, Placer.tierName?]
    | tier listed => simp only [recorded, belongs, listed, Option.map_some, Placer.tierName?]

end TableConfig

end SegmentPlacement

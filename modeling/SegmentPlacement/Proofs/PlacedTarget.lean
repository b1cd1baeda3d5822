import SegmentPlacement.Proofs.SettledTarget

/-! Targets without tiers, segment by segment. The layout of its kind places every
segment, unless it is frozen, in the state that goes with it. -/

namespace SegmentPlacement

/-- The placed segments are among the listed ones, each on servers that are right for it. -/
def Places (right : Member → List String → Prop) (members : List Member)
    (placed : List (String × List String)) : Prop :=
  ∀ entry ∈ placed, ∃ member ∈ members, member.name = entry.1 ∧ right member entry.2

namespace Places

variable {right : Member → List String → Prop} {members : List Member}

theorem map {servers : Member → List String}
    (each : ∀ member ∈ members, right member (servers member)) :
    Places right members (members.map fun member => (member.name, servers member)) := by
  intro entry inside
  obtain ⟨member, listed, rfl⟩ := List.mem_map.mp inside
  exact ⟨member, listed, rfl, each member listed⟩

theorem flatten {parts : List (List (String × List String))}
    (each : ∀ part ∈ parts, Places right members part) : Places right members parts.flatten := by
  intro entry inside
  obtain ⟨part, listed, within⟩ := List.mem_flatten.mp inside
  exact each part listed entry within

theorem mono {part : List Member} {placed : List (String × List String)} (within : part ⊆ members)
    (places : Places right part placed) : Places right members placed := by
  intro entry inside
  obtain ⟨member, listed, named, suits⟩ := places entry inside
  exact ⟨member, within listed, named, suits⟩

end Places

namespace TableConfig

variable {table : TableConfig} {segments : OrderedMap String Segment} {layouts : Layouts}
  {options : PlacementOptions} {prior : Assignment}

/-- A consuming segment stays where it is, unless it is to move as well or all is placed anew. -/
def Freezes (options : PlacementOptions) (consuming : Bool) : Prop :=
  consuming = true ∧ ¬ options.includeConsuming = true ∧ ¬ options.bootstrap = true

instance decidableFreezes (options : PlacementOptions) (consuming : Bool) :
    Decidable (Freezes options consuming) :=
  inferInstanceAs (Decidable (_ ∧ _ ∧ _))

private theorem tierFor_nil (segment : Option Segment) (consuming : Bool) (now : Int) :
    tierFor [] segment consuming now = none := by
  unfold tierFor
  split
  · rfl
  · cases segment <;> rfl

/-- The layout of a kind is what places a segment. -/
structure PlacedBy (table : TableConfig) (segments : OrderedMap String Segment) (layouts : Layouts)
    (options : PlacementOptions) (prior : Assignment) (kind : LayoutKind) (name : String)
    (replicas : Replicas) : Prop where
  listed : prior.get? name = some replicas
  free : ¬ Freezes options (table.isConsumingSegment (segments.get? name) replicas)
  kind : table.kindFor (table.isConsumingSegment (segments.get? name) replicas) layouts = kind

variable {name : String} {replicas : Replicas} {kind : LayoutKind}

private theorem home_untiered : (table.member segments layouts [] options name replicas).home =
    if Freezes options (table.isConsumingSegment (segments.get? name) replicas) then none
    else some (.kind (table.kindFor (table.isConsumingSegment (segments.get? name) replicas)
      layouts)) := by
  simp only [member, tierFor_nil]
  rfl

theorem home_eq_none_iff : (table.member segments layouts [] options name replicas).home = none ↔
    Freezes options (table.isConsumingSegment (segments.get? name) replicas) := by
  rw [home_untiered]
  split <;> simp_all

theorem placedBy_iff (found : prior.get? name = some replicas) :
    table.PlacedBy segments layouts options prior kind name replicas ↔
      (table.member segments layouts [] options name replicas).home = some (.kind kind) := by
  rw [home_untiered]
  constructor
  · intro placed
    rw [if_neg placed.free, placed.kind]
  · intro belongs
    split at belongs
    · cases belongs
    · rename_i free
      cases belongs
      exact ⟨found, free, rfl⟩

def ofKind (table : TableConfig) (segments : OrderedMap String Segment) (layouts : Layouts)
    (options : PlacementOptions) (prior : Assignment) (kind : LayoutKind) : List Member :=
  residents (table.members segments layouts [] options prior) (.kind kind)

theorem mem_ofKind_iff {member : Member} :
    member ∈ table.ofKind segments layouts options prior kind ↔
      ∃ name replicas, table.PlacedBy segments layouts options prior kind name replicas ∧
        table.member segments layouts [] options name replicas = member := by
  rw [ofKind, residents, List.mem_filter, members, List.mem_map]
  constructor
  · rintro ⟨⟨⟨name, replicas⟩, stored, rfl⟩, belongs⟩
    have found := OrderedMap.get?_eq_some_iff.mpr stored
    exact ⟨name, replicas, (placedBy_iff found).mpr (of_decide_eq_true belongs), rfl⟩
  · rintro ⟨name, replicas, placed, rfl⟩
    exact ⟨⟨(name, replicas), OrderedMap.get?_eq_some_iff.mp placed.listed, rfl⟩,
      decide_eq_true ((placedBy_iff placed.listed).mp placed)⟩

theorem PlacedBy.ofKind_ne_nil
    (placed : table.PlacedBy segments layouts options prior kind name replicas) :
    table.ofKind segments layouts options prior kind ≠ [] :=
  List.ne_nil_of_mem (mem_ofKind_iff.mpr ⟨name, replicas, placed, rfl⟩)

theorem placeHome_kind_eq_ok_iff {baseline : Assignment} {part : List (String × List String)}
    (filled : table.ofKind segments layouts options prior kind ≠ []) :
    table.placeHome layouts [] baseline (table.members segments layouts [] options prior)
        (.kind kind) = .ok part ↔
      ∃ layout, layouts.get? kind = some layout ∧
        table.placeMembers layout baseline (table.ofKind segments layouts options prior kind) =
          .ok part := by
  unfold placeHome
  split
  · rename_i none
    exact absurd none filled
  · simp only [homeLayout, layoutFor]
    cases layouts.get? kind with
    | none =>
      constructor
      · intro done
        cases done
      · rintro ⟨_, found, _⟩
        cases found
    | some layout =>
      rw [bind_eq_ok_iff]
      constructor
      · rintro ⟨_, checked, placed⟩
        obtain ⟨_, _, same⟩ := bind_eq_ok_iff.mp checked
        cases same
        exact ⟨layout, rfl, placed⟩
      · rintro ⟨_, same, placed⟩
        cases same
        obtain ⟨_, checked, _⟩ := bind_eq_ok_iff.mp placed
        exact ⟨layout, bind_eq_ok_iff.mpr ⟨(), checked, rfl⟩, placed⟩

theorem mem_allHomes_nil {home : Home} : home ∈ allHomes [] ↔ ∃ kind, .kind kind = home := by
  simp only [allHomes, List.length_nil, List.range_zero, List.map_nil, List.append_nil,
    List.mem_map]
  refine exists_congr fun kind => and_iff_right ?_
  cases kind <;> decide

/-- Without tiers there is a target if every kind that has segments has a layout that places
them. -/
theorem exists_target (placed : ∀ kind name replicas,
      table.PlacedBy segments layouts options prior kind name replicas →
      ∃ layout part, layouts.get? kind = some layout ∧
        table.placeMembers layout (if options.bootstrap then {} else prior)
          (table.ofKind segments layouts options prior kind) = .ok part) :
    ∃ result, table.target segments layouts [] prior options = .ok result := by
  have homes : ∀ home ∈ allHomes [], ∃ part, table.placeHome layouts []
      (if options.bootstrap then {} else prior)
      (table.members segments layouts [] options prior) home = .ok part ∧ True := by
    intro home listed
    obtain ⟨kind, rfl⟩ := mem_allHomes_nil.mp listed
    by_cases none : table.ofKind segments layouts options prior kind = []
    · refine ⟨[], ?_, trivial⟩
      unfold placeHome
      rw [← ofKind, none]
    · obtain ⟨member, resident⟩ := List.exists_mem_of_ne_nil _ none
      obtain ⟨name, replicas, within, _⟩ := mem_ofKind_iff.mp resident
      obtain ⟨layout, part, found, done⟩ := placed kind name replicas within
      exact ⟨part, (placeHome_kind_eq_ok_iff none).mpr ⟨layout, found, done⟩, trivial⟩
  obtain ⟨parts, steps, _⟩ := exists_mapM homes
  obtain ⟨result, done, _⟩ := target_eq_ok_of_placed steps
  exact ⟨result, done⟩

/-- A segment is where the layout of its kind places it. -/
theorem get?_target_of_placedBy {result : Target}
    (done : table.target segments layouts [] prior options = .ok result)
    (placed : table.PlacedBy segments layouts options prior kind name replicas) :
    ∃ layout part, layouts.get? kind = some layout ∧
      table.placeMembers layout (if options.bootstrap then {} else prior)
        (table.ofKind segments layouts options prior kind) = .ok part ∧
      ∀ right, Places right (table.ofKind segments layouts options prior kind) part →
        ∃ servers, right (table.member segments layouts [] options name replicas) servers ∧
          result.assignment.get? name = some (.uniform servers
            (placedState (table.member segments layouts [] options name replicas).consuming)) := by
  obtain ⟨parts, placing⟩ := placing_of_target done
  have belongs := (placedBy_iff placed.listed).mp placed
  obtain ⟨part, listed, here, servers, inside⟩ := placing.complete placed.listed belongs
  obtain ⟨layout, found, chosen⟩ := (placeHome_kind_eq_ok_iff placed.ofKind_ne_nil).mp here
  refine ⟨layout, part, found, chosen, fun right places => ⟨servers, ?_, ?_⟩⟩
  · obtain ⟨member, resident, named, suits⟩ := places _ inside
    obtain ⟨other, others, elsewhere, rfl⟩ := mem_ofKind_iff.mp resident
    obtain rfl : other = name := named
    obtain rfl := Option.some.inj (elsewhere.listed.symm.trans placed.listed)
    exact suits
  · exact placing.get?_assignment placed.listed belongs
      (List.mem_flatten.mpr ⟨part, listed, inside⟩)

theorem get?_target_of_freezes {result : Target}
    (done : table.target segments layouts [] prior options = .ok result)
    (found : prior.get? name = some replicas)
    (frozen : Freezes options (table.isConsumingSegment (segments.get? name) replicas)) :
    result.assignment.get? name = some replicas := by
  obtain ⟨parts, _, assigned⟩ := target_eq_ok done
  rw [assigned, OrderedMap.get?_map, found]
  exact congrArg some (placedReplicas_of_homeless (home_eq_none_iff.mpr frozen) replicas)

theorem segmentTiers_untiered {result : Target}
    (done : table.target segments layouts [] prior options = .ok result) :
    result.segmentTiers = {} := by
  rw [segmentTiers_eq done]
  refine congrArg OrderedMap.ofList (List.filterMap_eq_nil_iff.mpr fun member _ => ?_)
  unfold recorded
  split <;> rfl

end TableConfig

end SegmentPlacement

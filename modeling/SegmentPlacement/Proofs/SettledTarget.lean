import SegmentPlacement.Proofs.SettledPlacement
import SegmentPlacement.Proofs.StoreContents

/-! The target of a target is the target. Once every segment is where the target
puts it, every segment still belongs where it belonged, and its layout places it
where it is. The tiers that are recorded with the segments play no part in this. -/

namespace SegmentPlacement

theorem Segment.eq_of_untiered {first second : Segment} (same : first.untiered = second.untiered) :
    first = { second with targetTier := first.targetTier } := by
  cases first
  cases second
  simp only [untiered, Segment.mk.injEq] at same ⊢
  tauto

/-- The same segments, whatever tiers were recorded for them. -/
def SameButTiers (first second : OrderedMap String Segment) : Prop :=
  ∀ name, (first.get? name).map Segment.untiered = (second.get? name).map Segment.untiered

private theorem Replicas.isConsuming_uniform {servers : List String} (some : servers ≠ [])
    (consuming : Bool) :
    (Replicas.uniform servers (placedState consuming)).isConsuming = consuming := by
  have only : ∀ state, state ∈ (Replicas.uniform servers (placedState consuming)).values ↔
      state = placedState consuming := fun state => by
    rw [Replicas.mem_values_uniform, and_iff_left some]
  rw [Replicas.isConsuming, Bool.eq_iff_iff, Bool.and_eq_true, Bool.not_eq_true',
    ← Bool.not_eq_true, List.contains_iff_mem, List.contains_iff_mem, only, only]
  cases consuming <;> simp [placedState]

namespace TableConfig
open SegmentPlacement.Balanced

variable {table : TableConfig} {segments later : OrderedMap String Segment} {layouts : Layouts}
  {tiers : List TierLayout} {options : PlacementOptions} {prior : Assignment}

private theorem tierFor_untiered {first second : Segment} (same : first.untiered = second.untiered)
    (consuming : Bool) (now : Int) :
    tierFor tiers (some first) consuming now = tierFor tiers (some second) consuming now := by
  rw [Segment.eq_of_untiered same]
  rfl

private theorem member_congr (known : SameButTiers later segments) {name : String}
    {before after : Replicas}
    (consuming : table.isConsumingSegment (segments.get? name) after =
      table.isConsumingSegment (segments.get? name) before) :
    table.member later layouts tiers options name after =
      table.member segments layouts tiers options name before := by
  have same := known name
  cases first : segments.get? name with
  | none =>
    rw [first] at same consuming
    have second := Option.map_eq_none_iff.mp same
    simp only [member, first, second, consuming]
  | some segment =>
    rw [first] at same
    obtain ⟨other, second, untiered⟩ := Option.map_eq_some_iff.mp same
    have parts := Segment.eq_of_untiered untiered
    have status : table.isConsumingSegment (some other) after =
        table.isConsumingSegment (some segment) before := by
      rw [parts]
      rfl
    have partition : other.partition = segment.partition := by
      rw [parts]
      rfl
    simp only [member, first, second, status, tierFor_untiered untiered, Option.map_some,
      Option.getD_some, partition]

def residents (members : List Member) (home : Home) : List Member :=
  members.filter fun member => member.home = some home

def placeHome (table : TableConfig) (layouts : Layouts) (tiers : List TierLayout)
    (baseline : Assignment) (members : List Member) (home : Home) :
    Except Error (List (String × List String)) :=
  match residents members home with
  | [] => .ok []
  | residents => do
    let layout ← table.homeLayout layouts tiers home
    table.placeMembers layout baseline residents

def members (table : TableConfig) (segments : OrderedMap String Segment) (layouts : Layouts)
    (tiers : List TierLayout) (options : PlacementOptions) (prior : Assignment) : List Member :=
  prior.entries.map fun entry => table.member segments layouts tiers options entry.1 entry.2

theorem nodup_members (table : TableConfig) (segments : OrderedMap String Segment)
    (layouts : Layouts) (tiers : List TierLayout) (options : PlacementOptions)
    (prior : Assignment) :
    ((table.members segments layouts tiers options prior).map Member.name).Nodup := by
  simpa [members, member, OrderedMap.keys, Function.comp_def] using prior.nodup_keys

/-- The replicas of a described segment, given where the segments were placed. -/
def placedReplicas (placed : List (String × List String)) (member : Member) (replicas : Replicas) :
    Replicas :=
  if member.home.isNone then replicas
  else .uniform (((OrderedMap.ofList placed).get? member.name).getD [])
    (placedState member.consuming)

theorem target_eq_ok {result : Target}
    (done : table.target segments layouts tiers prior options = .ok result) :
    ∃ parts, (allHomes tiers).mapM (table.placeHome layouts tiers
        (if options.bootstrap then {} else prior)
        (table.members segments layouts tiers options prior)) = .ok parts ∧
      result.assignment = prior.map fun name replicas =>
        placedReplicas parts.flatten (table.member segments layouts tiers options name replicas)
          replicas := by
  obtain ⟨parts, steps, same⟩ := bind_eq_ok_iff.mp done
  cases same
  exact ⟨parts, steps, rfl⟩

/-- What a target records of the tier of a member. -/
def recorded (tiers : List TierLayout) (member : Member) : Option (String × String) :=
  match member.home with
  | some (.tier position) => tiers[position]?.map fun found => (member.name, found.tier.config.name)
  | _ => none

theorem segmentTiers_eq {result : Target}
    (done : table.target segments layouts tiers prior options = .ok result) :
    result.segmentTiers = OrderedMap.ofList
      ((table.members segments layouts tiers options prior).filterMap (recorded tiers)) := by
  obtain ⟨parts, _, same⟩ := bind_eq_ok_iff.mp done
  cases same
  rfl

theorem keys_target {result : Target}
    (done : table.target segments layouts tiers prior options = .ok result) :
    result.assignment.keys = prior.keys := by
  obtain ⟨_, _, assigned⟩ := target_eq_ok done
  rw [assigned, OrderedMap.keys_map]

theorem target_eq_ok_of_placed {parts : List (List (String × List String))}
    (placed : (allHomes tiers).mapM (table.placeHome layouts tiers
        (if options.bootstrap then {} else prior)
        (table.members segments layouts tiers options prior)) = .ok parts) :
    ∃ result, table.target segments layouts tiers prior options = .ok result ∧
      result.assignment = prior.map fun name replicas =>
        placedReplicas parts.flatten (table.member segments layouts tiers options name replicas)
          replicas :=
  ⟨_, bind_eq_ok_iff.mpr ⟨parts, placed, rfl⟩, rfl⟩

private theorem placeHome_spec {baseline : Assignment} {members : List Member} {home : Home}
    {part : List (String × List String)}
    (done : table.placeHome layouts tiers baseline members home = .ok part) :
    (part.map Prod.fst).Perm ((residents members home).map Member.name) ∧
      (0 < table.replication → ∀ entry ∈ part, entry.2 ≠ []) := by
  unfold placeHome at done
  split at done
  · rename_i none
    cases done
    rw [none]
    exact ⟨.refl _, fun _ _ member => absurd member List.not_mem_nil⟩
  · obtain ⟨layout, _, placed⟩ := bind_eq_ok_iff.mp done
    exact placeMembers_spec placed

private theorem nodup_allHomes (tiers : List TierLayout) : (allHomes tiers).Nodup := by
  refine List.nodup_append'.mpr ⟨by decide, ?_, ?_⟩
  · exact List.nodup_range.map fun first second same => Home.tier.inj same
  · intro home kinds positions
    obtain ⟨kind, _, rfl⟩ := List.mem_map.mp kinds
    obtain ⟨position, _, same⟩ := List.mem_map.mp positions
    cases same

theorem mem_allHomes_of_member {name : String} {replicas : Replicas} {home : Home}
    (belongs : (table.member segments layouts tiers options name replicas).home = some home) :
    home ∈ allHomes tiers := by
  simp only [member] at belongs
  split at belongs
  · cases belongs
  · split at belongs
    · rename_i position found
      cases belongs
      refine List.mem_append_right _ (List.mem_map_of_mem (List.mem_range.mpr ?_))
      unfold tierFor at found
      split at found
      · cases found
      · obtain ⟨_, _, found⟩ := Option.bind_eq_some_iff.mp found
        obtain ⟨_, _, found⟩ := Option.bind_eq_some_iff.mp found
        exact (List.findIdx?_eq_some_iff_getElem.mp found).1
    · cases belongs
      refine List.mem_append_left _ (List.mem_map_of_mem ?_)
      cases table.kindFor _ layouts <;> decide

private theorem nodup_placed {baseline : Assignment} {members : List Member}
    {parts : List (List (String × List String))} (names : (members.map Member.name).Nodup)
    (homed : ∀ member ∈ members, ∀ home, member.home = some home → home ∈ allHomes tiers)
    (steps : (allHomes tiers).mapM (table.placeHome layouts tiers baseline members) = .ok parts) :
    (parts.flatten.map Prod.fst).Nodup := by
  have each := forall₂_of_mapM steps fun home _ part here => (placeHome_spec here).1.symm
  have placed := List.Perm.flatten_congr
    (List.forall₂_map_left_iff.mpr (List.forall₂_map_right_iff.mpr each))
  rw [← List.map_flatten] at placed
  have distinct : (none :: (allHomes tiers).map some).Nodup := List.nodup_cons.mpr
    ⟨by simp, (nodup_allHomes tiers).map (Option.some_injective _)⟩
  have sorted := perm_flatten_filter Member.home distinct fun member listed => by
    cases home : member.home with
    | none => exact List.mem_cons_self
    | some home' => exact List.mem_cons_of_mem _ (List.mem_map_of_mem (homed member listed home' home))
  have named := sorted.map Member.name
  rw [List.map_cons, List.flatten_cons, List.map_append, List.map_map, List.map_flatten,
    List.map_map] at named
  have residing := (named.nodup_iff.mpr names).of_append_right
  exact placed.nodup_iff.mp residing

theorem exists_placed {baseline : Assignment} {members : List Member} {member : Member} {home : Home}
    {part : List (String × List String)} (listed : member ∈ members)
    (belongs : member.home = some home)
    (done : table.placeHome layouts tiers baseline members home = .ok part) :
    ∃ servers, (member.name, servers) ∈ part := by
  have resident : member ∈ residents members home :=
    List.mem_filter.mpr ⟨listed, decide_eq_true belongs⟩
  obtain ⟨⟨_, servers⟩, inside, rfl⟩ := List.mem_map.mp
    ((placeHome_spec done).1.mem_iff.mpr (List.mem_map_of_mem (f := Member.name) resident))
  exact ⟨servers, inside⟩

theorem get?_of_layoutFor {kind : LayoutKind} (held : table.layoutFor kind layouts = .ok layout) :
    layouts.get? kind = some layout := by
  unfold layoutFor at held
  split at held
  · rename_i found
    obtain ⟨_, _, same⟩ := bind_eq_ok_iff.mp held
    cases same
    exact found
  · cases held

private theorem groupsDisjoint_homeLayout
    (kinds : ∀ kind layout, layouts.get? kind = some layout → layout.GroupsDisjoint)
    (others : ∀ found ∈ tiers, found.layout.GroupsDisjoint) {home : Home} {layout : Layout}
    (belongs : table.homeLayout layouts tiers home = .ok layout) : layout.GroupsDisjoint := by
  cases home with
  | kind kind => exact kinds kind layout (get?_of_layoutFor belongs)
  | tier position =>
    simp only [homeLayout] at belongs
    split at belongs
    · rename_i found listed
      cases belongs
      exact others found (List.mem_of_getElem? listed)
    · cases belongs

private theorem placeHome_again {before after : Assignment} {members : List Member} {home : Home}
    {part : List (String × List String)}
    (disjoint : ∀ layout, table.homeLayout layouts tiers home = .ok layout → layout.GroupsDisjoint)
    (done : table.placeHome layouts tiers before members home = .ok part)
    (settled : ∀ entry ∈ part, ∃ state, after.get? entry.1 = some (.uniform entry.2 state)) :
    ∃ again, table.placeHome layouts tiers after members home = .ok again ∧
      List.Forall₂ SameServers part again := by
  unfold placeHome at done ⊢
  split at done
  · cases done
    exact ⟨[], rfl, .nil⟩
  · obtain ⟨layout, belongs, placed⟩ := bind_eq_ok_iff.mp done
    obtain ⟨again, same, alike⟩ := placeMembers_again (disjoint layout belongs) placed settled
    exact ⟨again, bind_eq_ok_iff.mpr ⟨layout, belongs, same⟩, alike⟩

theorem get?_of_sameServers {first second : List (String × List String)}
    (alike : List.Forall₂ SameServers first second) (distinct : (first.map Prod.fst).Nodup)
    {name : String} {servers : List String} (inside : (name, servers) ∈ first) :
    ∃ others, (OrderedMap.ofList second).get? name = some others ∧ servers.Perm others := by
  have names := List.forall₂_map_left_iff.mpr
    (List.forall₂_map_right_iff.mpr (alike.imp fun _ _ same => same.1))
  rw [List.forall₂_eq_eq_eq] at names
  have listed : ∃ others, (name, others) ∈ second ∧ servers.Perm others := by
    clear distinct names
    induction alike with
    | nil => cases inside
    | @cons _ second _ _ same _ ih =>
      rcases List.mem_cons.mp inside with rfl | later
      · obtain ⟨label, others⟩ := second
        obtain ⟨rfl, perm⟩ : name = label ∧ servers.Perm others := same
        exact ⟨others, List.mem_cons_self, perm⟩
      · obtain ⟨others, member, perm⟩ := ih later
        exact ⟨others, List.mem_cons_of_mem _ member, perm⟩
  obtain ⟨others, member, perm⟩ := listed
  exact ⟨others, OrderedMap.get?_insertAll_of_mem (names ▸ distinct) member, perm⟩

private theorem placedReplicas_of_home {placed : List (String × List String)} {member : Member}
    {home : Home} {servers : List String} (belongs : member.home = some home)
    (found : (OrderedMap.ofList placed).get? member.name = some servers) (replicas : Replicas) :
    placedReplicas placed member replicas = .uniform servers (placedState member.consuming) := by
  simp only [placedReplicas, belongs, found, Option.isNone_some, Option.getD_some,
    Bool.false_eq_true, if_false]

theorem placedReplicas_of_homeless {placed : List (String × List String)} {member : Member}
    (homeless : member.home = none) (replicas : Replicas) :
    placedReplicas placed member replicas = replicas := by
  simp only [placedReplicas, homeless, Option.isNone_none, if_true]

private theorem isConsumingSegment_uniform {segment : Option Segment} {replicas : Replicas}
    {servers : List String} (some : servers ≠ []) :
    table.isConsumingSegment segment
        (.uniform servers (placedState (table.isConsumingSegment segment replicas))) =
      table.isConsumingSegment segment replicas := by
  cases segment with
  | some segment => rfl
  | none =>
    simp only [isConsumingSegment, Replicas.isConsuming_uniform some]
    cases table.isRealtime <;> rfl

private theorem described_of_placeHome {baseline : Assignment} {home : Home}
    {part : List (String × List String)} {name : String} {servers : List String}
    (done : table.placeHome layouts tiers baseline
      (table.members segments layouts tiers options prior) home = .ok part)
    (inside : (name, servers) ∈ part) :
    ∃ replicas, prior.get? name = some replicas ∧
      (table.member segments layouts tiers options name replicas).home = some home := by
  have named := (placeHome_spec done).1.mem_iff.mp (List.mem_map_of_mem (f := Prod.fst) inside)
  obtain ⟨resident, within, same⟩ := List.mem_map.mp named
  obtain ⟨listed, belongs⟩ := List.mem_filter.mp within
  obtain ⟨⟨other, replicas⟩, stored, rfl⟩ := List.mem_map.mp listed
  obtain rfl : other = name := same
  exact ⟨replicas, OrderedMap.get?_eq_some_iff.mpr stored, of_decide_eq_true belongs⟩

/-- A target as its homes made it: `parts` tells where each home placed its segments. -/
structure Placing (table : TableConfig) (segments : OrderedMap String Segment) (layouts : Layouts)
    (tiers : List TierLayout) (options : PlacementOptions) (prior : Assignment) (result : Target)
    (parts : List (List (String × List String))) : Prop where
  steps : (allHomes tiers).mapM (table.placeHome layouts tiers
    (if options.bootstrap then {} else prior)
    (table.members segments layouts tiers options prior)) = .ok parts
  assigned : result.assignment = prior.map fun name replicas =>
    placedReplicas parts.flatten (table.member segments layouts tiers options name replicas) replicas
  distinct : (parts.flatten.map Prod.fst).Nodup
  complete : ∀ {name replicas home}, prior.get? name = some replicas →
    (table.member segments layouts tiers options name replicas).home = some home →
    ∃ part ∈ parts, table.placeHome layouts tiers (if options.bootstrap then {} else prior)
      (table.members segments layouts tiers options prior) home = .ok part ∧
      ∃ servers, (name, servers) ∈ part

theorem placing_of_target {result : Target}
    (done : table.target segments layouts tiers prior options = .ok result) :
    ∃ parts, Placing table segments layouts tiers options prior result parts := by
  obtain ⟨parts, steps, assigned⟩ := target_eq_ok done
  have names := nodup_members table segments layouts tiers options prior
  have homed : ∀ member ∈ table.members segments layouts tiers options prior, ∀ home,
      member.home = some home → home ∈ allHomes tiers := by
    intro member inside home belongs
    obtain ⟨entry, _, rfl⟩ := List.mem_map.mp inside
    exact mem_allHomes_of_member belongs
  refine ⟨parts, steps, assigned, nodup_placed names homed steps, fun found belongs => ?_⟩
  obtain ⟨part, inside, done⟩ := exists_of_mapM steps (mem_allHomes_of_member belongs)
  exact ⟨part, inside, done, exists_placed
    (List.mem_map_of_mem (OrderedMap.get?_eq_some_iff.mp found)) belongs done⟩

namespace Placing

variable {result : Target} {parts : List (List (String × List String))} {name : String}
  {replicas : Replicas} {home : Home} {servers : List String}

theorem get?_parts (placing : Placing table segments layouts tiers options prior result parts)
    (inside : (name, servers) ∈ parts.flatten) :
    (OrderedMap.ofList parts.flatten).get? name = some servers :=
  OrderedMap.get?_insertAll_of_mem placing.distinct inside

theorem get?_assignment (placing : Placing table segments layouts tiers options prior result parts)
    (found : prior.get? name = some replicas)
    (belongs : (table.member segments layouts tiers options name replicas).home = some home)
    (inside : (name, servers) ∈ parts.flatten) :
    result.assignment.get? name = some (.uniform servers
      (placedState (table.member segments layouts tiers options name replicas).consuming)) := by
  rw [placing.assigned, OrderedMap.get?_map, found]
  exact congrArg some (placedReplicas_of_home belongs (placing.get?_parts inside) _)

theorem listed (placing : Placing table segments layouts tiers options prior result parts)
    (replicated : 0 < table.replication) (found : prior.get? name = some replicas)
    (belongs : (table.member segments layouts tiers options name replicas).home = some home) :
    ∃ servers, (name, servers) ∈ parts.flatten ∧ servers ≠ [] := by
  obtain ⟨part, listed, done, servers, inside⟩ := placing.complete found belongs
  exact ⟨servers, List.mem_flatten.mpr ⟨part, listed, inside⟩,
    (placeHome_spec done).2 replicated _ inside⟩

theorem member_again (placing : Placing table segments layouts tiers options prior result parts)
    (replicated : 0 < table.replication) (known : SameButTiers later segments) (found : prior.get? name = some replicas) :
    table.member later layouts tiers options name (placedReplicas parts.flatten
        (table.member segments layouts tiers options name replicas) replicas) =
      table.member segments layouts tiers options name replicas := by
  refine member_congr known ?_
  cases belongs : (table.member segments layouts tiers options name replicas).home with
  | none => rw [placedReplicas_of_homeless belongs]
  | some home =>
    obtain ⟨servers, inside, some⟩ := placing.listed replicated found belongs
    rw [placedReplicas_of_home belongs (placing.get?_parts inside)]
    exact isConsumingSegment_uniform some

theorem members_again (placing : Placing table segments layouts tiers options prior result parts)
    (replicated : 0 < table.replication) (known : SameButTiers later segments) :
    table.members later layouts tiers options result.assignment =
      table.members segments layouts tiers options prior := by
  rw [placing.assigned]
  simp only [members, OrderedMap.map, List.map_map]
  refine List.map_congr_left fun entry member => ?_
  exact placing.member_again replicated known (OrderedMap.get?_eq_some_iff.mpr member)

/-- From the target every home places its segments on the same servers. -/
theorem steps_again (placing : Placing table segments layouts tiers options prior result parts)
    (kinds : ∀ kind layout, layouts.get? kind = some layout → layout.GroupsDisjoint)
    (others : ∀ found ∈ tiers, found.layout.GroupsDisjoint) :
    ∃ again, (allHomes tiers).mapM (table.placeHome layouts tiers
        (if options.bootstrap then {} else result.assignment)
        (table.members segments layouts tiers options prior)) = .ok again ∧
      List.Forall₂ (List.Forall₂ SameServers) parts again := by
  refine mapM_related placing.steps fun home _ part inside here => ?_
  by_cases anew : options.bootstrap
  · simp only [anew, if_true] at here ⊢
    exact ⟨part, here, List.forall₂_same.mpr fun _ _ => ⟨rfl, .refl _⟩⟩
  · simp only [anew] at here ⊢
    refine placeHome_again (fun layout => groupsDisjoint_homeLayout kinds others) here ?_
    intro ⟨name, servers⟩ member
    obtain ⟨replicas, found, belongs⟩ := described_of_placeHome here member
    exact ⟨_, placing.get?_assignment found belongs (List.mem_flatten.mpr ⟨part, inside, member⟩)⟩

private theorem placedReplicas_again
    (placing : Placing table segments layouts tiers options prior result parts)
    {again : List (List (String × List String))}
    (alike : List.Forall₂ (List.Forall₂ SameServers) parts again)
    (found : prior.get? name = some replicas) (before : Replicas) :
    let member := table.member segments layouts tiers options name replicas
    placedReplicas again.flatten member (placedReplicas parts.flatten member before) =
      placedReplicas parts.flatten member before := by
  intro member
  cases belongs : member.home with
  | none => simp only [placedReplicas_of_homeless belongs]
  | some home =>
    obtain ⟨part, listed, _, servers, within⟩ := placing.complete found belongs
    have inside := List.mem_flatten.mpr ⟨part, listed, within⟩
    obtain ⟨moved, held, perm⟩ := get?_of_sameServers (List.rel_flatten alike) placing.distinct inside
    rw [placedReplicas_of_home belongs (placing.get?_parts inside),
      placedReplicas_of_home belongs held, Replicas.uniform_congr fun _ => perm.mem_iff]

end Placing

/-- Once every segment is where a target puts it, the target is that assignment. -/
theorem target_again (replicated : 0 < table.replication) {result : Target}
    (done : table.target segments layouts tiers prior options = .ok result)
    (known : SameButTiers later segments)
    (kinds : ∀ kind layout, layouts.get? kind = some layout → layout.GroupsDisjoint)
    (others : ∀ found ∈ tiers, found.layout.GroupsDisjoint) :
    ∃ again, table.target later layouts tiers result.assignment options = .ok again ∧
      again.assignment = result.assignment := by
  obtain ⟨parts, placing⟩ := placing_of_target done
  obtain ⟨moved, steps, alike⟩ := placing.steps_again kinds others
  rw [← placing.members_again replicated known] at steps
  obtain ⟨next, done, assigned⟩ := target_eq_ok_of_placed steps
  refine ⟨next, done, assigned.trans (OrderedMap.ext_get? fun name => ?_)⟩
  rw [OrderedMap.get?_map, placing.assigned, OrderedMap.get?_map]
  cases found : prior.get? name with
  | none => rfl
  | some replicas =>
    simp only [Option.map_some, placing.member_again replicated known found]
    exact congrArg some (placing.placedReplicas_again alike found replicas)

end TableConfig

end SegmentPlacement

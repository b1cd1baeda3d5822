import SegmentPlacement.Proofs.SegmentPlacers
import SegmentPlacement.Proofs.SettledRebalance

/-! Where a rebalance that computes the layouts anew may place segments. A computed
layout lists enabled servers of its tag and no others, whatever layout it keeps
servers of, and a target places on listed servers only. -/

namespace SegmentPlacement

/-- A server of this id is registered, is enabled and carries the tag. -/
def Usable (servers : List Server) (tag id : String) : Prop :=
  ∃ server ∈ servers, server.id = id ∧ server.enabled = true ∧ server.hasTag tag = true

private theorem usable_of_serverPool {servers : List Server} {tag id : String} {pool : List String}
    (pooled : serverPool servers tag = .ok pool) (member : id ∈ pool) : Usable servers tag id := by
  simp only [serverPool] at pooled
  split at pooled
  · cases pooled
  · cases pooled
    obtain ⟨server, inside, rfl⟩ := List.mem_map.mp (OrderedMap.mem_keys_ofKeys.mp member)
    obtain ⟨registered, fits⟩ := List.mem_filter.mp inside
    obtain ⟨enabled, tagged⟩ := Bool.and_eq_true_iff.mp fits
    exact ⟨server, registered, rfl, enabled, tagged⟩

namespace Layout

/-- Every server that the layout lists is usable for the tag. -/
def Usable (layout : Layout) (servers : List Server) (tag : String) : Prop :=
  ∀ id, layout.Lists id → SegmentPlacement.Usable servers tag id

variable {name : String} {pool : List String} {settings : GroupSettings} {prior : Option Layout}
  {minimize : Bool} {layout : Layout}

/-- A computed layout lists servers of the pool only, whatever layout it was to keep. -/
theorem mem_pool_of_compute (distinct : pool.Nodup)
    (done : compute name pool settings prior minimize = .ok layout) {server : String}
    (lists : layout.Lists server) : server ∈ pool := by
  obtain ⟨partition, known, group, within, listed⟩ := lists
  by_cases grouped : settings.groupBased
  · obtain ⟨size, perPartition, sized, slotted, _, small, filled, held⟩ :=
      compute_grouped_spec distinct grouped done
    cases stored : layout.servers? partition group with
    | none =>
      rw [stored] at listed
      cases listed
    | some servers =>
      rw [stored] at listed
      obtain ⟨members, found, inside⟩ := subset_group_of_slot distinct sized small filled stored
      exact ((groups_spec distinct sized _).2 members (List.mem_of_getElem? found)).2.2
        (inside listed)
  · obtain ⟨_, filled⟩ := (compute_flat_eq_ok_iff grouped).mp done
    obtain ⟨⟨_, partitions, groups⟩, _, _⟩ := single_spec filled
    obtain rfl : partition = 0 := Nat.lt_one_iff.mp (known.trans_eq partitions)
    obtain rfl : group = 0 := Nat.lt_one_iff.mp (within.trans_eq groups)
    rw [servers?_single filled] at listed
    exact mem_flatServers.mp listed

end Layout

namespace TableConfig

variable {table : TableConfig} {servers : List Server} {prior : Option Layout} {layout : Layout}

private theorem usable_of_computeLayout {kind : LayoutKind} {minimize : Option Bool}
    (done : table.computeLayout kind servers prior minimize = .ok layout) :
    layout.Usable servers (table.tagFor kind) := by
  intro id lists
  cases found : table.layouts.get? kind with
  | some settings =>
    have own : table.tagFor kind = settings.tag := by simp only [tagFor, found]
    simp only [computeLayout, found] at done
    obtain ⟨groups, _, done⟩ := bind_eq_ok_iff.mp done
    obtain ⟨pool, pooled, done⟩ := bind_eq_ok_iff.mp done
    rw [own]
    exact usable_of_serverPool pooled
      (Layout.mem_pool_of_compute (serverPool_nodup pooled) done lists)
  | none =>
    have shared : table.tagFor kind = table.serverTag := by simp only [tagFor, found]
    simp only [computeLayout, found] at done
    obtain ⟨pool, pooled, done⟩ := bind_eq_ok_iff.mp done
    rw [shared]
    exact usable_of_serverPool pooled
      (Layout.mem_pool_of_compute (serverPool_nodup pooled) done lists)

private theorem usable_of_computeTierLayout {tier : TierConfig} {minimize : Bool}
    (done : table.computeTierLayout tier servers prior minimize = .ok layout) :
    layout.Usable servers tier.serverTag := by
  intro id lists
  obtain ⟨pool, pooled, done⟩ := bind_eq_ok_iff.mp done
  exact usable_of_serverPool pooled
    (Layout.mem_pool_of_compute (serverPool_nodup pooled) done lists)

end TableConfig

namespace LayoutPlan

/-- Every layout of the plan lists servers of its own tag. -/
structure Tagged (table : TableConfig) (servers : List Server) (plan : LayoutPlan) : Prop where
  kinds : ∀ kind layout, plan.layouts.get? kind = some layout →
    layout.Usable servers (table.tagFor kind)
  tiers : ∀ found ∈ plan.tiers, found.layout.Usable servers found.tier.config.serverTag

variable {table : TableConfig} {options : RebalanceOptions} {servers : List Server}
  {plan next : LayoutPlan} {stored : Option Layout} {layouts : OrderedMap String Layout}

private theorem addEach_keeps {nameOf : ι → String}
    {add : LayoutPlan → ι → Option Layout → Except Error LayoutPlan} {holds : LayoutPlan → Prop}
    (step : ∀ plan item stored next, holds plan → add plan item stored = .ok next → holds next)
    {items : List ι} (begun : holds plan)
    (done : addEach layouts nameOf add items plan = .ok next) : holds next := by
  induction items generalizing plan with
  | nil =>
    cases done
    exact begun
  | cons item rest ih =>
    obtain ⟨stored, _, done⟩ := bind_eq_ok_iff.mp done
    obtain ⟨middle, added, done⟩ := bind_eq_ok_iff.mp done
    exact ih (step plan item stored middle begun added) done

theorem Tagged.extend (tagged : plan.Tagged table servers) {kind : LayoutKind} {layout : Layout}
    (usable : layout.Usable servers (table.tagFor kind))
    (layouts : next.layouts = plan.layouts.insert kind layout) (tiers : next.tiers = plan.tiers) :
    next.Tagged table servers := by
  refine ⟨fun other found listed => ?_, tiers ▸ tagged.tiers⟩
  rw [layouts, OrderedMap.get?_insert] at listed
  split at listed
  · rename_i same
    cases listed
    exact same ▸ usable
  · exact tagged.kinds other found listed

theorem layouts_storeIfNew (plan : LayoutPlan) (stored : Option Layout) (computed : Layout) :
    (plan.storeIfNew stored computed).layouts = plan.layouts := by
  unfold storeIfNew
  split <;> rfl

private theorem tagged_addKind (reassigns : options.reassignInstances = true) {kind : LayoutKind}
    (tagged : plan.Tagged table servers)
    (done : addKind table options servers plan kind stored = .ok next) :
    next.Tagged table servers := by
  simp only [addKind, if_pos reassigns] at done
  split at done
  · obtain ⟨computed, same, done⟩ := bind_eq_ok_iff.mp done
    cases done
    refine tagged.extend (TableConfig.usable_of_computeLayout same) ?_ (tiers_storeIfNew ..)
    rw [layouts_storeIfNew]
  · obtain ⟨computed, same, done⟩ := bind_eq_ok_iff.mp done
    cases done
    exact tagged.extend (TableConfig.usable_of_computeLayout same) rfl rfl

private theorem tagged_addTier (reassigns : options.reassignInstances = true) {tier : Tier}
    (tagged : plan.Tagged table servers)
    (done : addTier table options servers plan tier stored = .ok next) :
    next.Tagged table servers := by
  simp only [addTier, if_pos reassigns] at done
  obtain ⟨computed, same, done⟩ := bind_eq_ok_iff.mp done
  cases done
  refine ⟨by rw [layouts_storeIfNew]; exact tagged.kinds, fun found listed => ?_⟩
  rw [tiers_storeIfNew] at listed
  rcases List.mem_append.mp listed with before | new
  · exact tagged.tiers found before
  · obtain rfl := List.mem_singleton.mp new
    exact TableConfig.usable_of_computeTierLayout same

private theorem tagged_planOf (reassigns : options.reassignInstances = true)
    (planned : planOf layouts table options servers = .ok plan) : plan.Tagged table servers := by
  obtain ⟨kinds, first, planned⟩ := bind_eq_ok_iff.mp planned
  obtain ⟨tiers, _, second⟩ := bind_eq_ok_iff.mp planned
  have empty : LayoutPlan.Tagged table servers {} := ⟨nofun, nofun⟩
  have begun : kinds.Tagged table servers :=
    addEach_keeps (fun _ _ _ _ tagged done => tagged_addKind reassigns tagged done) empty first
  exact addEach_keeps (fun _ _ _ _ tagged done => tagged_addTier reassigns tagged done) begun second

theorem Tagged.usable {placer : Placer} {layout : Layout} (tagged : plan.Tagged table servers)
    (member : ∀ found, placer = .byTier found → found ∈ plan.tiers)
    (found : placer.layout? plan.layouts = some layout) :
    layout.Usable servers (placer.tag table) := by
  cases placer with
  | byKind kind => exact tagged.kinds kind layout found
  | byTier tier =>
    cases found
    exact tagged.tiers tier (member tier rfl)

end LayoutPlan

namespace Rebalance
open Program

/-- How a rebalance places the segments of a table. -/
def placementOf (setup : RebalanceSetup) (options : RebalanceOptions) : PlacementOptions :=
  { includeConsuming := options.includeConsuming, bootstrap := options.bootstrap,
    now := setup.now }

/-- Whatever layouts are stored and wherever the segments are: when the layouts are computed anew,
every segment but the frozen ones is placed on enabled servers, with the tag of the tier that takes
it, if there is one, and else with that of its kind. -/
theorem run_places_on_tagged (setup : RebalanceSetup) (table : TableConfig)
    (options : RebalanceOptions) (job : String) (store : Store) (result : RebalanceResult)
    (computed : Computation) (unique : (table.tiers.map TierConfig.name).Nodup)
    (reassigns : options.reassignInstances = true)
    (ended : ((run setup table options job).run Store.respond store).value = .ok result)
    (reported : result.computed = some computed) :
    ∃ state plan, store.table? table.name = some state ∧
      LayoutPlan.planOf store.snapshot.layouts table options store.snapshot.servers = .ok plan ∧
      ∀ name replicas, state.ideal.assignment.get? name = some replicas →
        let known := (factsOf store state).segments
        ¬ TableConfig.Freezes (placementOf setup options)
          (table.isConsumingSegment (known.get? name) replicas) →
        ∃ placed, computed.assignment.get? name = some placed ∧
          ∀ id, placed.contains id = true → Usable store.snapshot.servers
            (table.placingTag known plan.layouts plan.tiers (placementOf setup options) name replicas)
            id := by
  obtain ⟨_, worked, _⟩ := run_value ended
  rw [← worked] at reported
  obtain ⟨state, plan, target, prepared⟩ := prepared_of_reported reported
  obtain ⟨done, assigned, _⟩ := compute_eq_ok prepared.computed
  refine ⟨state, plan, prepared.found, prepared.planned, ?_⟩
  intro name replicas listed known free
  obtain ⟨placer, found, tag⟩ := TableConfig.exists_placer
    (LayoutPlan.nodup_tierNames unique prepared.planned) plan.layouts free
  obtain ⟨layout, held, placed, stored, within⟩ := TableConfig.placedOn_placer done listed found
  have usable := (LayoutPlan.tagged_planOf reassigns prepared.planned).usable
    (fun tier same => TableConfig.mem_tiers_of_placer (same ▸ found)) held
  rw [tag] at usable
  exact ⟨placed, assigned ▸ stored, fun id holds => usable id (within id holds)⟩

def coldTier : Tier :=
  { config := { name := "cold", rule := .time "7d", serverTag := "cold" }, age := some 604800 }

def coldTable : TableConfig :=
  { TableConfig.offline "events" 1 "hot" with
    layouts := OrderedMap.ofList [(.offline, { tag := "hot", minimizeMovement := true })]
    tiers := [coldTier.config] }

def flatLayout (name : String) (servers : List String) : Layout :=
  { name, numPartitions := 1, numGroups := 1, slots := .ofList [("0_0", servers)] }

def staleState : TableState :=
  { config := coldTable
    ideal :=
      { table := "events_OFFLINE"
        assignment := .ofList [("s", .uniform ["gone"] .online), ("u", .uniform ["d"] .online)] }
    segments := .ofList [("s", { name := "s", endTimeMs := some 0 }),
      ("u", { name := "u", targetTier := some "warm" })] }

/-- The stored layouts and the assignment hold a server that is turned off, one that has another
tag and one that is gone. -/
def staleStore : Store :=
  { snapshot :=
      { servers :=
          [{ id := "a", tags := ["hot"] }, { id := "b", tags := ["hot"], enabled := false },
            { id := "c", tags := ["cold"] }, { id := "d", tags := ["other"] }]
        layouts := .ofList
          [("events_OFFLINE", flatLayout "events_OFFLINE" ["b", "d", "a"]),
            ("events_OFFLINE__TIER__cold",
              flatLayout "events_OFFLINE__TIER__cold" ["gone", "b", "c"])]
        tables := .ofList [("events_OFFLINE", staleState)] } }

def coldSetup : RebalanceSetup := { now := 864000000, roundLimit := 4 }

def anew : RebalanceOptions := { reassignInstances := true }

deriving instance DecidableEq for LayoutPlan

/-- What is left of the stored layouts. -/
def renewedPlan : LayoutPlan :=
  let hot := flatLayout "events_OFFLINE" ["a"]
  let cold := flatLayout "events_OFFLINE__TIER__cold" ["c"]
  { layouts := .ofList [(.offline, hot)], tiers := [⟨coldTier, cold⟩], toStore := [hot, cold] }

private theorem planOf_stale : LayoutPlan.planOf staleStore.snapshot.layouts coldTable anew
    staleStore.snapshot.servers = .ok renewedPlan := by decide +kernel

/-- The aged segment gets the one server of its tier, the other one the one that is left to it. -/
theorem stale_placed_on_tagged :
    (coldTable.tiers.map TierConfig.name).Nodup ∧ anew.reassignInstances = true ∧
    ∃ result computed,
      ((run coldSetup coldTable anew "job").run Store.respond staleStore).value = .ok result ∧
      result.computed = some computed ∧
      ∀ entry ∈ [("s", "cold"), ("u", "hot")],
        ∃ placed, computed.assignment.get? entry.1 = some placed ∧
          ∀ id, placed.contains id = true → Usable staleStore.snapshot.servers entry.2 id := by
  have told : (((run coldSetup coldTable anew "job").run Store.respond staleStore).value.toOption.bind
      RebalanceResult.computed).isSome = true := by decide +kernel
  obtain ⟨computed, told⟩ := Option.isSome_iff_exists.mp told
  obtain ⟨result, value, reported⟩ := Option.bind_eq_some_iff.mp told
  have ended : ((run coldSetup coldTable anew "job").run Store.respond staleStore).value =
      .ok result := eq_ok_of_toOption value
  refine ⟨by decide, rfl, result, computed, ended, reported, ?_⟩
  obtain ⟨state, plan, found, planned, each⟩ := run_places_on_tagged coldSetup coldTable anew "job"
    staleStore result computed (by decide) rfl ended reported
  have stored : staleStore.table? coldTable.name = some staleState := by decide +kernel
  obtain rfl := Option.some.inj (stored.symm.trans found)
  obtain rfl := Except.ok.inj (planOf_stale.symm.trans planned)
  intro entry listed
  simp only [List.mem_cons, List.not_mem_nil, or_false] at listed
  rcases listed with rfl | rfl
  · exact each "s" (.uniform ["gone"] .online) (by decide +kernel) (by decide +kernel)
  · exact each "u" (.uniform ["d"] .online) (by decide +kernel) (by decide +kernel)

end Rebalance

end SegmentPlacement

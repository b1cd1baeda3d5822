import SegmentPlacement.Proofs.ComputedLayout
import SegmentPlacement.Proofs.StoreContents
import SegmentPlacement.Rebalance.Plan

/-! Layouts that were planned and stored are planned again. A plan stores or drops
the layouts of its own table, each under a name of its own, so once that is done
a plan that computes nothing anew finds the layouts that it worked with, and has
nothing to store or to drop. -/

namespace SegmentPlacement

theorem serverPool_nodup {servers : List Server} {tag : String} {pool : List String}
    (pooled : serverPool servers tag = .ok pool) : pool.Nodup := by
  simp only [serverPool] at pooled
  split at pooled
  · cases pooled
  · cases pooled
    exact OrderedMap.nodup_keys _

namespace TableConfig

variable {table : TableConfig} {servers : List Server} {prior : Option Layout} {layout : Layout}

private theorem computeLayout_spec {kind : LayoutKind} {minimize : Option Bool}
    (done : table.computeLayout kind servers prior minimize = .ok layout) :
    layout.name = kind.layoutName table.name ∧ layout.Valid := by
  unfold computeLayout at done
  split at done
  · obtain ⟨groups, _, done⟩ := bind_eq_ok_iff.mp done
    obtain ⟨pool, pooled, done⟩ := bind_eq_ok_iff.mp done
    obtain ⟨named, _, valid⟩ := Layout.compute_spec (serverPool_nodup pooled) done
    exact ⟨named, valid⟩
  · obtain ⟨pool, pooled, done⟩ := bind_eq_ok_iff.mp done
    obtain ⟨named, _, valid⟩ := Layout.compute_spec (serverPool_nodup pooled) done
    exact ⟨named, valid⟩

private theorem computeTierLayout_spec {tier : TierConfig} {minimize : Bool}
    (done : table.computeTierLayout tier servers prior minimize = .ok layout) :
    layout.name = tier.layoutName table.name ∧ layout.Valid := by
  obtain ⟨pool, pooled, done⟩ := bind_eq_ok_iff.mp done
  obtain ⟨named, _, valid⟩ := Layout.compute_spec (serverPool_nodup pooled) done
  exact ⟨named, valid⟩

private theorem computeLayout_of_no_settings {kind : LayoutKind}
    (none : table.layouts.get? kind = none) (minimize other : Option Bool) :
    table.computeLayout kind servers .none minimize =
      table.computeLayout kind servers .none other := by
  simp only [computeLayout, none, Layout.compute, ite_self]

end TableConfig

namespace LayoutPlan
open Program

/-- A stored layout, as far as it is found and passes its checks. -/
def lookUp (layouts : OrderedMap String Layout) (name : String) : Except Error (Option Layout) :=
  match layouts.get? name with
  | none => .ok none
  | some layout => do
    layout.validate
    return some layout

/-- Passes its checks, if it is there. -/
def Sound (stored : Option Layout) : Prop := ∀ layout, stored = some layout → layout.Valid

private theorem sound_none : Sound none := fun _ found => by cases found

private theorem sound_some {layout : Layout} (valid : layout.Valid) : Sound (some layout) :=
  fun _ same => Option.some.inj same ▸ valid

theorem lookUp_eq_ok_iff {layouts : OrderedMap String Layout} {name : String}
    {stored : Option Layout} :
    lookUp layouts name = .ok stored ↔ layouts.get? name = stored ∧ Sound stored := by
  unfold lookUp
  cases layouts.get? name with
  | none =>
    constructor
    · intro found
      cases found
      exact ⟨rfl, sound_none⟩
    · rintro ⟨rfl, _⟩
      rfl
  | some layout =>
    constructor
    · intro found
      obtain ⟨_, checked, same⟩ := bind_eq_ok_iff.mp found
      cases same
      exact ⟨rfl, sound_some (Layout.validate_iff.mp checked)⟩
    · rintro ⟨rfl, valid⟩
      simp only [Layout.validate_iff.mpr (valid layout rfl)]
      rfl

/-- Adding one layout after the other, from what is stored. -/
def addEach (layouts : OrderedMap String Layout) (nameOf : ι → String)
    (add : LayoutPlan → ι → Option Layout → Except Error LayoutPlan) :
    List ι → LayoutPlan → Except Error LayoutPlan
  | [], plan => .ok plan
  | item :: rest, plan => do
    let stored ← lookUp layouts (nameOf item)
    let next ← add plan item stored
    addEach layouts nameOf add rest next

def planOf (layouts : OrderedMap String Layout) (table : TableConfig) (options : RebalanceOptions)
    (servers : List Server) : Except Error LayoutPlan := do
  let plan ← addEach layouts (fun kind => kind.layoutName table.name)
    (addKind table options servers) table.layoutKinds {}
  let tiers ← Tier.sort table.tiers
  addEach layouts (fun tier => tier.config.layoutName table.name) (addTier table options servers)
    tiers plan

private theorem readLayout_reads (name : String) (store : Store) :
    (readLayout name).Reads store (lookUp store.snapshot.layouts name) := by
  unfold readLayout lookUp
  refine .bind (.call rfl) ?_
  simp only [Store.respond]
  cases store.snapshot.layouts.get? name <;> exact .pure _

private theorem addAll_reads (nameOf : ι → String)
    (add : LayoutPlan → ι → Option Layout → Except Error LayoutPlan) (items : List ι)
    (plan : LayoutPlan) (store : Store) :
    (addAll nameOf add items plan).Reads store
      (addEach store.snapshot.layouts nameOf add items plan) := by
  induction items generalizing plan with
  | nil => exact .pure _
  | cons item rest ih =>
    rw [addAll]
    refine .bind (readLayout_reads (nameOf item) store) ?_
    rw [addEach]
    cases lookUp store.snapshot.layouts (nameOf item) with
    | error error => exact .pure _
    | ok stored =>
      change Program.Reads _ store
        (add plan item stored >>= addEach store.snapshot.layouts nameOf add rest)
      dsimp only
      cases add plan item stored with
      | error error => exact .pure _
      | ok next => exact ih next

theorem make_reads (table : TableConfig) (options : RebalanceOptions) (servers : List Server)
    (store : Store) :
    (make table options servers).Reads store
      (planOf store.snapshot.layouts table options servers) := by
  unfold make planOf
  refine .bind (addAll_reads _ _ _ _ store) ?_
  cases addEach store.snapshot.layouts (fun kind => kind.layoutName table.name)
    (addKind table options servers) table.layoutKinds {} with
  | error error => exact .pure _
  | ok plan =>
    simp only
    cases Tier.sort table.tiers with
    | error error => exact .pure _
    | ok tiers => exact addAll_reads _ _ _ _ store

/-- The layouts once the plan is carried out. -/
def applied (plan : LayoutPlan) (layouts : OrderedMap String Layout) : OrderedMap String Layout :=
  plan.toDrop.foldl OrderedMap.erase
    (plan.toStore.foldl (fun layouts layout => layouts.insert layout.name layout) layouts)

/-- The plan with everything stored and dropped. -/
def served (plan : LayoutPlan) : LayoutPlan := { plan with toStore := [], toDrop := [] }

theorem get?_applied (plan : LayoutPlan) (layouts : OrderedMap String Layout) (name : String) :
    (plan.applied layouts).get? name =
      if name ∈ plan.toDrop then none
      else (plan.toStore.foldl (fun layouts layout => layouts.insert layout.name layout)
        layouts).get? name := by
  have dropped : ∀ (names : List String) (layouts : OrderedMap String Layout),
      (names.foldl OrderedMap.erase layouts).get? name =
        if name ∈ names then none else layouts.get? name := by
    intro names
    induction names with
    | nil => exact fun _ => rfl
    | cons first rest ih =>
      intro layouts
      rw [List.foldl_cons, ih, OrderedMap.get?_erase]
      by_cases same : name = first <;> simp [same]
  exact dropped _ _

/-- What adding one layout leaves under its name. -/
inductive Leaves (name : String) (stored : Option Layout) (plan : LayoutPlan) :
    Option Layout → LayoutPlan → Prop where
  | kept (next : LayoutPlan) (stores : next.toStore = plan.toStore)
      (drops : next.toDrop = plan.toDrop) : Leaves name stored plan stored next
  | stored (next : LayoutPlan) (layout : Layout) (named : layout.name = name)
      (stores : next.toStore = plan.toStore ++ [layout]) (drops : next.toDrop = plan.toDrop) :
      Leaves name stored plan (some layout) next
  | dropped (next : LayoutPlan) (stores : next.toStore = plan.toStore)
      (drops : next.toDrop = plan.toDrop ++ [name]) : Leaves name stored plan none next

variable {layouts : OrderedMap String Layout} {name : String} {stored left : Option Layout}
  {plan next : LayoutPlan}

theorem Leaves.get?_applied (leaves : Leaves name stored plan left next)
    (fresh : name ∉ plan.toDrop) (found : (plan.applied layouts).get? name = stored) :
    (next.applied layouts).get? name = left := by
  cases leaves with
  | kept _ stores drops => rw [← found, applied, applied, stores, drops]
  | stored _ layout named stores drops =>
    rw [LayoutPlan.get?_applied, stores, drops, if_neg fresh, List.foldl_append, ← named]
    exact OrderedMap.get?_insert_self ..
  | dropped _ stores drops =>
    rw [LayoutPlan.get?_applied, drops, if_pos (by simp)]

theorem Leaves.others (leaves : Leaves name stored plan left next)
    (layouts : OrderedMap String Layout) {other : String} (apart : other ≠ name) :
    (next.applied layouts).get? other = (plan.applied layouts).get? other ∧
      (other ∈ next.toDrop ↔ other ∈ plan.toDrop) := by
  cases leaves with
  | kept _ stores drops => simp only [applied, stores, drops, and_self]
  | stored _ layout named stores drops =>
    simp only [LayoutPlan.get?_applied, stores, drops, List.foldl_append, List.foldl_cons,
      List.foldl_nil, OrderedMap.get?_insert, if_neg (named ▸ apart : other ≠ layout.name), and_self]
  | dropped _ stores drops =>
    simp only [LayoutPlan.get?_applied, stores, drops, List.mem_append, List.mem_singleton, apart,
      or_false, and_self]

/-- From what `add` leaves of a layout, `again` adds the same one with nothing to store or drop. -/
def Repeats (nameOf : ι → String)
    (add again : LayoutPlan → ι → Option Layout → Except Error LayoutPlan) : Prop :=
  ∀ ⦃plan item stored next⦄, Sound stored → add plan item stored = .ok next →
    ∃ left, Leaves (nameOf item) stored plan left next ∧ Sound left ∧
      again plan.served item left = .ok next.served

section
variable {nameOf : ι → String}
  {add again : LayoutPlan → ι → Option Layout → Except Error LayoutPlan} {items : List ι}

theorem Repeats.others (repeats : Repeats nameOf add again)
    (done : addEach layouts nameOf add items plan = .ok next)
    (stored : OrderedMap String Layout) {name : String} (outside : name ∉ items.map nameOf) :
    (next.applied stored).get? name = (plan.applied stored).get? name ∧
      (name ∈ next.toDrop ↔ name ∈ plan.toDrop) := by
  induction items generalizing plan with
  | nil =>
    cases done
    exact ⟨rfl, Iff.rfl⟩
  | cons item rest ih =>
    obtain ⟨found, looked, done⟩ := bind_eq_ok_iff.mp done
    obtain ⟨middle, added, done⟩ := bind_eq_ok_iff.mp done
    obtain ⟨left, leaves, _⟩ := repeats (lookUp_eq_ok_iff.mp looked).2 added
    obtain ⟨apart, outside⟩ := not_or.mp fun member => outside (List.mem_cons.mpr member)
    obtain ⟨first, dropped⟩ := leaves.others stored apart
    obtain ⟨second, still⟩ := ih done outside
    exact ⟨second.trans first, still.trans dropped⟩

/-- Layouts that are added from what the plan left are those that were added before. -/
theorem Repeats.addEach_again (repeats : Repeats nameOf add again)
    (distinct : (items.map nameOf).Nodup)
    (fresh : ∀ item ∈ items, nameOf item ∉ plan.toDrop ∧
      (plan.applied layouts).get? (nameOf item) = layouts.get? (nameOf item))
    (done : addEach layouts nameOf add items plan = .ok next) {later : OrderedMap String Layout}
    (held : ∀ item ∈ items, later.get? (nameOf item) = (next.applied layouts).get? (nameOf item)) :
    addEach later nameOf again items plan.served = .ok next.served := by
  induction items generalizing plan with
  | nil =>
    cases done
    rfl
  | cons item rest ih =>
    obtain ⟨stored, looked, done⟩ := bind_eq_ok_iff.mp done
    obtain ⟨middle, added, done⟩ := bind_eq_ok_iff.mp done
    obtain ⟨found, valid⟩ := lookUp_eq_ok_iff.mp looked
    obtain ⟨left, leaves, sound, readded⟩ := repeats valid added
    obtain ⟨⟨free, unchanged⟩, others⟩ := List.forall_mem_cons.mp fresh
    obtain ⟨absent, distinct⟩ := List.nodup_cons.mp distinct
    obtain ⟨here, there⟩ := List.forall_mem_cons.mp held
    have untouched : ∀ other ∈ rest, nameOf other ∉ middle.toDrop ∧
        (middle.applied layouts).get? (nameOf other) = layouts.get? (nameOf other) := by
      intro other member
      have apart : nameOf other ≠ nameOf item := fun same =>
        absent (same ▸ List.mem_map_of_mem member)
      obtain ⟨same, dropped⟩ := leaves.others layouts apart
      obtain ⟨free, unchanged⟩ := others other member
      exact ⟨fun drop => free (dropped.mp drop), same.trans unchanged⟩
    -- The layouts that are added after this one leave it alone.
    rw [(repeats.others done layouts absent).1,
      leaves.get?_applied free (unchanged.trans found)] at here
    rw [addEach, lookUp_eq_ok_iff.mpr ⟨here, sound⟩]
    exact bind_eq_ok_iff.mpr ⟨left, rfl, bind_eq_ok_iff.mpr
      ⟨middle.served, readded, ih distinct untouched done there⟩⟩

end

theorem Leaves.of_same {other : LayoutPlan} (leaves : Leaves name stored plan left next)
    (stores : other.toStore = next.toStore) (drops : other.toDrop = next.toDrop) :
    Leaves name stored plan left other := by
  cases leaves with
  | kept _ before after => exact .kept other (stores.trans before) (drops.trans after)
  | stored _ layout named before after =>
    exact .stored other layout named (stores.trans before) (drops.trans after)
  | dropped _ before after => exact .dropped other (stores.trans before) (drops.trans after)

private theorem storeIfNew_leaves (plan : LayoutPlan) (stored : Option Layout) {computed : Layout}
    (named : computed.name = name) :
    Leaves name stored plan (some computed) (plan.storeIfNew stored computed) := by
  unfold storeIfNew
  split
  · rename_i same
    exact same ▸ .kept plan rfl rfl
  · exact .stored _ computed named rfl rfl

private theorem served_storeIfNew (plan : LayoutPlan) (stored : Option Layout) (computed : Layout) :
    (plan.storeIfNew stored computed).served = plan.served := by
  unfold storeIfNew
  split <;> rfl

variable {table : TableConfig} {options : RebalanceOptions} {servers : List Server}

private theorem addKind_repeats (table : TableConfig) (options : RebalanceOptions)
    (servers : List Server) :
    Repeats (fun kind => kind.layoutName table.name) (addKind table options servers)
      (addKind table { options with reassignInstances := false } servers) := by
  intro plan kind stored next valid done
  simp only [addKind] at done
  split at done
  · split at done
    · obtain ⟨computed, same, done⟩ := bind_eq_ok_iff.mp done
      cases done
      obtain ⟨named, sound⟩ := TableConfig.computeLayout_spec same
      refine ⟨some computed, (storeIfNew_leaves plan stored named).of_same rfl rfl,
        sound_some sound, ?_⟩
      exact congrArg (fun plan => Except.ok
        { plan with layouts := plan.layouts.insert kind computed })
        (served_storeIfNew plan stored computed).symm
    · rename_i unset
      obtain ⟨computed, same, done⟩ := bind_eq_ok_iff.mp done
      cases done
      have none : table.layouts.get? kind = none := by simpa using unset
      refine ⟨.none, ?_, sound_none, ?_⟩
      · cases stored with
        | none => exact .kept _ rfl (List.append_nil _)
        | some layout => exact .dropped _ rfl rfl
      · rw [TableConfig.computeLayout_of_no_settings none _
          options.minimizeMovement.override?] at same
        exact bind_eq_ok_iff.mpr ⟨computed, same, rfl⟩
  · split at done
    · rename_i layout
      cases done
      exact ⟨some layout, .kept _ rfl rfl, valid, rfl⟩
    · obtain ⟨computed, same, done⟩ := bind_eq_ok_iff.mp done
      cases done
      exact ⟨none, .kept _ rfl rfl, sound_none, bind_eq_ok_iff.mpr ⟨computed, same, rfl⟩⟩

private theorem addTier_repeats (table : TableConfig) (options : RebalanceOptions)
    (servers : List Server) :
    Repeats (fun tier => tier.config.layoutName table.name) (addTier table options servers)
      (addTier table { options with reassignInstances := false } servers) := by
  intro plan tier stored next valid done
  simp only [addTier] at done
  split at done
  · obtain ⟨computed, same, done⟩ := bind_eq_ok_iff.mp done
    cases done
    obtain ⟨named, sound⟩ := TableConfig.computeTierLayout_spec same
    refine ⟨some computed, (storeIfNew_leaves plan stored named).of_same rfl rfl, sound_some sound, ?_⟩
    exact congrArg (fun plan => Except.ok
      { plan with tiers := plan.tiers ++ [TierLayout.mk tier computed] })
      (served_storeIfNew plan stored computed).symm
  · split at done
    · rename_i layout
      cases done
      exact ⟨some layout, .kept _ rfl rfl, valid, rfl⟩
    · obtain ⟨computed, same, done⟩ := bind_eq_ok_iff.mp done
      cases done
      exact ⟨none, .kept _ rfl rfl, sound_none, bind_eq_ok_iff.mpr ⟨computed, same, rfl⟩⟩

/-- Every layout of a table has a name of its own. -/
structure NamesApart (table : TableConfig) : Prop where
  kinds : (table.layoutKinds.map fun kind => kind.layoutName table.name).Nodup
  tiers : (table.tiers.map fun tier => tier.layoutName table.name).Nodup
  apart : ∀ kind ∈ table.layoutKinds, ∀ tier ∈ table.tiers,
    kind.layoutName table.name ≠ tier.layoutName table.name

private theorem rawName_append_suffix
    (ends : table.kind.suffix.toList.isSuffixOf table.name.toList = true) :
    (rawName table.name).toList ++ table.kind.suffix.toList = table.name.toList := by
  have cut : ∀ {front suffix chars : List Char}, front ++ suffix = chars →
      chars.take (chars.length - suffix.length) = front := by
    rintro front suffix _ rfl
    simp
  rw [List.isSuffixOf_iff_suffix] at ends
  obtain ⟨front, whole⟩ := ends
  rw [← whole]
  refine congrArg (· ++ _) ?_
  cases kind : table.kind with
  | offline =>
    rw [kind] at whole
    have ends := List.isSuffixOf_iff_suffix.mpr ⟨front, whole⟩
    simp only [rawName, ends, if_true, Option.orElse_some, Option.getD_some, String.toList_ofList]
    exact cut whole
  | realtime =>
    rw [kind] at whole
    have ends := List.isSuffixOf_iff_suffix.mpr ⟨front, whole⟩
    have other : ¬ TableKind.offline.suffix.toList.isSuffixOf table.name.toList = true := by
      intro both
      have inner := List.suffix_of_suffix_length_le (List.isSuffixOf_iff_suffix.mp both)
        ⟨front, whole⟩ (by decide)
      exact absurd inner (by decide)
    simp only [rawName, if_neg other, ends, if_true, Option.orElse_none, Option.getD_some,
      String.toList_ofList]
    exact cut whole

private theorem layoutName_inj {first second : LayoutKind}
    (same : first.layoutName table.name = second.layoutName table.name) : first = second := by
  have texts := congrArg String.toList same
  simp only [LayoutKind.layoutName, String.toList_append] at texts
  have texts := List.append_cancel_left texts
  cases first <;> cases second <;> first | rfl | exact absurd texts (by decide)

theorem namesApart (ends : table.kind.suffix.toList.isSuffixOf table.name.toList = true)
    (unique : (table.tiers.map TierConfig.name).Nodup) : NamesApart table := by
  refine ⟨?_, ?_, ?_⟩
  · refine List.Nodup.map (fun first second same => layoutName_inj same) ?_
    unfold TableConfig.layoutKinds
    split
    · decide
    · split <;> decide
  · have named : table.tiers.map (fun tier => tier.layoutName table.name) =
        (table.tiers.map TierConfig.name).map fun name => table.name ++ "__TIER__" ++ name :=
      (List.map_map ..).symm
    rw [named]
    refine unique.map fun first second same => ?_
    have texts := congrArg String.toList same
    simp only [String.toList_append] at texts
    exact String.toList_injective (List.append_cancel_left texts)
  · intro kind listed tier _ same
    have texts := congrArg String.toList same
    simp only [LayoutKind.layoutName, TierConfig.layoutName, String.toList_append,
      ← rawName_append_suffix ends, List.append_assoc] at texts
    have texts := List.append_cancel_left texts
    -- What follows the raw name differs in length, or in its second character.
    cases tableKind : table.kind with
    | offline =>
      simp only [TableConfig.layoutKinds, tableKind, List.mem_singleton] at listed
      subst listed
      have lengths := congrArg List.length texts
      simp [tableKind, LayoutKind.text, TableKind.suffix] at lengths
    | realtime =>
      have second := congrArg (fun text => text[1]?) texts
      have either : kind = .consuming ∨ kind = .completed := by
        simp only [TableConfig.layoutKinds, tableKind] at listed
        split at listed <;> simp at listed <;> tauto
      rcases either with rfl | rfl <;>
        simp [tableKind, LayoutKind.text, TableKind.suffix] at second

private theorem sort_perm {configs : List TierConfig} {tiers : List Tier}
    (sorted : Tier.sort configs = .ok tiers) : (tiers.map Tier.config).Perm configs := by
  obtain ⟨read, steps, same⟩ := bind_eq_ok_iff.mp sorted
  cases same
  have each : List.Forall₂ (fun config tier => config = Tier.config tier) configs read :=
    forall₂_of_mapM steps fun config _ tier here => by
      cases aged : config.ageSeconds with
      | error error => simp [aged, Except.map] at here
      | ok age =>
        rw [aged] at here
        cases here
        rfl
  have same := List.forall₂_map_right_iff.mpr each
  rw [List.forall₂_eq_eq_eq] at same
  rw [same]
  exact (List.mergeSort_perm ..).map _

private theorem addEach_tiers {nameOf : ι → String}
    {add : LayoutPlan → ι → Option Layout → Except Error LayoutPlan} (tiersOf : ι → List Tier)
    (step : ∀ plan item stored next, add plan item stored = .ok next →
      next.tiers.map TierLayout.tier = plan.tiers.map TierLayout.tier ++ tiersOf item)
    {items : List ι} (done : addEach layouts nameOf add items plan = .ok next) :
    next.tiers.map TierLayout.tier = plan.tiers.map TierLayout.tier ++ items.flatMap tiersOf := by
  induction items generalizing plan with
  | nil =>
    cases done
    exact (List.append_nil _).symm
  | cons item rest ih =>
    obtain ⟨stored, _, done⟩ := bind_eq_ok_iff.mp done
    obtain ⟨middle, added, done⟩ := bind_eq_ok_iff.mp done
    rw [ih done, step plan item stored middle added, List.flatMap_cons, List.append_assoc]

theorem tiers_storeIfNew (plan : LayoutPlan) (stored : Option Layout) (computed : Layout) :
    (plan.storeIfNew stored computed).tiers = plan.tiers := by
  unfold storeIfNew
  split <;> rfl

private theorem tiers_addKind {kind : LayoutKind}
    (done : addKind table options servers plan kind stored = .ok next) : next.tiers = plan.tiers := by
  simp only [addKind] at done
  split at done
  · split at done
    · obtain ⟨_, _, done⟩ := bind_eq_ok_iff.mp done
      cases done
      exact tiers_storeIfNew ..
    · obtain ⟨_, _, done⟩ := bind_eq_ok_iff.mp done
      cases done
      rfl
  · split at done
    · cases done
      rfl
    · obtain ⟨_, _, done⟩ := bind_eq_ok_iff.mp done
      cases done
      rfl

private theorem tiers_addTier {tier : Tier}
    (done : addTier table options servers plan tier stored = .ok next) :
    ∃ layout, next.tiers = plan.tiers ++ [⟨tier, layout⟩] := by
  simp only [addTier] at done
  split at done
  · obtain ⟨computed, _, done⟩ := bind_eq_ok_iff.mp done
    cases done
    exact ⟨computed, congrArg (· ++ _) (tiers_storeIfNew ..)⟩
  · split at done
    · cases done
      exact ⟨_, rfl⟩
    · obtain ⟨_, _, done⟩ := bind_eq_ok_iff.mp done
      cases done
      exact ⟨_, rfl⟩

private theorem tiers_planOf (done : planOf layouts table options servers = .ok plan) :
    Tier.sort table.tiers = .ok (plan.tiers.map TierLayout.tier) := by
  obtain ⟨kinds, first, done⟩ := bind_eq_ok_iff.mp done
  obtain ⟨tiers, sorted, second⟩ := bind_eq_ok_iff.mp done
  have none := addEach_tiers (fun _ => []) (fun _ _ _ _ added => by
    rw [tiers_addKind added, List.append_nil]) first
  have all := addEach_tiers (fun tier => [tier]) (fun _ _ _ _ added => by
    obtain ⟨layout, same⟩ := tiers_addTier added
    rw [same, List.map_append]
    rfl) second
  have empty : table.layoutKinds.flatMap (fun _ => ([] : List Tier)) = [] :=
    List.flatMap_eq_nil_iff.mpr fun _ _ => rfl
  rw [none, empty, List.flatMap_singleton'] at all
  exact sorted.trans (congrArg Except.ok all.symm)

theorem nodup_tierNames (unique : (table.tiers.map TierConfig.name).Nodup)
    (done : planOf layouts table options servers = .ok plan) :
    (plan.tiers.map fun found => found.tier.config.name).Nodup := by
  have names := ((sort_perm (tiers_planOf done)).map TierConfig.name).nodup_iff.mpr unique
  rwa [List.map_map, List.map_map] at names

theorem mem_tierLayouts (unique : (table.tiers.map TierConfig.name).Nodup)
    (done : planOf layouts table options servers = .ok plan) {found : TierLayout}
    (member : found ∈ plan.tiers) : found.layout ∈ plan.tierLayouts.values := by
  have distinct : ((plan.tiers.map fun found => (found.tier.config.name, found.layout)).map
      Prod.fst).Nodup := by
    rw [List.map_map]
    exact nodup_tierNames unique done
  have stored : plan.tierLayouts.get? found.tier.config.name = some found.layout :=
    OrderedMap.get?_insertAll_of_mem distinct (List.mem_map_of_mem member)
  exact List.mem_map.mpr ⟨_, OrderedMap.get?_eq_some_iff.mp stored, rfl⟩

/-- What was planned is planned again once it is carried out, with nothing to store or to drop. -/
theorem planOf_again (apart : NamesApart table)
    (done : planOf layouts table options servers = .ok plan) :
    planOf (plan.applied layouts) table { options with reassignInstances := false } servers =
      .ok plan.served := by
  obtain ⟨kinds, first, done⟩ := bind_eq_ok_iff.mp done
  obtain ⟨tiers, sorted, second⟩ := bind_eq_ok_iff.mp done
  have perm := sort_perm sorted
  have distinct : (tiers.map fun tier => tier.config.layoutName table.name).Nodup := by
    have named := (perm.map fun tier => tier.layoutName table.name).nodup_iff.mpr apart.tiers
    rwa [List.map_map] at named
  have other : ∀ tier ∈ tiers, tier.config.layoutName table.name ∉
      table.layoutKinds.map fun kind => kind.layoutName table.name := by
    intro tier member named
    obtain ⟨kind, listed, same⟩ := List.mem_map.mp named
    exact apart.apart kind listed tier.config (perm.mem_iff.mp (List.mem_map_of_mem member)) same
  have kindsRepeat := addKind_repeats table options servers
  have tiersRepeat := addTier_repeats table options servers
  have fresh : ∀ tier ∈ tiers, tier.config.layoutName table.name ∉ kinds.toDrop ∧
      (kinds.applied layouts).get? (tier.config.layoutName table.name) =
        layouts.get? (tier.config.layoutName table.name) := by
    intro tier member
    obtain ⟨same, dropped⟩ := kindsRepeat.others first layouts (other tier member)
    exact ⟨fun drop => List.not_mem_nil (dropped.mp drop), same⟩
  have kept : ∀ kind ∈ table.layoutKinds, (plan.applied layouts).get? (kind.layoutName table.name) =
      (kinds.applied layouts).get? (kind.layoutName table.name) := by
    intro kind member
    refine (tiersRepeat.others second layouts fun named => ?_).1
    obtain ⟨tier, listed, same⟩ := List.mem_map.mp named
    exact other tier listed (List.mem_map.mpr ⟨kind, member, same.symm⟩)
  exact bind_eq_ok_iff.mpr ⟨kinds.served,
    kindsRepeat.addEach_again apart.kinds (fun _ _ => ⟨List.not_mem_nil, rfl⟩) first kept,
    bind_eq_ok_iff.mpr ⟨tiers, sorted,
      tiersRepeat.addEach_again distinct fresh second fun _ _ => rfl⟩⟩

end LayoutPlan

end SegmentPlacement

import SegmentPlacement.Proofs.FilledLayout
import SegmentPlacement.Proofs.GatheredMap

/-! Fills that may be refused. A refused fill changes nothing, so a slot holds the
servers of the last fill that was accepted for it, and nothing if there was none.
Nothing is stored anywhere else, which is why counting what is stored counts slots. -/

namespace SegmentPlacement

namespace OrderedMap
open Std

variable {κ : Type} {β : Type} {entries : List (κ × β)} {key : κ} {value : β}

private theorem exists_last_of_mem (member : key ∈ entries.map Prod.fst) :
    ∃ earlier value later, entries = earlier ++ (key, value) :: later ∧
      key ∉ later.map Prod.fst := by
  induction entries with
  | nil => cases member
  | cons first rest ih =>
    by_cases again : key ∈ rest.map Prod.fst
    · obtain ⟨earlier, value, later, same, last⟩ := ih again
      exact ⟨first :: earlier, value, later, congrArg _ same, last⟩
    · have here : key = first.1 := (List.mem_cons.mp member).resolve_right again
      exact ⟨[], first.2, rest, by rw [here, List.nil_append], again⟩

variable [Ord κ] [TransOrd κ] [LawfulEqOrd κ]

theorem get?_insertAll_of_last (map : OrderedMap κ β) (earlier : List (κ × β)) (value : β)
    {later : List (κ × β)} (last : key ∉ later.map Prod.fst) :
    (map.insertAll (earlier ++ (key, value) :: later)).get? key = some value := by
  rw [insertAll, List.foldl_append, List.foldl_cons]
  exact (get?_insertAll_of_not_mem last).trans (get?_insert_self ..)

theorem get?_ofList_eq_some_iff : (ofList entries).get? key = some value ↔
    ∃ earlier later, entries = earlier ++ (key, value) :: later ∧ key ∉ later.map Prod.fst := by
  constructor
  · intro found
    have member : key ∈ entries.map Prod.fst := by
      by_contra absent
      rw [ofList, get?_insertAll_of_not_mem absent] at found
      cases found
    obtain ⟨earlier, other, later, same, last⟩ := exists_last_of_mem member
    have held := get?_insertAll_of_last empty earlier other last
    rw [← same] at held
    obtain rfl := Option.some.inj (held.symm.trans found)
    exact ⟨earlier, later, same, last⟩
  · rintro ⟨earlier, later, rfl, last⟩
    exact get?_insertAll_of_last empty earlier value last

end OrderedMap

namespace Layout

def Fill.IsFor (fill : Fill) (partition group : Nat) : Prop :=
  fill.partition = partition ∧ fill.group = group

instance (fill : Fill) (numPartitions numGroups : Nat) :
    Decidable (fill.Fits numPartitions numGroups) :=
  decidable_of_iff
    ((fill.partition < numPartitions ∧ fill.group < numGroups) ∧ fill.servers ≠ [] ∧
      fill.servers.Nodup)
    ⟨fun ⟨⟨partition, group⟩, filled, distinct⟩ => ⟨partition, group, filled, distinct⟩,
      fun fits => ⟨⟨fits.partition, fits.group⟩, fits.filled, fits.distinct⟩⟩

/-- A layout after some fills, and those of them that were accepted. -/
structure Tried where
  layout : Layout
  accepted : List Fill := []

namespace Tried

def next (tried : Tried) (fill : Fill) : Tried :=
  match tried.layout.setServers fill.partition fill.group fill.servers with
  | .ok filled => ⟨filled, tried.accepted ++ [fill]⟩
  | .error _ => tried

def after (tried : Tried) (fills : List Fill) : Tried := fills.foldl next tried

end Tried

/-- What is to be seen of a layout after the accepted fills. -/
structure Shows (layout : Layout) (numPartitions numGroups : Nat) (accepted : List Fill) : Prop where
  /-- A slot holds the servers of its last fill. -/
  latest : ∀ partition group servers, layout.servers? partition group = some servers ↔
    ∃ earlier later, accepted = earlier ++ ⟨partition, group, servers⟩ :: later ∧
      ∀ fill ∈ later, ¬ fill.IsFor partition group
  unset : ∀ partition group, layout.servers? partition group = none ↔
    ∀ fill ∈ accepted, ¬ fill.IsFor partition group
  complete : layout.isComplete = true ↔ ∀ partition < numPartitions, ∀ group < numGroups,
    ∃ fill ∈ accepted, fill.IsFor partition group
  /-- A server is counted once for every slot that lists it. -/
  counts : ∀ server,
    let number := (slotNumbers numPartitions numGroups).countP fun slot =>
      server ∈ (layout.servers? slot.1 slot.2).getD []
    layout.slotCounts.get? server = if number = 0 then none else some number

variable {layout : Layout}

section counting

private theorem countP_values (tidy : ∀ stored, ¬ layout.Stray stored) (server : String) :
    layout.slots.values.countP (fun servers => server ∈ servers) =
      (slotNumbers layout.numPartitions layout.numGroups).countP fun slot =>
        server ∈ (layout.servers? slot.1 slot.2).getD [] := by
  rw [OrderedMap.values, List.countP_map, (entries_perm tidy).countP_eq, List.countP_map,
    List.countP_filter]
  refine List.countP_congr fun slot _ => ?_
  simp only [Function.comp_apply, Bool.and_eq_true, decide_eq_true_eq, and_iff_left_iff_imp]
  intro listed
  cases found : layout.servers? slot.1 slot.2 with
  | none => simp [found] at listed
  | some servers => rfl

theorem get?_slotCounts (distinct : ∀ servers ∈ layout.slots.values, servers.Nodup)
    (server : String) :
    let number := layout.slots.values.countP fun servers => server ∈ servers
    layout.slotCounts.get? server = if number = 0 then none else some number := by
  intro number
  have gathered : layout.slotCounts = OrderedMap.gather (fun _ => 0) (fun count (_ : Unit) => count + 1)
      {} (layout.slots.values.flatMap fun servers => servers.map fun server => (server, ())) := by
    rw [← OrderedMap.foldl_sources, slotCounts, List.foldl_flatten]
    rfl
  have none : ({} : OrderedMap String Nat).get? server = none := rfl
  rw [gathered, OrderedMap.get?_gather, OrderedMap.itemsOf_flatMap_of_nodup distinct, none,
    Option.getD_none, List.foldl_add_const, List.length_map, ← List.countP_eq_length_filter,
    Nat.zero_add, Nat.one_mul]
  refine if_congr ?_ rfl rfl
  rw [List.map_eq_nil_iff, ← List.length_eq_zero_iff, ← List.countP_eq_length_filter]

end counting

section fills

variable {empty : Layout} {name : String} {numPartitions numGroups : Nat} {accepted : List Fill}

theorem setServers_isOk_iff {fill : Fill} :
    (∃ next, layout.setServers fill.partition fill.group fill.servers = .ok next) ↔
      fill.Fits layout.numPartitions layout.numGroups := by
  constructor
  · intro ⟨next, set⟩
    obtain ⟨⟨partition, group, filled, distinct⟩, _⟩ := setServers_eq_ok_iff.mp set
    exact ⟨partition, group, filled, distinct⟩
  · intro fits
    exact ⟨_, setServers_eq_ok_iff.mpr
      ⟨⟨fits.partition, fits.group, fits.filled, fits.distinct⟩, rfl⟩⟩

theorem Tried.next_spec {tried : Tried} (made : empty.setAll tried.accepted = .ok tried.layout)
    (fill : Fill) :
    (tried.next fill).accepted = tried.accepted ++
        [fill].filter (fun fill => fill.Fits empty.numPartitions empty.numGroups) ∧
      empty.setAll (tried.next fill).accepted = .ok (tried.next fill).layout := by
  have same : fill.Fits tried.layout.numPartitions tried.layout.numGroups ↔
      fill.Fits empty.numPartitions empty.numGroups := by
    rw [(setAll_eq_ok_iff.mp made).2]
  unfold Tried.next
  cases set : tried.layout.setServers fill.partition fill.group fill.servers with
  | ok filled =>
    have fits := same.mp (setServers_isOk_iff.mp ⟨filled, set⟩)
    refine ⟨by simp [fits], ?_⟩
    change (tried.accepted ++ [fill]).foldlM _ empty = _
    rw [List.foldlM_append, bind_eq_ok_iff]
    exact ⟨tried.layout, made, by rw [List.foldlM_cons, set]; rfl⟩
  | error error =>
    have refused : ¬ fill.Fits empty.numPartitions empty.numGroups := by
      intro fits
      obtain ⟨next, accepted⟩ := setServers_isOk_iff.mpr (same.mpr fits)
      rw [set] at accepted
      cases accepted
    exact ⟨by simp [refused], made⟩

theorem Tried.after_spec {tried : Tried} (made : empty.setAll tried.accepted = .ok tried.layout)
    (fills : List Fill) :
    (tried.after fills).accepted = tried.accepted ++
        fills.filter (fun fill => fill.Fits empty.numPartitions empty.numGroups) ∧
      empty.setAll (tried.after fills).accepted = .ok (tried.after fills).layout := by
  induction fills generalizing tried with
  | nil => exact ⟨(List.append_nil _).symm, made⟩
  | cons fill rest ih =>
    obtain ⟨first, made⟩ := Tried.next_spec made fill
    obtain ⟨later, made⟩ := ih made
    refine ⟨later.trans ?_, made⟩
    rw [first, List.append_assoc, ← List.filter_append, List.singleton_append]

theorem Fill.entry_eq_iff {fill : Fill} {partition group : Nat} {servers : List String} :
    fill.entry = (key partition group, servers) ↔ fill = ⟨partition, group, servers⟩ := by
  obtain ⟨ownPartition, ownGroup, own⟩ := fill
  simp only [entry, Prod.mk.injEq, key_inj, Fill.mk.injEq, and_assoc]

theorem key_not_mem_iff {fills : List Fill} {partition group : Nat} :
    key partition group ∉ (fills.map Fill.entry).map Prod.fst ↔
      ∀ fill ∈ fills, ¬ fill.IsFor partition group := by
  simp only [List.map_map, List.mem_map, not_exists, not_and, Function.comp_apply, Fill.entry,
    key_inj, Fill.IsFor]

private theorem slots_of_setAll (created : create name numPartitions numGroups = .ok empty)
    (made : empty.setAll accepted = .ok layout) :
    layout = { name, numPartitions, numGroups, slots := .ofList (accepted.map Fill.entry) } := by
  obtain ⟨_, rfl⟩ := create_eq_ok_iff.mp created
  exact (setAll_eq_ok_iff.mp made).2

private theorem shows_of_setAll (created : create name numPartitions numGroups = .ok empty)
    (made : empty.setAll accepted = .ok layout) : layout.Shows numPartitions numGroups accepted := by
  have stored := slots_of_setAll created made
  have fitting := @exists_fits_of_setAll _ _ _ _ _ _ created made
  have latest (partition group : Nat) (servers : List String) :
      layout.servers? partition group = some servers ↔
        ∃ earlier later, accepted = earlier ++ ⟨partition, group, servers⟩ :: later ∧
          ∀ fill ∈ later, ¬ fill.IsFor partition group := by
    rw [stored, servers?, OrderedMap.get?_ofList_eq_some_iff]
    constructor
    · rintro ⟨_, _, split, last⟩
      obtain ⟨earlier, rest, same, rfl, listed⟩ := List.map_eq_append_iff.mp split
      obtain ⟨fill, later, rfl, entry, rfl⟩ := List.map_eq_cons_iff.mp listed
      obtain rfl := Fill.entry_eq_iff.mp entry
      exact ⟨earlier, later, same, key_not_mem_iff.mp last⟩
    · rintro ⟨earlier, later, same, last⟩
      exact ⟨earlier.map Fill.entry, later.map Fill.entry, by rw [same, List.map_append]; rfl,
        key_not_mem_iff.mpr last⟩
  have unset (partition group : Nat) : layout.servers? partition group = none ↔
      ∀ fill ∈ accepted, ¬ fill.IsFor partition group := by
    rw [← key_not_mem_iff, stored, servers?]
    refine ⟨fun none listed => ?_, fun absent => OrderedMap.get?_insertAll_of_not_mem absent⟩
    obtain ⟨servers, held⟩ :=
      OrderedMap.mem_keys_iff.mp (OrderedMap.mem_keys_insertAll.mpr (Or.inr listed))
    cases none.symm.trans held
  have partitions : layout.numPartitions = numPartitions := by rw [stored]
  have groups : layout.numGroups = numGroups := by rw [stored]
  refine ⟨latest, unset, ?_, fun server => ?_⟩
  · rw [isComplete_iff, partitions, groups]
    refine forall₂_congr fun partition _ => forall₂_congr fun group _ => ?_
    constructor
    · rintro ⟨servers, held, _⟩
      by_contra none
      cases held.symm.trans ((unset partition group).mpr (by simpa using none))
    · rintro ⟨fill, listed, same⟩
      obtain ⟨servers, held⟩ := Option.ne_none_iff_exists'.mp fun none =>
        (unset partition group).mp none fill listed same
      obtain ⟨latest, _, fits, entry⟩ := fitting held
      exact ⟨servers, held, (Prod.mk.inj entry).2 ▸ fits.filled⟩
  · have distinct : ∀ servers ∈ layout.slots.values, servers.Nodup := by
      intro servers listed
      obtain ⟨key, held⟩ := OrderedMap.mem_values_iff.mp listed
      obtain ⟨fill, _, fits, entry⟩ := fitting held
      exact (Prod.mk.inj entry).2 ▸ fits.distinct
    have tidy (key : String) : ¬ layout.Stray key := not_stray_iff.mpr fun listed => by
      obtain ⟨servers, held⟩ := OrderedMap.mem_keys_iff.mp listed
      obtain ⟨fill, _, fits, entry⟩ := fitting held
      exact ⟨_, partitions ▸ fits.partition, _, groups ▸ fits.group, (Prod.mk.inj entry).1.symm⟩
    have number := countP_values tidy server
    rw [partitions, groups] at number
    rw [get?_slotCounts distinct server, number]

end fills

/-- Whatever fills are tried on an empty layout, those that fit are accepted, the others change
nothing, and the layout shows what was accepted. -/
theorem tried_shows (name : String) {numPartitions numGroups : Nat} (partitions : 0 < numPartitions)
    (groups : 0 < numGroups) (fills : List Fill) :
    ∃ empty, create name numPartitions numGroups = .ok empty ∧
      let tried := Tried.after { layout := empty } fills
      tried.accepted = fills.filter (fun fill => fill.Fits numPartitions numGroups) ∧
      empty.setAll tried.accepted = .ok tried.layout ∧
      tried.layout.Shows numPartitions numGroups tried.accepted := by
  obtain ⟨empty, created⟩ : ∃ empty, create name numPartitions numGroups = .ok empty :=
    ⟨_, create_eq_ok_iff.mpr ⟨⟨partitions, groups⟩, rfl⟩⟩
  have begun : empty.setAll [] = .ok empty := rfl
  obtain ⟨accepted, made⟩ := @Tried.after_spec empty { layout := empty } begun fills
  refine ⟨empty, created, ?_, made, shows_of_setAll created made⟩
  obtain ⟨_, rfl⟩ := create_eq_ok_iff.mp created
  exact accepted

/-- Three of these fills fit two slots, and the last of them replaces the first. -/
def slotFills : List Fill :=
  [⟨0, 0, ["a"]⟩, ⟨2, 0, ["a"]⟩, ⟨0, 0, ["b", "b"]⟩, ⟨1, 0, ["a", "b"]⟩, ⟨0, 0, ["b"]⟩, ⟨1, 0, []⟩]

theorem slotFills_shown : (0 < 2 ∧ 0 < 1) ∧ ∃ empty, create "t" 2 1 = .ok empty ∧
    let tried := Tried.after { layout := empty } slotFills
    tried.accepted.map Fill.entry = [("0_0", ["a"]), ("1_0", ["a", "b"]), ("0_0", ["b"])] ∧
      tried.layout.Shows 2 1 tried.accepted ∧ tried.layout.servers? 0 0 = some ["b"] ∧
      tried.layout.isComplete = true ∧ tried.layout.slotCounts.get? "b" = some 2 := by
  have sizes : 0 < 2 ∧ 0 < 1 := by decide
  obtain ⟨empty, created, accepted, _, shows⟩ := tried_shows "t" sizes.1 sizes.2 slotFills
  have same := (create_eq_ok_iff.mp created).2
  refine ⟨sizes, empty, created, ?_, shows, ?_⟩
  · rw [accepted]
    decide +kernel
  · rw [same]
    decide +kernel

end Layout

end SegmentPlacement

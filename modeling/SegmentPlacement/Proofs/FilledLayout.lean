import Mathlib.Data.List.ProdSigma
import SegmentPlacement.Proofs.Chains
import SegmentPlacement.Proofs.LayoutSlots

/-! Layouts that were read from outside, beside those that were filled slot by slot.
The checks ask the same of the slots in range as filling them does. What they do not
look at is where else something is stored: a layout may pass them with servers under
keys that belong to none of its slots. -/

namespace SegmentPlacement.Layout

/-- The servers that one slot is to hold. -/
structure Fill where
  partition : Nat
  group : Nat
  servers : List String
  deriving Inhabited

namespace Fill

def entry (fill : Fill) : String × List String := (key fill.partition fill.group, fill.servers)

/-- A slot in range, with distinct servers for it, of which there is one. -/
structure Fits (fill : Fill) (numPartitions numGroups : Nat) : Prop where
  partition : fill.partition < numPartitions
  group : fill.group < numGroups
  filled : fill.servers ≠ []
  distinct : fill.servers.Nodup

end Fill

/-- Fills slots one after the other, and ends with the first one that is refused. -/
def setAll (layout : Layout) (fills : List Fill) : Except Error Layout :=
  fills.foldlM (fun layout fill => layout.setServers fill.partition fill.group fill.servers) layout

/-- An empty layout becomes this one when its slots are filled, each of them at least once. -/
def Constructible (layout : Layout) : Prop :=
  ∃ fills empty, create layout.name layout.numPartitions layout.numGroups = .ok empty ∧
    empty.setAll fills = .ok layout ∧
    ∀ partition < layout.numPartitions, ∀ group < layout.numGroups,
      ∃ fill ∈ fills, fill.partition = partition ∧ fill.group = group

/-- A key under which something is stored although no slot has it. -/
def Stray (layout : Layout) (stored : String) : Prop :=
  stored ∈ layout.slots.keys ∧
    ∀ partition < layout.numPartitions, ∀ group < layout.numGroups, stored ≠ key partition group

/-- Every slot is there, and all that is stored belongs to a slot and lists distinct servers. -/
structure Proper (layout : Layout) : Prop where
  partitions : 0 < layout.numPartitions
  groups : 0 < layout.numGroups
  present : ∀ partition < layout.numPartitions, ∀ group < layout.numGroups,
    ∃ servers, layout.servers? partition group = some servers
  stored : ∀ stored servers, layout.slots.get? stored = some servers →
    (∃ partition < layout.numPartitions, ∃ group < layout.numGroups,
      stored = key partition group) ∧ servers ≠ [] ∧ servers.Nodup

variable {layout : Layout}

theorem create_eq_ok_iff {name : String} {numPartitions numGroups : Nat} :
    create name numPartitions numGroups = .ok layout ↔
      (0 < numPartitions ∧ 0 < numGroups) ∧
        layout = { name, numPartitions, numGroups, slots := {} } := by
  unfold create
  split
  · rename_i missing
    constructor
    · intro created
      cases created
    · intro ⟨sizes, _⟩
      omega
  · rename_i sizes
    rw [Except.ok.injEq, eq_comm]
    exact ⟨fun same => ⟨by omega, same⟩, And.right⟩

theorem setAll_eq_ok_iff {next : Layout} {fills : List Fill} : layout.setAll fills = .ok next ↔
    (∀ fill ∈ fills, fill.Fits layout.numPartitions layout.numGroups) ∧
      next = { layout with slots := layout.slots.insertAll (fills.map Fill.entry) } := by
  induction fills generalizing layout with
  | nil => simp [setAll, OrderedMap.insertAll, pure, Except.pure, eq_comm]
  | cons fill rest ih =>
    rw [setAll, List.foldlM_cons, bind_eq_ok_iff, List.forall_mem_cons]
    constructor
    · rintro ⟨middle, set, later⟩
      obtain ⟨⟨partition, group, filled, distinct⟩, rfl⟩ := setServers_eq_ok_iff.mp set
      obtain ⟨fits, same⟩ := ih.mp later
      exact ⟨⟨⟨partition, group, filled, distinct⟩, fits⟩, same⟩
    · rintro ⟨⟨fits, others⟩, same⟩
      refine ⟨_, setServers_eq_ok_iff.mpr ⟨⟨fits.partition, fits.group, fits.filled, ?_⟩, rfl⟩,
        ih.mpr ⟨others, same⟩⟩
      exact fits.distinct

theorem exists_fits_of_setAll {empty : Layout} {name : String} {numPartitions numGroups : Nat}
    {fills : List Fill} (created : create name numPartitions numGroups = .ok empty)
    (filled : empty.setAll fills = .ok layout) {stored : String} {servers : List String}
    (held : layout.slots.get? stored = some servers) :
    ∃ fill ∈ fills, fill.Fits numPartitions numGroups ∧ fill.entry = (stored, servers) := by
  obtain ⟨_, rfl⟩ := create_eq_ok_iff.mp created
  obtain ⟨fits, same⟩ := setAll_eq_ok_iff.mp filled
  rw [same] at held
  rcases OrderedMap.get?_insertAll_cases held with none | entered
  · cases none
  · obtain ⟨fill, member, entry⟩ := List.mem_map.mp entered
    exact ⟨fill, member, fits fill member, entry⟩

private theorem Constructible.exists_fits (built : layout.Constructible) {stored : String}
    {servers : List String} (held : layout.slots.get? stored = some servers) :
    ∃ fill : Fill, fill.Fits layout.numPartitions layout.numGroups ∧
      fill.entry = (stored, servers) := by
  obtain ⟨fills, empty, created, filled, _⟩ := built
  obtain ⟨fill, _, fits, entry⟩ := exists_fits_of_setAll created filled held
  exact ⟨fill, fits, entry⟩

theorem Constructible.proper (built : layout.Constructible) : layout.Proper := by
  have fitting := @built.exists_fits
  obtain ⟨fills, empty, created, filled, covered⟩ := built
  obtain ⟨⟨partitions, groups⟩, rfl⟩ := create_eq_ok_iff.mp created
  obtain ⟨_, same⟩ := setAll_eq_ok_iff.mp filled
  refine ⟨partitions, groups, ?_, ?_⟩
  · intro partition inside group within
    obtain ⟨fill, member, rfl, rfl⟩ := covered partition inside group within
    have entered : fill.entry ∈ fills.map Fill.entry := List.mem_map_of_mem member
    have listed : key fill.partition fill.group ∈ layout.slots.keys := by
      rw [same]
      exact OrderedMap.mem_keys_insertAll.mpr (Or.inr (List.mem_map_of_mem entered))
    exact OrderedMap.mem_keys_iff.mp listed
  · intro stored servers held
    obtain ⟨fill, fits, entry⟩ := fitting held
    obtain ⟨rfl, rfl⟩ := Prod.mk.inj entry
    exact ⟨⟨_, fits.partition, _, fits.group, rfl⟩, fits.filled, fits.distinct⟩

private theorem Proper.constructible (proper : layout.Proper) : layout.Constructible := by
  have fitting : ∀ entry ∈ layout.slots.entries, ∃ fill : Fill,
      fill.Fits layout.numPartitions layout.numGroups ∧ fill.entry = entry := by
    intro (stored, servers) member
    obtain ⟨⟨partition, inside, group, within, rfl⟩, some, distinct⟩ :=
      proper.stored stored servers (OrderedMap.get?_eq_some_iff.mpr member)
    exact ⟨⟨partition, group, servers⟩, ⟨inside, within, some, distinct⟩, rfl⟩
  choose! fill fits same using fitting
  have entries : (layout.slots.entries.map fill).map Fill.entry = layout.slots.entries := by
    rw [List.map_map]
    exact (List.map_congr_left same).trans (List.map_id _)
  refine ⟨layout.slots.entries.map fill, _,
    create_eq_ok_iff.mpr ⟨⟨proper.partitions, proper.groups⟩, rfl⟩,
    setAll_eq_ok_iff.mpr ⟨List.forall_mem_map.mpr fits, ?_⟩, ?_⟩
  · rw [entries]
    exact congrArg (fun slots => { layout with slots })
      (OrderedMap.ofList_entries layout.slots).symm
  · intro partition inside group within
    obtain ⟨servers, held⟩ := proper.present partition inside group within
    have member := OrderedMap.get?_eq_some_iff.mp held
    obtain ⟨one, other⟩ := key_inj.mp (Prod.mk.inj (same _ member)).1
    exact ⟨fill (key partition group, servers), List.mem_map_of_mem member, one, other⟩

theorem not_stray_iff {stored : String} : ¬ layout.Stray stored ↔
    (stored ∈ layout.slots.keys → ∃ partition < layout.numPartitions, ∃ group < layout.numGroups,
      stored = key partition group) := by
  rw [Stray, not_and]
  push Not
  rfl

/-- A layout is proper when it passes its checks and nothing in it is astray. -/
theorem proper_iff : layout.Proper ↔ layout.Valid ∧ ∀ stored, ¬ layout.Stray stored := by
  constructor
  · intro proper
    refine ⟨⟨proper.partitions, proper.groups, ?_, fun stored servers held =>
      (proper.stored stored servers held).2.2⟩, ?_⟩
    · intro partition inside group within
      obtain ⟨servers, held⟩ := proper.present partition inside group within
      exact ⟨servers, held, (proper.stored _ _ held).2.1⟩
    · refine fun stored => not_stray_iff.mpr fun listed => ?_
      obtain ⟨servers, held⟩ := OrderedMap.mem_keys_iff.mp listed
      exact (proper.stored stored servers held).1
  · intro ⟨valid, tidy⟩
    refine ⟨valid.partitions, valid.groups, ?_, ?_⟩
    · intro partition inside group within
      obtain ⟨servers, held, _⟩ := valid.filled partition inside group within
      exact ⟨servers, held⟩
    · intro stored servers held
      obtain ⟨partition, inside, group, within, rfl⟩ :=
        not_stray_iff.mp (tidy stored) (OrderedMap.mem_keys_iff.mpr ⟨servers, held⟩)
      obtain ⟨others, found, some⟩ := valid.filled partition inside group within
      rw [servers?, held] at found
      cases found
      exact ⟨⟨partition, inside, group, within, rfl⟩, some, valid.distinct _ _ held⟩

def slotNumbers (numPartitions numGroups : Nat) : List (Nat × Nat) :=
  List.range numPartitions ×ˢ List.range numGroups

theorem mem_slotNumbers {numPartitions numGroups : Nat} {slot : Nat × Nat} :
    slot ∈ slotNumbers numPartitions numGroups ↔ slot.1 < numPartitions ∧ slot.2 < numGroups :=
  List.mem_product.trans (List.mem_range.and List.mem_range)

theorem entries_perm (tidy : ∀ stored, ¬ layout.Stray stored) : layout.slots.entries.Perm
    (((slotNumbers layout.numPartitions layout.numGroups).filter fun slot =>
        (layout.servers? slot.1 slot.2).isSome).map fun slot =>
      (key slot.1 slot.2, (layout.servers? slot.1 slot.2).getD [])) := by
  have once : (slotNumbers layout.numPartitions layout.numGroups).Nodup :=
    List.nodup_range.product List.nodup_range
  have apart : Function.Injective fun slot : Nat × Nat =>
      (key slot.1 slot.2, (layout.servers? slot.1 slot.2).getD []) := by
    intro first second same
    exact Prod.ext_iff.mpr (key_inj.mp (congrArg Prod.fst same))
  refine (List.perm_ext_iff_of_nodup (OrderedMap.nodup_entries _)
    ((once.filter _).map apart)).mpr fun (stored, servers) => ?_
  simp only [List.mem_map, List.mem_filter, mem_slotNumbers, Prod.exists, Prod.mk.injEq]
  rw [← OrderedMap.get?_eq_some_iff]
  constructor
  · intro held
    obtain ⟨partition, known, group, inside, rfl⟩ :=
      not_stray_iff.mp (tidy stored) (OrderedMap.mem_keys_iff.mpr ⟨servers, held⟩)
    have found : layout.servers? partition group = some servers := held
    exact ⟨partition, group, ⟨⟨known, inside⟩, by rw [found]; rfl⟩, rfl, by rw [found]; rfl⟩
  · intro ⟨partition, group, ⟨_, filled⟩, same, listed⟩
    subst same listed
    obtain ⟨servers, found⟩ := Option.isSome_iff_exists.mp filled
    rw [found]
    exact found

private theorem Proper.allServers_eq (proper : layout.Proper) : layout.allServers =
    OrderedMap.ofKeys ((List.range layout.numGroups).flatMap layout.groupMembers) := by
  refine OrderedMap.ofKeys_eq_ofKeys fun server => ?_
  simp only [List.mem_flatten, OrderedMap.mem_values_iff, List.mem_flatMap, List.mem_range,
    mem_groupMembers]
  constructor
  · rintro ⟨servers, ⟨stored, held⟩, listed⟩
    obtain ⟨⟨partition, inside, group, within, rfl⟩, _⟩ := proper.stored stored servers held
    refine ⟨group, within, partition, inside, ?_⟩
    rwa [servers?, held]
  · rintro ⟨group, _, partition, _, listed⟩
    cases held : layout.servers? partition group with
    | none => simp [held] at listed
    | some servers => exact ⟨servers, ⟨_, held⟩, by simpa [held] using listed⟩

/-- What checking is to tell of a layout: it passes exactly if it can be made by filling slots, and
then its servers are those of its groups. -/
def ChecksTell (layout : Layout) : Prop :=
  (layout.validate = .ok () ↔ layout.Constructible) ∧
    (layout.validate = .ok () → layout.allServers =
      OrderedMap.ofKeys ((List.range layout.numGroups).flatMap layout.groupMembers))

/-- Filling slots makes exactly the proper layouts. The checks tell them apart exactly as long as
they do not pass a layout with a stray key. -/
theorem checksTell_iff (layout : Layout) :
    (layout.Constructible ↔ layout.Proper) ∧
      (layout.ChecksTell ↔ (layout.validate = .ok () → ∀ stored, ¬ layout.Stray stored)) := by
  refine ⟨⟨Constructible.proper, Proper.constructible⟩, ?_, ?_⟩
  · intro ⟨passes, _⟩ passed
    exact (proper_iff.mp (passes.mp passed).proper).2
  · intro tidy
    have proper : layout.validate = .ok () → layout.Proper := fun passed =>
      proper_iff.mpr ⟨validate_iff.mp passed, tidy passed⟩
    refine ⟨⟨fun passed => (proper passed).constructible, fun built => ?_⟩,
      fun passed => (proper passed).allServers_eq⟩
    exact validate_iff.mpr (proper_iff.mp built.proper).1

/-- Two groups over one partition, with nothing astray. -/
def pairedLayout : Layout :=
  { name := "t", numPartitions := 1, numGroups := 2
    slots := .ofList [("0_0", ["a", "b"]), ("0_1", ["c"])] }

theorem pairedLayout_checksTell : pairedLayout.validate = .ok () ∧ pairedLayout.ChecksTell := by
  have passed : pairedLayout.validate = .ok () := by decide +kernel
  refine ⟨passed, (checksTell_iff pairedLayout).2.mpr ?_⟩
  rintro _ stored ⟨listed, apart⟩
  have known : pairedLayout.slots.keys = [key 0 0, key 0 1] := by decide +kernel
  rw [known] at listed
  rcases List.mem_cons.mp listed with rfl | listed
  · exact apart 0 (by decide) 0 (by decide) rfl
  · obtain rfl := List.mem_singleton.mp listed
    exact apart 0 (by decide) 1 (by decide) rfl

/-- One slot, and servers under the key of a second one. -/
def strayLayout : Layout :=
  { name := "t", numPartitions := 1, numGroups := 1
    slots := .ofList [("0_0", ["a"]), ("1_0", ["b"])] }

/-- Its checks pass, although nothing that fills slots stores anything there. -/
theorem not_all_checksTell : ¬ ∀ layout : Layout, layout.ChecksTell := by
  intro tell
  obtain ⟨passes, _⟩ := tell strayLayout
  have passed : strayLayout.validate = .ok () := by decide +kernel
  have listed : key 1 0 ∈ strayLayout.slots.keys := by decide +kernel
  refine (proper_iff.mp (passes.mp passed).proper).2 (key 1 0) ⟨listed, ?_⟩
  intro partition inside group _ same
  obtain rfl := Nat.lt_one_iff.mp inside
  exact absurd (key_inj.mp same).1 (by decide)

end SegmentPlacement.Layout

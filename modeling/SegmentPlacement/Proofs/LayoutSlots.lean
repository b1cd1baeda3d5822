import SegmentPlacement.Layout.Basic
import SegmentPlacement.Proofs.OrderedMap
import Mathlib.Data.List.Basic
import Std.Data.String.ToNat

/-! Layouts slot by slot. Different slots have different keys, so filling one of
them leaves the others as they are, and a layout that passes its checks has
distinct servers in every slot. -/

namespace SegmentPlacement.Layout

private theorem underscore_not_mem_repr (number : Nat) : '_' ∉ number.repr.toList := by
  intro member
  rw [Nat.toList_repr] at member
  have digit := Nat.isDigit_of_mem_toDigits (by decide) (by decide) member
  exact absurd digit (by decide)

theorem key_inj {partition group otherPartition otherGroup : Nat} :
    key partition group = key otherPartition otherGroup ↔
      partition = otherPartition ∧ group = otherGroup := by
  constructor
  · intro same
    have lists := congrArg String.toList same
    simp only [key, String.toList_append, Nat.toString_eq_repr, List.append_assoc] at lists
    obtain ⟨partitions, _, groups⟩ := (List.append_cons_inj_of_notMem
      (underscore_not_mem_repr _) (underscore_not_mem_repr _)).mp lists
    exact ⟨Nat.repr_inj.mp (String.toList_injective partitions),
      Nat.repr_inj.mp (String.toList_injective groups)⟩
  · rintro ⟨rfl, rfl⟩
    rfl

/-- What the checks of a layout ask for. -/
structure Valid (layout : Layout) : Prop where
  partitions : 0 < layout.numPartitions
  groups : 0 < layout.numGroups
  filled : ∀ partition < layout.numPartitions, ∀ group < layout.numGroups,
    ∃ servers, layout.servers? partition group = some servers ∧ servers ≠ []
  distinct : ∀ key servers, layout.slots.get? key = some servers → servers.Nodup

theorem isFilled_iff {layout : Layout} {partition group : Nat} :
    layout.isFilled partition group = true ↔
      ∃ servers, layout.servers? partition group = some servers ∧ servers ≠ [] := by
  unfold isFilled
  cases layout.servers? partition group <;> simp

theorem isComplete_iff {layout : Layout} :
    layout.isComplete = true ↔
      ∀ partition < layout.numPartitions, ∀ group < layout.numGroups,
        ∃ servers, layout.servers? partition group = some servers ∧ servers ≠ [] := by
  simp only [isComplete, everyBelow_iff, isFilled_iff]

theorem validate_iff {layout : Layout} : layout.validate = .ok () ↔ layout.Valid := by
  unfold validate
  split
  · rename_i missing
    constructor
    · intro passed
      cases passed
    · intro valid
      have partitions := valid.partitions
      have groups := valid.groups
      omega
  · rename_i sizes
    split
    · rename_i holes
      constructor
      · intro passed
        cases passed
      · intro valid
        exact absurd (isComplete_iff.mpr valid.filled) holes
    · rename_i complete
      split
      · rename_i slot found
        constructor
        · intro passed
          cases passed
        · intro valid
          have repeats := List.find?_some found
          have held := OrderedMap.get?_eq_some_iff.mpr (List.mem_of_find?_eq_some found)
          exact absurd (valid.distinct slot.1 slot.2 held) (by simpa using repeats)
      · rename_i none
        refine ⟨fun _ => ?_, fun _ => rfl⟩
        refine ⟨by omega, by omega, isComplete_iff.mp (by simpa using complete), ?_⟩
        intro key servers held
        have passed := List.find?_eq_none.mp none (key, servers) (OrderedMap.get?_eq_some_iff.mp held)
        simpa using passed

theorem setServers_eq_ok_iff {layout next : Layout} {partition group : Nat}
    {servers : List String} :
    layout.setServers partition group servers = .ok next ↔
      (partition < layout.numPartitions ∧ group < layout.numGroups ∧ servers ≠ [] ∧
        servers.Nodup) ∧
      next = { layout with slots := layout.slots.insert (key partition group) servers } := by
  unfold setServers
  split
  · rename_i outside
    constructor
    · intro filled
      cases filled
    · rintro ⟨⟨_, _, _⟩, _⟩
      omega
  · rename_i inside
    split
    · rename_i empty
      constructor
      · intro filled
        cases filled
      · rintro ⟨⟨_, _, some, _⟩, _⟩
        exact absurd (List.isEmpty_iff.mp empty) some
    · rename_i some
      split
      · rename_i repeats
        constructor
        · intro filled
          cases filled
        · rintro ⟨⟨_, _, _, distinct⟩, _⟩
          exact absurd distinct repeats
      · rename_i distinct
        rw [Except.ok.injEq, eq_comm]
        refine ⟨fun same => ⟨⟨by omega, by omega, ?_, by simpa using distinct⟩, same⟩, And.right⟩
        exact fun none => some (List.isEmpty_iff.mpr none)

theorem servers?_insert (layout : Layout) (partition group otherPartition otherGroup : Nat)
    (servers : List String) :
    { layout with slots := layout.slots.insert (key partition group) servers }.servers?
        otherPartition otherGroup =
      if otherPartition = partition ∧ otherGroup = group then some servers
      else layout.servers? otherPartition otherGroup := by
  simp only [servers?, OrderedMap.get?_insert, key_inj]

theorem mem_groupMembers {layout : Layout} {group : Nat} {server : String} :
    server ∈ layout.groupMembers group ↔ ∃ partition < layout.numPartitions,
      server ∈ (layout.servers? partition group).getD [] := by
  simp only [groupMembers, OrderedMap.mem_keys_ofKeys, List.mem_flatMap, List.mem_range]

end SegmentPlacement.Layout

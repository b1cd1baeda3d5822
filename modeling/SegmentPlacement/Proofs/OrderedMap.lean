import Mathlib.Data.List.Nodup
import SegmentPlacement.OrderedMap

/-! What a look-up answers after each operation on an ordered map. A map is
determined by its look-ups, so proofs about assignments never open its entries. -/

namespace SegmentPlacement.OrderedMap
open Std

variable {κ : Type} {β γ σ : Type} [Ord κ] [TransOrd κ] [LawfulEqOrd κ]

theorem mem_keys_iff {map : OrderedMap κ β} {key : κ} :
    key ∈ map.keys ↔ ∃ value, map.get? key = some value := by
  simp only [keys, List.mem_map, Prod.exists, exists_and_right, exists_eq_right, get?_eq_some_iff]

theorem contains_iff {map : OrderedMap κ β} {key : κ} :
    map.contains key = true ↔ key ∈ map.keys := by
  rw [mem_keys_iff, contains, Option.isSome_iff_exists]

omit [LawfulEqOrd κ] in
private theorem not_lt_self (key : κ) : compare key key ≠ .lt := by
  rw [@ReflCmp.compare_self κ compare _ key]
  decide

omit [LawfulEqOrd κ] in
theorem nodup_keys (map : OrderedMap κ β) : map.keys.Nodup := by
  refine List.pairwise_map.mpr (map.sorted.imp ?_)
  intro first second below same
  exact not_lt_self second.1 (same ▸ below)

omit [TransOrd κ] [LawfulEqOrd κ] in
theorem pairwise_keys (map : OrderedMap κ β) :
    map.keys.Pairwise fun first second => compare first second = .lt :=
  List.pairwise_map.mpr map.sorted

theorem pairwise_keys_lt (map : OrderedMap String β) : map.keys.Pairwise (· < ·) :=
  map.pairwise_keys.imp compareOfLessAndEq_eq_lt.mp

omit [LawfulEqOrd κ] in
theorem nodup_entries (map : OrderedMap κ β) : map.entries.Nodup :=
  List.Nodup.of_map _ (nodup_keys map)

theorem mem_values_iff {map : OrderedMap κ β} {value : β} :
    value ∈ map.values ↔ ∃ key, map.get? key = some value := by
  simp only [values, List.mem_map, Prod.exists, exists_eq_right, get?_eq_some_iff]

theorem forall_get?_iff {map : OrderedMap κ β} {holds : κ → β → Prop} :
    (∀ key value, map.get? key = some value → holds key value) ↔
      ∀ entry ∈ map.entries, holds entry.1 entry.2 := by
  simp only [get?_eq_some_iff, Prod.forall]

omit [TransOrd κ] [LawfulEqOrd κ] in
@[simp] theorem length_keys (map : OrderedMap κ β) : map.keys.length = map.size := by
  simp [keys, size]

omit [TransOrd κ] [LawfulEqOrd κ] in
@[simp] theorem get?_empty (key : κ) : ({} : OrderedMap κ β).get? key = none := rfl

omit [LawfulEqOrd κ] in
private theorem find?_insertEntry_self (key : κ) (value : β) (entries : List (κ × β)) :
    find? key (insertEntry key value entries) = some value := by
  induction entries with
  | nil => simp [insertEntry, find?]
  | cons entry rest ih =>
    unfold insertEntry
    cases order : compare key entry.1 with
    | lt => simp [find?]
    | eq => simp [find?]
    | gt => simpa [find?, order] using ih

private theorem find?_insertEntry_of_ne {key other : κ} (value : β) (entries : List (κ × β))
    (different : other ≠ key) :
    find? other (insertEntry key value entries) = find? other entries := by
  have apart : compare other key ≠ .eq := fun same => different (LawfulEqOrd.eq_of_compare same)
  induction entries with
  | nil => cases order : compare other key <;> simp_all [insertEntry, find?]
  | cons entry rest ih =>
    unfold insertEntry
    cases order : compare key entry.1 with
    | lt =>
      cases position : compare other key with
      | lt => simp [find?, position, TransCmp.lt_trans position order]
      | eq => exact False.elim (apart position)
      | gt => simp [find?, position]
    | eq =>
      obtain rfl := LawfulEqOrd.eq_of_compare order
      cases position : compare other entry.1 <;> simp_all [find?]
    | gt => cases position : compare other entry.1 <;> simp [find?, position, ih]

@[simp] theorem get?_insert_self (map : OrderedMap κ β) (key : κ) (value : β) :
    (map.insert key value).get? key = some value :=
  find?_insertEntry_self key value map.entries

theorem get?_insert_of_ne (map : OrderedMap κ β) {key other : κ} (value : β)
    (different : other ≠ key) : (map.insert key value).get? other = map.get? other :=
  find?_insertEntry_of_ne value map.entries different

theorem get?_insert [DecidableEq κ] (map : OrderedMap κ β) (key other : κ) (value : β) :
    (map.insert key value).get? other = if other = key then some value else map.get? other := by
  by_cases same : other = key
  · simp [same]
  · simp [same, get?_insert_of_ne]

theorem ext_get? {first second : OrderedMap κ β}
    (same : ∀ key, first.get? key = second.get? key) : first = second := by
  apply eq_of_entries
  have members : ∀ entry, entry ∈ first.entries ↔ entry ∈ second.entries := by
    intro entry
    rw [← get?_eq_some_iff, ← get?_eq_some_iff, same]
  have permuted := (List.perm_ext_iff_of_nodup (nodup_entries first) (nodup_entries second)).mpr
    members
  refine permuted.eq_of_pairwise ?_ first.sorted second.sorted
  intro left right _ _ below above
  exact False.elim (not_lt_self left.1 (TransCmp.lt_trans below above))

theorem insert_of_get? [DecidableEq κ] {map : OrderedMap κ β} {key : κ} {value : β}
    (stored : map.get? key = some value) : map.insert key value = map := by
  apply ext_get?
  intro other
  rw [get?_insert]
  split
  · next same => rw [same, stored]
  · rfl

theorem get?_filter (map : OrderedMap κ β) (keep : κ → β → Bool) (key : κ) :
    (map.filter keep).get? key = (map.get? key).filter (keep key) := by
  apply Option.ext
  intro value
  rw [get?_eq_some_iff, Option.filter_eq_some_iff, get?_eq_some_iff]
  exact List.mem_filter

theorem get?_erase [DecidableEq κ] (map : OrderedMap κ β) (key other : κ) :
    (map.erase key).get? other = if other = key then none else map.get? other := by
  rw [erase, get?_filter]
  by_cases same : other = key
  · simp [same]
  · cases map.get? other <;> simp [same]

theorem get?_map (map : OrderedMap κ β) (change : κ → β → γ) (key : κ) :
    (map.map change).get? key = (map.get? key).map (change key) := by
  apply Option.ext
  intro value
  rw [get?_eq_some_iff, Option.map_eq_some_iff]
  constructor
  · intro member
    obtain ⟨entry, inside, same⟩ := List.mem_map.mp member
    obtain ⟨rfl, rfl⟩ := Prod.mk.inj same
    exact ⟨entry.2, get?_eq_some_iff.mpr inside, rfl⟩
  · rintro ⟨stored, found, rfl⟩
    exact List.mem_map.mpr ⟨(key, stored), get?_eq_some_iff.mp found, rfl⟩

omit [TransOrd κ] [LawfulEqOrd κ] in
@[simp] theorem keys_map (map : OrderedMap κ β) (change : κ → β → γ) :
    (map.map change).keys = map.keys := by
  simp [keys, OrderedMap.map]

omit [TransOrd κ] [LawfulEqOrd κ] in
@[simp] theorem keys_mapAccum (map : OrderedMap κ β) (step : σ → κ → β → γ × σ) (start : σ) :
    (map.mapAccum step start).keys = map.keys :=
  keys_replaceEntries step start map.entries

omit [TransOrd κ] [LawfulEqOrd κ] [Ord κ] in
private theorem mem_replaceEntries {step : σ → κ → β → γ × σ} {state : σ} {entries : List (κ × β)}
    {key : κ} {value : β} (member : (key, value) ∈ entries) :
    ∃ reached, (key, (step reached key value).1) ∈ replaceEntries step state entries := by
  induction entries generalizing state with
  | nil => cases member
  | cons entry rest ih =>
    rcases List.mem_cons.mp member with rfl | later
    · exact ⟨state, List.mem_cons_self⟩
    · obtain ⟨reached, found⟩ := ih later
      exact ⟨reached, List.mem_cons_of_mem _ found⟩

theorem get?_mapAccum {map : OrderedMap κ β} (step : σ → κ → β → γ × σ) (start : σ) {key : κ}
    {value : β} (found : map.get? key = some value) :
    ∃ state, (map.mapAccum step start).get? key = some (step state key value).1 := by
  obtain ⟨state, member⟩ := mem_replaceEntries (get?_eq_some_iff.mp found)
  exact ⟨state, get?_eq_some_iff.mpr member⟩

/-- The state of a traversal behind the listed entries. -/
def stateAfter (step : σ → κ → β → γ × σ) (start : σ) (entries : List (κ × β)) : σ :=
  entries.foldl (fun state entry => (step state entry.1 entry.2).2) start

omit [TransOrd κ] [LawfulEqOrd κ] [Ord κ] in
private theorem replaceEntries_append (step : σ → κ → β → γ × σ) (start : σ)
    (first second : List (κ × β)) :
    replaceEntries step start (first ++ second) =
      replaceEntries step start first ++
        replaceEntries step (stateAfter step start first) second := by
  induction first generalizing start with
  | nil => rfl
  | cons entry rest ih =>
    simp only [List.cons_append, replaceEntries, ih]
    rfl

/-- A value is replaced by what the step makes of it in the state that the entries before it leave. -/
theorem get?_mapAccum_of_split {map : OrderedMap κ β} (step : σ → κ → β → γ × σ) (start : σ)
    {earlier later : List (κ × β)} {entry : κ × β}
    (split : map.entries = earlier ++ entry :: later) :
    (map.mapAccum step start).get? entry.1 =
      some (step (stateAfter step start earlier) entry.1 entry.2).1 := by
  have entries : (map.mapAccum step start).entries = replaceEntries step start map.entries := rfl
  rw [get?_eq_some_iff, entries, split, replaceEntries_append]
  exact List.mem_append_right _ List.mem_cons_self

omit [TransOrd κ] [LawfulEqOrd κ] in
@[simp] theorem keys_filter (map : OrderedMap κ β) (keep : κ → Bool) :
    (map.filter fun key _ => keep key).keys = map.keys.filter keep := by
  simp [keys, OrderedMap.filter, List.filter_map, Function.comp_def]

theorem length_filter_contains_comm (first : OrderedMap κ β) (second : OrderedMap κ γ) :
    (first.keys.filter second.contains).length = (second.keys.filter first.contains).length := by
  apply List.Perm.length_eq
  refine (List.perm_ext_iff_of_nodup (first.nodup_keys.filter _) (second.nodup_keys.filter _)).mpr ?_
  intro key
  simp only [List.mem_filter, contains_iff]
  exact And.comm

theorem mem_keys_insert {map : OrderedMap κ β} {key other : κ} {value : β} :
    other ∈ (map.insert key value).keys ↔ other = key ∨ other ∈ map.keys := by
  by_cases same : other = key
  · subst same
    simp [mem_keys_iff]
  · simp only [mem_keys_iff, get?_insert_of_ne map value same, same, false_or]

theorem entries_insert_perm {map : OrderedMap κ β} {key : κ} (value : β) (new : key ∉ map.keys) :
    (map.insert key value).entries.Perm ((key, value) :: map.entries) := by
  have apart : (key, value) ∉ map.entries := fun member => new (List.mem_map_of_mem member)
  refine (List.perm_ext_iff_of_nodup (nodup_entries _)
    (List.nodup_cons.mpr ⟨apart, nodup_entries map⟩)).mpr fun ⟨other, stored⟩ => ?_
  rw [← get?_eq_some_iff, List.mem_cons, ← get?_eq_some_iff]
  by_cases same : other = key
  · subst same
    have none : map.get? other ≠ some stored := fun found => new (mem_keys_iff.mpr ⟨stored, found⟩)
    rw [get?_insert_self, or_iff_left none, Option.some.injEq, Prod.mk.injEq, and_iff_right rfl,
      eq_comm]
  · rw [get?_insert_of_ne map value same, Prod.mk.injEq, or_iff_right fun equal => same equal.1]

theorem mem_keys_insertAll {map : OrderedMap κ β} {entries : List (κ × β)} {key : κ} :
    key ∈ (map.insertAll entries).keys ↔ key ∈ map.keys ∨ key ∈ entries.map Prod.fst := by
  induction entries generalizing map with
  | nil => simp [insertAll]
  | cons entry rest ih =>
    have step : map.insertAll (entry :: rest) = (map.insert entry.1 entry.2).insertAll rest := rfl
    rw [step, ih, mem_keys_insert, List.map_cons, List.mem_cons]
    tauto

theorem entries_insertAll_perm {map : OrderedMap κ β} {entries : List (κ × β)}
    (distinct : (entries.map Prod.fst).Nodup) (new : ∀ entry ∈ entries, entry.1 ∉ map.keys) :
    (map.insertAll entries).entries.Perm (map.entries ++ entries) := by
  induction entries generalizing map with
  | nil => exact .of_eq (List.append_nil _).symm
  | cons entry rest ih =>
    obtain ⟨absent, distinct⟩ := List.nodup_cons.mp distinct
    obtain ⟨here, later⟩ := List.forall_mem_cons.mp new
    have step : map.insertAll (entry :: rest) = (map.insert entry.1 entry.2).insertAll rest := rfl
    rw [step]
    refine (ih distinct fun other member => ?_).trans ?_
    · rw [mem_keys_insert]
      rintro (same | held)
      · exact absent (same ▸ List.mem_map_of_mem member)
      · exact later other member held
    · exact ((entries_insert_perm entry.2 here).append_right rest).trans List.perm_middle.symm

theorem mem_keys_ofKeys {keys : List κ} {key : κ} : key ∈ (ofKeys keys).keys ↔ key ∈ keys := by
  rw [ofKeys, ofList, mem_keys_insertAll]
  simp [OrderedMap.keys, empty]

theorem get?_insertAll_of_not_mem {map : OrderedMap κ β} {entries : List (κ × β)} {key : κ}
    (absent : key ∉ entries.map Prod.fst) : (map.insertAll entries).get? key = map.get? key := by
  induction entries generalizing map with
  | nil => rfl
  | cons entry rest ih =>
    simp only [List.map_cons, List.mem_cons, not_or] at absent
    have step : map.insertAll (entry :: rest) = (map.insert entry.1 entry.2).insertAll rest := rfl
    rw [step, ih absent.2, get?_insert_of_ne map entry.2 absent.1]

theorem get?_insertAll_map [DecidableEq κ] (change : β → γ) {map : OrderedMap κ β}
    {changed : OrderedMap κ γ} {key : κ} (begun : (map.get? key).map change = changed.get? key)
    (entries : List (κ × β)) :
    ((map.insertAll entries).get? key).map change =
      (changed.insertAll (entries.map fun entry => (entry.1, change entry.2))).get? key := by
  induction entries generalizing map changed with
  | nil => exact begun
  | cons entry rest ih =>
    refine ih ?_
    rw [get?_insert, get?_insert]
    split
    · rfl
    · exact begun

/-- Among entries with distinct keys the order of insertion does not matter. -/
theorem get?_insertAll_of_mem {map : OrderedMap κ β} {entries : List (κ × β)} {key : κ}
    {value : β} (distinct : (entries.map Prod.fst).Nodup) (member : (key, value) ∈ entries) :
    (map.insertAll entries).get? key = some value := by
  induction entries generalizing map with
  | nil => cases member
  | cons entry rest ih =>
    obtain ⟨absent, tail⟩ := List.nodup_cons.mp distinct
    have step : map.insertAll (entry :: rest) = (map.insert entry.1 entry.2).insertAll rest := rfl
    rw [step]
    rcases List.mem_cons.mp member with rfl | later
    · rw [get?_insertAll_of_not_mem absent, get?_insert_self]
    · exact ih tail later

theorem get?_insertAll_cases {map : OrderedMap κ β} {entries : List (κ × β)} {key : κ} {value : β}
    (found : (map.insertAll entries).get? key = some value) :
    map.get? key = some value ∨ (key, value) ∈ entries := by
  induction entries generalizing map with
  | nil => exact Or.inl found
  | cons entry rest ih =>
    have step : map.insertAll (entry :: rest) = (map.insert entry.1 entry.2).insertAll rest := rfl
    rw [step] at found
    rcases ih found with earlier | later
    · rw [get?_eq_some_iff] at earlier
      rcases mem_insertEntry earlier with here | there
      · exact Or.inr (here ▸ List.mem_cons_self)
      · exact Or.inl (get?_eq_some_iff.mpr there)
    · exact Or.inr (List.mem_cons_of_mem _ later)

theorem keys_ofList_perm {entries : List (κ × β)} (distinct : (entries.map Prod.fst).Nodup) :
    (ofList entries).keys.Perm (entries.map Prod.fst) := by
  have none (key : κ) : key ∉ (empty : OrderedMap κ β).keys := List.not_mem_nil
  refine (List.perm_ext_iff_of_nodup (nodup_keys _) distinct).mpr fun key => ?_
  rw [ofList, mem_keys_insertAll, or_iff_right (none key)]

theorem ofList_entries (map : OrderedMap κ β) : ofList map.entries = map := by
  refine ext_get? fun key => ?_
  cases stored : map.get? key with
  | some value => exact get?_insertAll_of_mem map.nodup_keys (get?_eq_some_iff.mp stored)
  | none =>
    refine get?_insertAll_of_not_mem fun listed => ?_
    obtain ⟨value, found⟩ := mem_keys_iff.mp listed
    rw [stored] at found
    cases found

omit [LawfulEqOrd κ] in
theorem keys_eq_iff {first : OrderedMap κ β} {second : OrderedMap κ γ} :
    first.keys = second.keys ↔ ∀ key, key ∈ first.keys ↔ key ∈ second.keys := by
  refine ⟨fun same key => same ▸ Iff.rfl, fun same => ?_⟩
  have permuted := (List.perm_ext_iff_of_nodup first.nodup_keys second.nodup_keys).mpr same
  refine permuted.eq_of_pairwise ?_ first.pairwise_keys second.pairwise_keys
  intro left right _ _ below above
  exact False.elim (not_lt_self left (TransCmp.lt_trans below above))

theorem ofKeys_eq_ofKeys {first second : List κ} (same : ∀ key, key ∈ first ↔ key ∈ second) :
    ofKeys first = ofKeys second := by
  refine ext_get? fun key => Option.ext fun stored => ?_
  have members : key ∈ (ofKeys first).keys ↔ key ∈ (ofKeys second).keys := by
    simp only [mem_keys_ofKeys, same]
  simpa only [mem_keys_iff, Unique.exists_iff] using members

end SegmentPlacement.OrderedMap

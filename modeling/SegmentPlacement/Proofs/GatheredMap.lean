import SegmentPlacement.Proofs.Loads
import SegmentPlacement.Proofs.OrderedMap

/-! Maps that are filled item by item. Every item is added to what its key holds so
far, so in the end a key holds what its own items make, and the order in which keys
take turns does not matter. -/

namespace SegmentPlacement.OrderedMap
open Std

variable {κ : Type} {β ι : Type} [Ord κ] [TransOrd κ] [LawfulEqOrd κ]

/-- The map with an item added to what its key holds. A key that holds nothing begins with
`start`. -/
def addItem (start : κ → β) (add : β → ι → β) (map : OrderedMap κ β) (item : κ × ι) :
    OrderedMap κ β :=
  map.insert item.1 (add ((map.get? item.1).getD (start item.1)) item.2)

def gather (start : κ → β) (add : β → ι → β) (map : OrderedMap κ β) (items : List (κ × ι)) :
    OrderedMap κ β :=
  items.foldl (addItem start add) map

def itemsOf [DecidableEq κ] (items : List (κ × ι)) (key : κ) : List ι :=
  (items.filter fun item => item.1 = key).map Prod.snd

/-- In the end a key holds what its items make. -/
theorem get?_gather [DecidableEq κ] (start : κ → β) (add : β → ι → β) (map : OrderedMap κ β)
    (items : List (κ × ι)) (key : κ) :
    (gather start add map items).get? key =
      if itemsOf items key = [] then map.get? key
      else some ((itemsOf items key).foldl add ((map.get? key).getD (start key))) := by
  induction items generalizing map with
  | nil => rfl
  | cons item rest ih =>
    refine (ih (addItem start add map item)).trans ?_
    by_cases same : item.1 = key
    · have first : itemsOf (item :: rest) key = item.2 :: itemsOf rest key := by
        simp [itemsOf, same]
      rw [first, if_neg (List.cons_ne_nil _ _), List.foldl_cons, addItem, same, get?_insert_self,
        Option.getD_some]
      split
      · rename_i last
        rw [last, List.foldl_nil]
      · rfl
    · have others : itemsOf (item :: rest) key = itemsOf rest key := by simp [itemsOf, same]
      rw [others, addItem, get?_insert_of_ne _ _ (Ne.symm same)]

theorem mem_keys_gather [DecidableEq κ] {start : κ → β} {add : β → ι → β} {map : OrderedMap κ β}
    {items : List (κ × ι)} {key : κ} :
    key ∈ (gather start add map items).keys ↔ key ∈ map.keys ∨ itemsOf items key ≠ [] := by
  rw [mem_keys_iff, mem_keys_iff, get?_gather]
  split
  · rename_i none
    simp [none]
  · rename_i some
    simp [some]

/-- Items that are counted key by key are all counted. -/
theorem total_values_gather [DecidableEq κ] {start : κ → β} {add : β → ι → β}
    {items : List (κ × ι)} (measure : β → Nat)
    (counts : ∀ key, measure ((itemsOf items key).foldl add (start key)) =
      (itemsOf items key).length) :
    total ((gather start add {} items).values.map measure) = items.length := by
  have covered : ∀ item ∈ items, item.1 ∈ (gather start add {} items).keys := by
    intro item member
    refine mem_keys_gather.mpr (Or.inr (List.ne_nil_of_mem (a := item.2) ?_))
    exact List.mem_map.mpr ⟨item, List.mem_filter.mpr ⟨member, decide_eq_true rfl⟩, rfl⟩
  rw [← total_countP Prod.fst (nodup_keys (gather start add {} items)) covered, values, keys,
    List.map_map, List.map_map]
  refine congrArg total (List.map_congr_left fun entry member => ?_)
  have stored := (get?_gather start add {} items entry.1).symm.trans (get?_eq_some_iff.mpr member)
  split at stored
  · cases stored
  · have value : entry.2 = (itemsOf items entry.1).foldl add (start entry.1) :=
      (Option.some.inj stored).symm
    rw [Function.comp_apply, value, counts, itemsOf, List.length_map, Function.comp_apply,
      List.countP_eq_length_filter]

section sources

variable {α : Type} {keysOf : α → List κ} {item : α → ι} {sources : List α}

theorem foldl_sources (start : κ → β) (add : β → ι → β) (map : OrderedMap κ β)
    (keysOf : α → List κ) (item : α → ι) (sources : List α) :
    (sources.foldl (fun map source => (keysOf source).foldl (fun map key =>
        map.insert key (add ((map.get? key).getD (start key)) (item source))) map) map) =
      gather start add map
        (sources.flatMap fun source => (keysOf source).map fun key => (key, item source)) := by
  simp only [gather, List.foldl_flatMap, List.foldl_map]
  rfl

omit [Ord κ] [TransOrd κ] [LawfulEqOrd κ]
variable [DecidableEq κ]

theorem itemsOf_flatMap (key : κ) :
    itemsOf (sources.flatMap fun source => (keysOf source).map fun key => (key, item source)) key =
      sources.flatMap fun source => List.replicate ((keysOf source).count key) (item source) := by
  simp only [itemsOf, List.filter_flatMap, List.map_flatMap]
  refine List.flatMap_congr fun source _ => ?_
  simp only [List.filter_map, List.map_map, Function.comp_def, List.map_const',
    List.count_eq_length_filter]
  rfl

omit [DecidableEq κ] in
theorem flatMap_replicate_of_le_one {times : α → Nat}
    (once : ∀ source ∈ sources, times source ≤ 1) :
    (sources.flatMap fun source => List.replicate (times source) (item source)) =
      (sources.filter fun source => 0 < times source).map item := by
  induction sources with
  | nil => rfl
  | cons first rest ih =>
    obtain ⟨here, later⟩ := List.forall_mem_cons.mp once
    rw [List.flatMap_cons, ih later, List.filter_cons]
    obtain none | one : times first = 0 ∨ times first = 1 := by omega
    · simp [none]
    · simp [one]

omit [DecidableEq κ] in
private theorem length_filter_le_length_flatMap (item : α → ι) (times : α → Nat)
    (sources : List α) :
    (sources.filter fun source => 0 < times source).length ≤
      (sources.flatMap fun source => List.replicate (times source) (item source)).length := by
  induction sources with
  | nil => exact Nat.le_refl 0
  | cons first rest ih =>
    rw [List.flatMap_cons, List.length_append, List.length_replicate]
    by_cases some : 0 < times first
    · rw [List.filter_cons_of_pos (by simpa using some), List.length_cons]
      omega
    · rw [List.filter_cons_of_neg (by simpa using some)]
      omega

omit [DecidableEq κ] in
/-- Where there are no more places than things, nothing stands in more than one. -/
theorem le_one_of_length_flatMap_replicate {times : α → Nat}
    (same : (sources.flatMap fun source => List.replicate (times source) (item source)).length =
      (sources.filter fun source => 0 < times source).length) :
    ∀ source ∈ sources, times source ≤ 1 := by
  induction sources with
  | nil => exact fun _ member => absurd member List.not_mem_nil
  | cons first rest ih =>
    have least := length_filter_le_length_flatMap item times rest
    rw [List.flatMap_cons, List.length_append, List.length_replicate] at same
    have parts : times first ≤ 1 ∧
        (rest.flatMap fun source => List.replicate (times source) (item source)).length =
          (rest.filter fun source => 0 < times source).length := by
      by_cases some : 0 < times first
      · rw [List.filter_cons_of_pos (by simpa using some), List.length_cons] at same
        omega
      · rw [List.filter_cons_of_neg (by simpa using some)] at same
        omega
    exact List.forall_mem_cons.mpr ⟨parts.1, ih parts.2⟩

theorem itemsOf_flatMap_of_nodup (distinct : ∀ source ∈ sources, (keysOf source).Nodup)
    (key : κ) :
    itemsOf (sources.flatMap fun source => (keysOf source).map fun key => (key, item source)) key =
      (sources.filter fun source => key ∈ keysOf source).map item := by
  rw [itemsOf_flatMap, flatMap_replicate_of_le_one fun source member =>
    List.nodup_iff_count_le_one.mp (distinct source member) key]
  simp only [List.count_pos_iff]

end sources

end SegmentPlacement.OrderedMap

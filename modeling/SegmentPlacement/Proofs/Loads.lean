import SegmentPlacement.Load
import Mathlib.Data.List.GetD
import Mathlib.Data.List.Nodup

/-! Choosing the least loaded positions. What is chosen is told apart from how
the loads change: every pass adds exactly the positions that it hands out. -/

namespace SegmentPlacement

theorem leastOf_eq_none_iff {weight : Nat → Nat} {candidates : List Nat} :
    leastOf weight candidates = none ↔ candidates = [] := by
  cases candidates with
  | nil => simp [leastOf]
  | cons first rest =>
    rw [leastOf]
    cases leastOf weight rest with
    | none => simp
    | some other =>
      simp only
      split <;> simp

theorem greatestOf_eq_none_iff {weight : Nat → Nat} {candidates : List Nat} :
    greatestOf weight candidates = none ↔ candidates = [] := by
  cases candidates with
  | nil => simp [greatestOf]
  | cons first rest =>
    rw [greatestOf]
    cases greatestOf weight rest with
    | none => simp
    | some other =>
      simp only
      split <;> simp

/-- A candidate with the least weight, and the first of these in an increasing list. -/
theorem leastOf_spec {weight : Nat → Nat} {candidates : List Nat} {position : Nat}
    (found : leastOf weight candidates = some position) :
    position ∈ candidates ∧ (∀ other ∈ candidates, weight position ≤ weight other) ∧
      (candidates.Pairwise (· < ·) →
        ∀ other ∈ candidates, weight other = weight position → position ≤ other) := by
  induction candidates generalizing position with
  | nil => cases found
  | cons first rest ih =>
    rw [leastOf] at found
    cases later : leastOf weight rest with
    | none =>
      obtain rfl := leastOf_eq_none_iff.mp later
      simp only [later, Option.some.injEq] at found
      subst found
      simp
    | some other =>
      obtain ⟨member, least, front⟩ := ih later
      simp only [later] at found
      split at found
      · rename_i lighter
        cases found
        refine ⟨List.mem_cons_of_mem _ member, ?_, ?_⟩
        · intro candidate inside
          rcases List.mem_cons.mp inside with rfl | inside
          · exact Nat.le_of_lt lighter
          · exact least candidate inside
        · intro sorted candidate inside same
          rcases List.mem_cons.mp inside with rfl | inside
          · omega
          · exact front (List.pairwise_cons.mp sorted).2 candidate inside same
      · rename_i heavier
        cases found
        refine ⟨List.mem_cons_self, ?_, ?_⟩
        · intro candidate inside
          rcases List.mem_cons.mp inside with rfl | inside
          · exact Nat.le_refl _
          · exact Nat.le_trans (Nat.le_of_not_lt heavier) (least candidate inside)
        · intro sorted candidate inside _
          rcases List.mem_cons.mp inside with rfl | inside
          · exact Nat.le_refl _
          · exact Nat.le_of_lt ((List.pairwise_cons.mp sorted).1 candidate inside)

theorem greatestOf_spec {weight : Nat → Nat} {candidates : List Nat} {position : Nat}
    (found : greatestOf weight candidates = some position) :
    position ∈ candidates ∧ ∀ other ∈ candidates, weight other ≤ weight position := by
  induction candidates generalizing position with
  | nil => cases found
  | cons first rest ih =>
    rw [greatestOf] at found
    cases later : greatestOf weight rest with
    | none =>
      obtain rfl := greatestOf_eq_none_iff.mp later
      simp only [later, Option.some.injEq] at found
      subst found
      simp
    | some other =>
      obtain ⟨member, greatest⟩ := ih later
      simp only [later] at found
      split at found
      · rename_i heavier
        cases found
        refine ⟨List.mem_cons_of_mem _ member, ?_⟩
        intro candidate inside
        rcases List.mem_cons.mp inside with rfl | inside
        · exact Nat.le_of_lt heavier
        · exact greatest candidate inside
      · rename_i lighter
        cases found
        refine ⟨List.mem_cons_self, ?_⟩
        intro candidate inside
        rcases List.mem_cons.mp inside with rfl | inside
        · exact Nat.le_refl _
        · exact Nat.le_trans (greatest candidate inside) (Nat.le_of_not_lt lighter)

theorem greatestOf_front {weight : Nat → Nat} {candidates : List Nat} {position : Nat}
    (sorted : candidates.Pairwise (· < ·)) (found : greatestOf weight candidates = some position) :
    ∀ other ∈ candidates, weight other = weight position → position ≤ other := by
  induction candidates generalizing position with
  | nil => cases found
  | cons first rest ih =>
    obtain ⟨below, sorted⟩ := List.pairwise_cons.mp sorted
    rw [greatestOf] at found
    intro candidate inside same
    cases later : greatestOf weight rest with
    | none =>
      obtain rfl := greatestOf_eq_none_iff.mp later
      simp only [later, Option.some.injEq] at found
      exact Nat.le_of_eq (found.symm.trans (List.mem_singleton.mp inside).symm)
    | some other =>
      simp only [later] at found
      split at found <;> cases found
      · rcases List.mem_cons.mp inside with rfl | inside
        · omega
        · exact ih sorted later candidate inside same
      · rcases List.mem_cons.mp inside with rfl | inside
        · exact Nat.le_refl _
        · exact Nat.le_of_lt (below candidate inside)

theorem greatestOf_eq_some_iff {weight : Nat → Nat} {candidates : List Nat}
    (sorted : candidates.Pairwise (· < ·)) {position : Nat} :
    greatestOf weight candidates = some position ↔ position ∈ candidates ∧
      ∀ other ∈ candidates, weight other < weight position ∨
        weight other = weight position ∧ position ≤ other := by
  constructor
  · intro found
    obtain ⟨member, greatest⟩ := greatestOf_spec found
    refine ⟨member, fun other inside => ?_⟩
    rcases Nat.lt_or_eq_of_le (greatest other inside) with less | same
    · exact Or.inl less
    · exact Or.inr ⟨same, greatestOf_front sorted found other inside same⟩
  · rintro ⟨member, best⟩
    cases found : greatestOf weight candidates with
    | none =>
      rw [greatestOf_eq_none_iff.mp found] at member
      cases member
    | some other =>
      obtain ⟨inside, greatest⟩ := greatestOf_spec found
      have front := greatestOf_front sorted found position member
      have upper := greatest position member
      have lower := best other inside
      exact congrArg some (by omega)

theorem leastOf_eq_some_iff {weight : Nat → Nat} {candidates : List Nat}
    (sorted : candidates.Pairwise (· < ·)) {position : Nat} :
    leastOf weight candidates = some position ↔ position ∈ candidates ∧
      ∀ other ∈ candidates, weight position < weight other ∨
        weight position = weight other ∧ position ≤ other := by
  constructor
  · intro found
    obtain ⟨member, least, front⟩ := leastOf_spec found
    refine ⟨member, ?_⟩
    intro other inside
    rcases Nat.lt_or_eq_of_le (least other inside) with lighter | same
    · exact Or.inl lighter
    · exact Or.inr ⟨same, front sorted other inside same.symm⟩
  · intro ⟨member, least⟩
    cases found : leastOf weight candidates with
    | none =>
      rw [leastOf_eq_none_iff.mp found] at member
      cases member
    | some other =>
      obtain ⟨inside, lightest, front⟩ := leastOf_spec found
      have before := least other inside
      have after := lightest position member
      have first := front sorted position member
      exact congrArg some (by omega)

theorem mem_modify {items : List ι} {index : Nat} {item other : ι} {change : ι → ι}
    (listed : items[index]? = some item) (member : other ∈ items.modify index change) :
    other ∈ items ∨ other = change item := by
  obtain ⟨place, found⟩ := List.mem_iff_getElem?.mp member
  rw [List.getElem?_modify] at found
  split at found
  · rename_i same
    rw [← same, listed] at found
    exact Or.inr (Option.some.inj found).symm
  · exact Or.inl (List.mem_of_getElem? (by simpa using found))

theorem total_map_modify (weight : ι → Nat) {items : List ι} (change : ι → ι) {index : Nat}
    {item : ι} (listed : items[index]? = some item) :
    total ((items.modify index change).map weight) + weight item =
      total (items.map weight) + weight (change item) := by
  induction items generalizing index with
  | nil => cases listed
  | cons first rest ih =>
    cases index with
    | zero =>
      cases listed
      simp only [List.modify_zero_cons, List.map_cons, total, List.foldr_cons]
      omega
    | succ index =>
      have later := ih (by simpa using listed)
      simp only [total] at later
      simp only [List.modify_succ_cons, List.map_cons, total, List.foldr_cons]
      omega

theorem length_flatten_of_length {size : Nat} {lists : List (List ι)}
    (full : ∀ list ∈ lists, list.length = size) : lists.flatten.length = lists.length * size := by
  induction lists with
  | nil => simp
  | cons list rest ih =>
    obtain ⟨here, later⟩ := List.forall_mem_cons.mp full
    rw [List.flatten_cons, List.length_append, here, ih later, List.length_cons, Nat.succ_mul,
      Nat.add_comm]

theorem length_flatten_le {size : Nat} {lists : List (List ι)}
    (bounded : ∀ list ∈ lists, list.length ≤ size) : lists.flatten.length ≤ size * lists.length := by
  induction lists with
  | nil => exact Nat.zero_le _
  | cons list rest ih =>
    obtain ⟨here, later⟩ := List.forall_mem_cons.mp bounded
    have others := ih later
    rw [List.flatten_cons, List.length_append, List.length_cons, Nat.mul_succ]
    omega

theorem perm_flatten_filter [DecidableEq κ] (key : ι → κ) {classes : List κ}
    (distinct : classes.Nodup) {items : List ι} (covered : ∀ item ∈ items, key item ∈ classes) :
    (classes.map fun label => items.filter fun item => key item = label).flatten.Perm items := by
  induction classes generalizing items with
  | nil =>
    rw [List.eq_nil_iff_forall_not_mem.mpr fun item member =>
      absurd (covered item member) List.not_mem_nil]
    exact .refl _
  | cons label rest ih =>
    obtain ⟨absent, distinct⟩ := List.nodup_cons.mp distinct
    have others : rest.map (fun other => items.filter fun item => key item = other) =
        rest.map fun other => (items.filter fun item => !decide (key item = label)).filter
          fun item => key item = other := by
      refine List.map_congr_left fun other member => ?_
      rw [List.filter_filter]
      refine List.filter_congr fun item _ => ?_
      by_cases same : key item = other
      · have apart : other ≠ label := fun equal => absent (equal ▸ member)
        simp [same, apart]
      · simp [same]
    have left : ∀ item ∈ items.filter fun item => !decide (key item = label), key item ∈ rest := by
      intro item member
      obtain ⟨listed, other⟩ := List.mem_filter.mp member
      exact (List.mem_cons.mp (covered item listed)).resolve_left (by simpa using other)
    rw [List.map_cons, List.flatten_cons, others]
    exact ((ih distinct left).append_left _).trans (List.filter_append_perm _ _)

theorem total_countP [DecidableEq κ] (key : ι → κ) {classes : List κ}
    (distinct : classes.Nodup) {items : List ι} (covered : ∀ item ∈ items, key item ∈ classes) :
    total (classes.map fun label => items.countP fun item => key item = label) = items.length := by
  have sorted := (perm_flatten_filter key distinct covered).length_eq
  simp only [List.length_flatten, List.map_map, Function.comp_def, ← List.countP_eq_length_filter]
    at sorted
  exact sorted

namespace Loads

def addAll (loads : Loads) (positions : List Nat) : Loads := positions.foldl add loads

@[simp] theorem length_zero (positions : Nat) : (zero positions).length = positions :=
  List.length_replicate

@[simp] theorem carried_zero (positions position : Nat) : (zero positions).carried position = 0 := by
  simp only [carried, zero, List.getD_eq_getElem?_getD, List.getElem?_replicate]
  split <;> rfl

@[simp] theorem length_add (loads : Loads) (position : Nat) :
    (loads.add position).length = loads.length := List.length_modify ..

@[simp] theorem length_addAll (loads : Loads) (positions : List Nat) :
    (loads.addAll positions).length = loads.length := by
  induction positions generalizing loads with
  | nil => rfl
  | cons position rest ih => exact (ih _).trans (length_add ..)

theorem addAll_append (loads : Loads) (first second : List Nat) :
    loads.addAll (first ++ second) = (loads.addAll first).addAll second := List.foldl_append

@[simp] theorem length_shift (loads : Loads) (source destination : Nat) :
    (loads.shift source destination).length = loads.length := by
  rw [shift, List.length_modify, List.length_modify]

theorem carried_modify (loads : Loads) (change : Nat → Nat) (position : Nat) {other : Nat}
    (inside : other < loads.length) :
    carried (loads.modify position change) other =
      if position = other then change (loads.carried other) else loads.carried other := by
  simp only [carried, List.getD_eq_getElem?_getD, List.getElem?_modify]
  rw [List.getElem?_eq_getElem inside]
  split <;> rfl

theorem carried_addAll (loads : Loads) (positions : List Nat) {position : Nat}
    (inside : position < loads.length) :
    (loads.addAll positions).carried position = loads.carried position + positions.count position := by
  induction positions generalizing loads with
  | nil => rfl
  | cons first rest ih =>
    change ((loads.add first).addAll rest).carried position = _
    rw [ih _ (by simpa using inside), add, carried_modify _ _ _ inside, List.count_cons]
    simp only [beq_iff_eq]
    split <;> omega

theorem carried_le_addAll (loads : Loads) (positions : List Nat) (position : Nat) :
    loads.carried position ≤ (loads.addAll positions).carried position := by
  by_cases inside : position < loads.length
  · rw [carried_addAll _ _ inside]
    exact Nat.le_add_right ..
  · rw [carried, List.getD_eq_default _ _ (Nat.le_of_not_lt inside)]
    exact Nat.zero_le _

theorem mem_positions {loads : Loads} {position : Nat} :
    position ∈ loads.positions ↔ position < loads.length := List.mem_range

private theorem mem_untaken {loads : Loads} {taken : List Nat} {position : Nat} :
    position ∈ (loads.positions.filter fun position => ¬ taken.contains position) ↔
      position < loads.length ∧ position ∉ taken := by
  simp [List.mem_filter, mem_positions]

theorem least?_eq_some_iff {loads : Loads} {taken : List Nat} {position : Nat} :
    loads.least? taken = some position ↔ (position < loads.length ∧ position ∉ taken) ∧
      ∀ other < loads.length, other ∉ taken →
        loads.carried position < loads.carried other ∨
          loads.carried position = loads.carried other ∧ position ≤ other := by
  have sorted : (loads.positions.filter fun position => ¬ taken.contains position).Pairwise (· < ·) :=
    List.pairwise_lt_range.filter _
  rw [least?, leastOf_eq_some_iff sorted, mem_untaken]
  simp only [mem_untaken, and_imp]

theorem least?_isSome (loads : Loads) (taken : List Nat) (room : taken.length < loads.length) :
    (loads.least? taken).isSome := by
  cases found : loads.least? taken with
  | some position => rfl
  | none =>
    have none := leastOf_eq_none_iff.mp found
    have all : loads.positions ⊆ taken := by
      intro position inside
      by_contra free
      have untaken := mem_untaken.mpr ⟨mem_positions.mp inside, free⟩
      rw [none] at untaken
      cases untaken
    have bound := List.nodup_range.length_le_of_subset all
    simp only [List.length_range] at bound
    omega

/-- What filling adds: new positions, as many as are missing when there is room for them. -/
theorem fill_spec (missing : Nat) (loads : Loads) (taken : List Nat) :
    ∃ added, fill missing loads taken = (taken ++ added, loads.addAll added) ∧
      (taken.Nodup → (taken ++ added).Nodup) ∧ (∀ position ∈ added, position < loads.length) ∧
      added.length ≤ missing ∧ (taken.length + missing ≤ loads.length → added.length = missing) := by
  induction missing generalizing loads taken with
  | zero => exact ⟨[], by simp [fill, addAll]⟩
  | succ missing ih =>
    rw [fill]
    cases found : loads.least? taken with
    | none =>
      refine ⟨[], by simp [addAll], by simp, by simp, by simp, ?_⟩
      intro room
      have some := least?_isSome loads taken (by omega)
      simp [found] at some
    | some position =>
      obtain ⟨⟨inside, free⟩, _⟩ := least?_eq_some_iff.mp found
      obtain ⟨added, same, distinct, below, bound, room⟩ := ih (loads.add position) (taken ++ [position])
      refine ⟨position :: added, ?_, ?_, ?_, ?_, ?_⟩
      · simp only [same, List.append_assoc, List.singleton_append]
        rfl
      · intro nodup
        rw [List.append_cons]
        exact distinct (List.nodup_append.mpr ⟨nodup, by simp, by rintro _ member _ last rfl; simp_all⟩)
      · intro other member
        rcases List.mem_cons.mp member with rfl | member
        · exact inside
        · simpa using below other member
      · simpa using bound
      · intro enough
        have full := room (by simp; omega)
        simp [full]

theorem least?_add_of_mem {loads : Loads} {taken : List Nat} {position : Nat}
    (member : position ∈ taken) : (loads.add position).least? taken = loads.least? taken := by
  have same : ∀ other < loads.length, other ∉ taken →
      (loads.add position).carried other = loads.carried other := by
    intro other inside free
    rw [add, carried_modify _ _ _ inside, if_neg]
    rintro rfl
    exact free member
  refine Option.ext fun choice => ?_
  simp only [least?_eq_some_iff, length_add]
  refine and_congr_right fun ⟨inside, free⟩ => forall₃_congr fun other below untaken => ?_
  rw [same choice inside free, same other below untaken]

/-- When filling adds the listed positions: each is the least loaded one that is not taken by then,
with the loads as they were at the beginning. -/
theorem fill_eq_iff {loads : Loads} {taken added : List Nat} :
    (fill added.length loads taken).1 = taken ++ added ↔
      ∀ front position back, added = front ++ position :: back →
        loads.least? (taken ++ front) = some position := by
  induction added generalizing loads taken with
  | nil => simp [fill]
  | cons first rest ih =>
    rw [List.length_cons, fill]
    cases found : loads.least? taken with
    | none =>
      refine ⟨fun same => ?_, fun chosen => ?_⟩
      · simp at same
      · have now := chosen [] first rest rfl
        simp [found] at now
    | some choice =>
      obtain ⟨added, filled, _⟩ := fill_spec rest.length (loads.add choice) (taken ++ [choice])
      constructor
      · intro same
        obtain rfl : choice = first := by
          simp only [filled, List.append_assoc] at same
          exact (List.cons.inj (List.append_cancel_left same)).1
        have later := ih.mp (same.trans (List.append_cons ..))
        intro front position back split
        cases front with
        | nil =>
          obtain ⟨rfl, _⟩ := List.cons.inj split
          rwa [List.append_nil]
        | cons head tail =>
          obtain ⟨rfl, remaining⟩ := List.cons.inj split
          have next := later tail position back remaining
          rwa [least?_add_of_mem (by simp), List.append_assoc] at next
      · intro chosen
        obtain rfl : choice = first := by
          have now := chosen [] first rest rfl
          rw [List.append_nil, found] at now
          exact Option.some.inj now
        refine (ih.mpr ?_).trans (List.append_cons ..).symm
        intro front position back split
        rw [least?_add_of_mem (by simp), List.append_assoc]
        exact chosen (choice :: front) position back (congrArg (choice :: ·) split)

theorem length_fillAll (size : Nat) (loads : Loads) (lists : List (List Nat)) :
    (fillAll size loads lists).1.length = lists.length := by
  induction lists generalizing loads with
  | nil => rfl
  | cons taken rest ih => simp only [fillAll, List.length_cons, ih]

theorem mem_fillAll {size : Nat} {loads : Loads} {lists : List (List Nat)} {filled : List Nat}
    (member : filled ∈ (fillAll size loads lists).1) :
    ∃ taken ∈ lists, ∃ before : Loads, before.length = loads.length ∧
      filled = (fill (size - taken.length) before taken).1 := by
  induction lists generalizing loads with
  | nil => cases member
  | cons taken rest ih =>
    rcases List.mem_cons.mp member with rfl | later
    · exact ⟨taken, List.mem_cons_self, loads, rfl, rfl⟩
    · obtain ⟨other, inside, before, length, same⟩ := ih later
      obtain ⟨added, filled, _⟩ := fill_spec (size - taken.length) loads taken
      refine ⟨other, List.mem_cons_of_mem _ inside, before, ?_, same⟩
      rw [length, filled, length_addAll]

theorem fillAll_full {size : Nat} {loads : Loads} (lists : List (List Nat))
    (room : size ≤ loads.length)
    (begun : ∀ taken ∈ lists,
      taken.Nodup ∧ (∀ position ∈ taken, position < loads.length) ∧ taken.length ≤ size) :
    ∀ filled ∈ (fillAll size loads lists).1,
      filled.Nodup ∧ (∀ position ∈ filled, position < loads.length) ∧ filled.length = size := by
  intro filled member
  obtain ⟨taken, former, before, length, rfl⟩ := mem_fillAll member
  obtain ⟨added, same, distinct, below, _, full⟩ := fill_spec (size - taken.length) before taken
  obtain ⟨nodup, inside, fits⟩ := begun taken former
  rw [length] at below
  rw [same]
  refine ⟨distinct nodup, ?_, ?_⟩
  · intro position member
    rcases List.mem_append.mp member with old | new
    · exact inside position old
    · exact below position new
  · rw [List.length_append, full (by omega)]
    omega

theorem fillAll_of_full {size : Nat} {loads : Loads} {lists : List (List Nat)}
    (full : ∀ taken ∈ lists, taken.length = size) : fillAll size loads lists = (lists, loads) := by
  induction lists with
  | nil => rfl
  | cons taken rest ih =>
    obtain ⟨here, later⟩ := List.forall_mem_cons.mp full
    simp only [fillAll, here, Nat.sub_self, fill, ih later]

theorem length_loads_fillAll (size : Nat) (loads : Loads) (lists : List (List Nat)) :
    (fillAll size loads lists).2.length = loads.length := by
  induction lists generalizing loads with
  | nil => rfl
  | cons taken rest ih =>
    obtain ⟨added, filled, _⟩ := fill_spec (size - taken.length) loads taken
    simp only [fillAll, ih, filled, length_addAll]

theorem carried_fillAll (size : Nat) (loads : Loads) (lists : List (List Nat)) {position : Nat}
    (inside : position < loads.length) :
    (fillAll size loads lists).2.carried position + lists.flatten.count position =
      loads.carried position + (fillAll size loads lists).1.flatten.count position := by
  induction lists generalizing loads with
  | nil => rfl
  | cons taken rest ih =>
    obtain ⟨added, filled, _⟩ := fill_spec (size - taken.length) loads taken
    have later := ih (loads.addAll added) (by simpa using inside)
    rw [carried_addAll _ _ inside] at later
    simp only [fillAll, filled, List.flatten_cons, List.count_append]
    omega

end Loads

def namesAt (names : List String) (positions : List Nat) : List String :=
  positions.map fun position => names.getD position ""

section namesAt

variable {names : List String} {positions : List Nat}

theorem getD_inj (distinct : names.Nodup) {first second : Nat} (inside : first < names.length)
    (within : second < names.length) (same : names.getD first "" = names.getD second "") :
    first = second := by
  rw [List.getD_eq_getElem _ _ inside, List.getD_eq_getElem _ _ within] at same
  exact distinct.getElem_inj_iff.mp same

theorem getD_mem {position : Nat} (inside : position < names.length) :
    names.getD position "" ∈ names := by
  rw [List.getD_eq_getElem _ _ inside]
  exact List.getElem_mem _

@[simp] theorem length_namesAt (names : List String) (positions : List Nat) :
    (namesAt names positions).length = positions.length := List.length_map _

theorem nodup_namesAt (distinct : names.Nodup) (inside : ∀ position ∈ positions,
    position < names.length) (apart : positions.Nodup) : (namesAt names positions).Nodup :=
  apart.map_on fun first here second there =>
    getD_inj distinct (inside first here) (inside second there)

theorem namesAt_subset (inside : ∀ position ∈ positions, position < names.length) :
    namesAt names positions ⊆ names := by
  intro name member
  obtain ⟨position, here, rfl⟩ := List.mem_map.mp member
  exact getD_mem (inside position here)

theorem getD_mem_namesAt_iff (distinct : names.Nodup)
    (inside : ∀ position ∈ positions, position < names.length) {position : Nat}
    (within : position < names.length) :
    names.getD position "" ∈ namesAt names positions ↔ position ∈ positions := by
  constructor
  · intro there
    obtain ⟨other, taken, same⟩ := List.mem_map.mp there
    exact getD_inj distinct (inside other taken) within same ▸ taken
  · intro taken
    exact List.mem_map.mpr ⟨position, taken, rfl⟩

theorem countP_map_namesAt (distinct : names.Nodup) {lists : List (List Nat)}
    (inside : ∀ positions ∈ lists, ∀ position ∈ positions, position < names.length) {position : Nat}
    (within : position < names.length) :
    (lists.map (namesAt names)).countP (·.contains (names.getD position "")) =
      lists.countP (·.contains position) := by
  rw [List.countP_map]
  refine List.countP_congr fun positions member => ?_
  rw [Function.comp_apply, List.contains_iff_mem, List.contains_iff_mem,
    getD_mem_namesAt_iff distinct (inside positions member) within]

end namesAt

end SegmentPlacement

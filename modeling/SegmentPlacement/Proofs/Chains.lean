import Mathlib.Data.List.Forall2

/-! Chains of steps that may fail. A chain succeeds exactly if all of its steps do. -/

namespace SegmentPlacement

theorem bind_eq_ok_iff {first : Except ε α} {next : α → Except ε β} {value : β} :
    (first >>= next) = .ok value ↔ ∃ middle, first = .ok middle ∧ next middle = .ok value := by
  cases first with
  | error error =>
    constructor
    · intro done
      cases done
    · intro ⟨_, same, _⟩
      cases same
  | ok middle =>
    refine ⟨fun done => ⟨middle, rfl, done⟩, ?_⟩
    intro ⟨_, same, done⟩
    cases same
    exact done

theorem eq_ok_of_toOption {outcome : Except ε α} {value : α} (same : outcome.toOption = some value) :
    outcome = .ok value := by
  cases outcome with
  | error error => cases same
  | ok other =>
    cases same
    rfl

theorem mapM_eq_ok_iff {items : List α} {step : α → Except ε β} {values : List β} :
    items.mapM step = .ok values ↔
      List.Forall₂ (fun item value => step item = .ok value) items values := by
  induction items generalizing values with
  | nil =>
    rw [List.forall₂_nil_left_iff, List.mapM_nil]
    exact Except.ok.injEq [] values ▸ eq_comm
  | cons item rest ih =>
    rw [List.mapM_cons, bind_eq_ok_iff, List.forall₂_cons_left_iff]
    refine exists_congr fun value => ?_
    simp only [bind_eq_ok_iff, ih]
    constructor
    · intro ⟨here, others, later, same⟩
      cases same
      exact ⟨others, here, later, rfl⟩
    · rintro ⟨others, here, later, rfl⟩
      exact ⟨here, others, later, rfl⟩

theorem mapM_eq_ok_of_forall {items : List α} {step : α → Except ε β} {value : α → β}
    (done : ∀ item ∈ items, step item = .ok (value item)) :
    items.mapM step = .ok (items.map value) := by
  rw [mapM_eq_ok_iff, List.forall₂_map_right_iff, List.forall₂_same]
  exact done

theorem forall₂_of_mapM {holds : α → β → Prop} {items : List α} {step : α → Except ε β}
    {values : List β} (done : items.mapM step = .ok values)
    (each : ∀ item ∈ items, ∀ value, step item = .ok value → holds item value) :
    List.Forall₂ holds items values := by
  obtain ⟨length, steps⟩ := List.forall₂_iff_zip.mp (mapM_eq_ok_iff.mp done)
  exact List.forall₂_iff_zip.mpr ⟨length, fun {item value} pair =>
    each item (List.of_mem_zip pair).1 value (steps pair)⟩

theorem exists_of_mem_mapM {items : List α} {step : α → Except ε β} {values : List β} {value : β}
    (done : items.mapM step = .ok values) (member : value ∈ values) :
    ∃ item ∈ items, step item = .ok value := by
  obtain ⟨length, steps⟩ := List.forall₂_iff_get.mp (mapM_eq_ok_iff.mp done)
  obtain ⟨index, inside, rfl⟩ := List.mem_iff_getElem.mp member
  have within : index < items.length := length.symm ▸ inside
  exact ⟨items[index], List.getElem_mem within, steps index within inside⟩

theorem exists_mapM {holds : β → Prop} {items : List α} {step : α → Except ε β}
    (done : ∀ item ∈ items, ∃ value, step item = .ok value ∧ holds value) :
    ∃ values, items.mapM step = .ok values ∧ ∀ value ∈ values, holds value := by
  induction items with
  | nil => exact ⟨[], rfl, fun _ member => absurd member List.not_mem_nil⟩
  | cons item rest ih =>
    obtain ⟨value, here, suits⟩ := done item List.mem_cons_self
    obtain ⟨values, later, all⟩ := ih fun other member => done other (List.mem_cons_of_mem _ member)
    exact ⟨value :: values, mapM_eq_ok_iff.mpr (.cons here (mapM_eq_ok_iff.mp later)),
      List.forall_mem_cons.mpr ⟨suits, all⟩⟩

theorem exists_of_mapM {items : List α} {step : α → Except ε β} {values : List β} {item : α}
    (done : items.mapM step = .ok values) (member : item ∈ items) :
    ∃ value ∈ values, step item = .ok value := by
  obtain ⟨length, steps⟩ := List.forall₂_iff_get.mp (mapM_eq_ok_iff.mp done)
  obtain ⟨index, inside, rfl⟩ := List.mem_iff_getElem.mp member
  have within : index < values.length := length ▸ inside
  exact ⟨values[index], List.getElem_mem within, steps index inside within⟩

theorem mapM_related {related : β → γ → Prop} {items : List α} {step : α → Except ε β}
    {other : α → Except ε γ} {values : List β} (done : items.mapM step = .ok values)
    (again : ∀ item ∈ items, ∀ value ∈ values, step item = .ok value →
      ∃ next, other item = .ok next ∧ related value next) :
    ∃ others, items.mapM other = .ok others ∧ List.Forall₂ related values others := by
  have steps := mapM_eq_ok_iff.mp done
  clear done
  induction steps with
  | nil => exact ⟨[], rfl, .nil⟩
  | cons here _ ih =>
    obtain ⟨next, first, alike⟩ := again _ List.mem_cons_self _ List.mem_cons_self here
    obtain ⟨others, later, rest⟩ := ih fun item member value listed =>
      again item (List.mem_cons_of_mem _ member) value (List.mem_cons_of_mem _ listed)
    refine ⟨next :: others, ?_, .cons alike rest⟩
    exact mapM_eq_ok_iff.mpr (.cons first (mapM_eq_ok_iff.mp later))

theorem mapM_map_eq_some {items : List α} {write : α → β} {read : β → Option α}
    (each : ∀ item ∈ items, read (write item) = some item) :
    (items.map write).mapM read = some items := by
  induction items with
  | nil => rfl
  | cons item rest ih =>
    obtain ⟨here, there⟩ := List.forall_mem_cons.mp each
    rw [List.map_cons, List.mapM_cons, here, ih there]
    rfl

theorem exists_of_mem_mapM_some {items : List β} {read : β → Option α}
    {values : List α} {value : α} (done : items.mapM read = some values) (member : value ∈ values) :
    ∃ item ∈ items, read item = some value := by
  induction items generalizing values with
  | nil =>
    cases done
    cases member
  | cons item rest ih =>
    rw [List.mapM_cons] at done
    obtain ⟨first, here, done⟩ := Option.bind_eq_some_iff.mp done
    obtain ⟨others, there, same⟩ := Option.bind_eq_some_iff.mp done
    cases same
    rcases List.mem_cons.mp member with rfl | later
    · exact ⟨item, List.mem_cons_self, here⟩
    · obtain ⟨other, listed, read⟩ := ih there later
      exact ⟨other, List.mem_cons_of_mem _ listed, read⟩

/-- What every step of a chain keeps, the chain keeps. -/
theorem foldlM_keeps (holds : β → Prop) {step : β → α → Except ε β}
    (kept : ∀ state item next, holds state → step state item = .ok next → holds next)
    {items : List α} {state last : β} (begun : holds state)
    (done : items.foldlM step state = .ok last) : holds last := by
  induction items generalizing state with
  | nil =>
    cases done
    exact begun
  | cons item rest ih =>
    rw [List.foldlM_cons] at done
    obtain ⟨middle, here, later⟩ := bind_eq_ok_iff.mp done
    exact ih (kept state item middle begun here) later

end SegmentPlacement

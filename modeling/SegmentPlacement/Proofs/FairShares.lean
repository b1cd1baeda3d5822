import SegmentPlacement.Placement.Share
import SegmentPlacement.Proofs.Loads

/-! Work that is spread fairly may all be kept. A share allows loads of which none
is more than one above the average and no more are above it than the remainder
says, and positions that add up to such loads are never turned away. -/

namespace SegmentPlacement

theorem total_le {numbers : List Nat} {limit : Nat} (most : ∀ number ∈ numbers, number ≤ limit) :
    total numbers ≤ numbers.length * limit := by
  induction numbers with
  | nil => exact Nat.zero_le _
  | cons number rest ih =>
    obtain ⟨here, later⟩ := List.forall_mem_cons.mp most
    have bound := ih later
    simp only [total, List.foldr_cons, List.length_cons, Nat.succ_mul] at bound ⊢
    omega

private theorem total_map_sub {numbers : List Nat} {limit : Nat}
    (least : ∀ number ∈ numbers, limit ≤ number) :
    total (numbers.map (· - limit)) + numbers.length * limit = total numbers := by
  induction numbers with
  | nil => simp [total]
  | cons number rest ih =>
    obtain ⟨here, later⟩ := List.forall_mem_cons.mp least
    have equal := ih later
    simp only [total, List.map_cons, List.foldr_cons, List.length_cons, Nat.succ_mul] at equal ⊢
    omega

namespace Loads

variable {loads : Loads} {position : Nat}

/-- What the positions carry above a limit, all together. -/
def above (limit : Nat) (loads : Loads) : Nat := total (loads.map (· - limit))

private theorem getElem?_of_lt (inside : position < loads.length) :
    loads[position]? = some (loads.carried position) := by
  simp [carried, List.getElem?_eq_getElem inside]

private theorem carried_of_le (outside : loads.length ≤ position) : loads.carried position = 0 := by
  simp [carried, List.getElem?_eq_none outside]

theorem forall_mem_iff {holds : Nat → Prop} :
    (∀ load ∈ loads, holds load) ↔ ∀ position < loads.length, holds (loads.carried position) := by
  rw [List.forall_mem_iff_getElem]
  refine forall₂_congr fun position inside => ?_
  rw [carried, List.getD_eq_getElem _ _ inside]

theorem ext_carried {first second : Loads} (length : first.length = second.length)
    (same : ∀ position < first.length, first.carried position = second.carried position) :
    first = second := by
  refine List.ext_getElem length fun position inside within => ?_
  have equal := same position inside
  rwa [carried, carried, List.getD_eq_getElem _ _ inside, List.getD_eq_getElem _ _ within] at equal

theorem carried_add (inside : position < loads.length) (other : Nat) :
    (loads.add position).carried other =
      if position = other then loads.carried other + 1 else loads.carried other := by
  by_cases within : other < loads.length
  · rw [add, carried_modify _ _ _ within]
  · have outside := Nat.le_of_not_lt within
    rw [carried_of_le (by rwa [length_add]), carried_of_le outside, if_neg (by omega)]

theorem above_add (limit : Nat) (inside : position < loads.length) :
    above limit (loads.add position) + (loads.carried position - limit) =
      above limit loads + (loads.carried position + 1 - limit) :=
  total_map_modify (· - limit) (· + 1) (getElem?_of_lt inside)

theorem total_add (inside : position < loads.length) :
    total (loads.add position) = total loads + 1 := by
  have grown := total_map_modify id (· + 1) (getElem?_of_lt inside)
  simp only [List.map_id, id_eq] at grown
  simp only [add]
  omega

theorem above_zero (limit positions : Nat) : above limit (zero positions) = 0 := by
  have none : ∀ number ∈ (zero positions).map (· - limit), number ≤ 0 := by
    intro number member
    obtain ⟨load, listed, rfl⟩ := List.mem_map.mp member
    simp [List.eq_of_mem_replicate listed]
  exact Nat.eq_zero_of_le_zero (total_le none)

theorem total_zero (positions : Nat) : total (zero positions) = 0 := by
  simpa [above] using above_zero 0 positions

theorem above_of_least {limit : Nat}
    (least : ∀ position < loads.length, limit ≤ loads.carried position) :
    above limit loads + loads.length * limit = total loads :=
  total_map_sub (forall_mem_iff.mpr least)

private theorem total_le_above (limit : Nat) (loads : Loads) :
    total loads ≤ loads.length * limit + above limit loads := by
  induction loads with
  | nil => exact Nat.zero_le _
  | cons load rest ih =>
    simp only [total, above, List.foldr_cons, List.map_cons, List.length_cons, Nat.succ_mul] at ih ⊢
    omega

theorem total_addAll (loads : Loads) {positions : List Nat}
    (inside : ∀ position ∈ positions, position < loads.length) :
    total (loads.addAll positions) = total loads + positions.length := by
  induction positions generalizing loads with
  | nil => rfl
  | cons position rest ih =>
    obtain ⟨here, later⟩ := List.forall_mem_cons.mp inside
    have grown := ih (loads.add position) (by simpa using later)
    rw [total_add here] at grown
    change total ((loads.add position).addAll rest) = _
    rw [grown, List.length_cons]
    omega

theorem above_le_above_addAll (limit : Nat) (loads : Loads) {positions : List Nat}
    (inside : ∀ position ∈ positions, position < loads.length) :
    above limit loads ≤ above limit (loads.addAll positions) := by
  induction positions generalizing loads with
  | nil => exact Nat.le_refl _
  | cons position rest ih =>
    obtain ⟨here, later⟩ := List.forall_mem_cons.mp inside
    have grown := above_add limit here
    have rest := ih (loads.add position) (by simpa using later)
    change _ ≤ above limit ((loads.add position).addAll _)
    omega

theorem addAll_perm {first second : List Nat} (same : first.Perm second) (loads : Loads) :
    loads.addAll first = loads.addAll second := by
  refine ext_carried (by simp only [length_addAll]) fun position inside => ?_
  rw [length_addAll] at inside
  rw [carried_addAll _ _ inside, carried_addAll _ _ inside, same.count_eq]

end Loads

namespace Share

/-- The share left when positions keep one more each, one after the other, unless one may not. -/
def keepAll? : Share → Loads → List Nat → Option Share
  | share, _, [] => some share
  | share, loads, position :: rest =>
    (share.keep? (loads.carried position)).bind fun left => left.keepAll? (loads.add position) rest

theorem keepAll?_append (share : Share) (loads : Loads) (first second : List Nat) :
    share.keepAll? loads (first ++ second) =
      (share.keepAll? loads first).bind fun left => left.keepAll? (loads.addAll first) second := by
  induction first generalizing share loads with
  | nil => rfl
  | cons position rest ih =>
    simp only [List.cons_append, keepAll?, ih, Option.bind_assoc]
    rfl

/-- The loads that a share, all of it, allows. -/
structure Allows (share : Share) (loads : Loads) : Prop where
  bounded : ∀ position, loads.carried position ≤ share.average + 1
  spare : loads.above share.average ≤ share.extra

theorem keep?_spec {share left : Share} {load : Nat} (kept : share.keep? load = some left) :
    load ≤ share.average ∧ left.average = share.average ∧
      left.extra + (load + 1 - share.average) = share.extra := by
  unfold keep? at kept
  split at kept
  · cases kept
    exact ⟨by omega, rfl, by omega⟩
  · split at kept
    · cases kept
      refine ⟨by omega, rfl, ?_⟩
      simp only
      omega
    · cases kept

private theorem keep?_isSome {share : Share} {load : Nat} (bounded : load ≤ share.average)
    (spare : load = share.average → 0 < share.extra) : ∃ left, share.keep? load = some left := by
  unfold keep?
  split
  · exact ⟨share, rfl⟩
  · rename_i full
    have same : load = share.average := by omega
    exact ⟨_, if_pos ⟨same, spare same⟩⟩

theorem average_le_of_keep?_eq_none {share : Share} {load : Nat} (refused : share.keep? load = none) :
    share.average ≤ load ∧ (load = share.average → share.extra = 0) := by
  by_contra room
  have below : load ≤ share.average := by omega
  have spare : load = share.average → 0 < share.extra := by omega
  obtain ⟨left, kept⟩ := keep?_isSome below spare
  rw [refused] at kept
  cases kept

variable {share : Share} {loads : Loads} {positions : List Nat}

/-- Positions that add up to loads within the share are all kept. Of the extra, what the loads carry
above the average has been given out. -/
theorem keepAll?_isSome (inside : ∀ position ∈ positions, position < loads.length)
    (allows : Allows ⟨share.average, share.extra + loads.above share.average⟩
      (loads.addAll positions)) :
    ∃ left, share.keepAll? loads positions = some left := by
  induction positions generalizing share loads with
  | nil => exact ⟨share, rfl⟩
  | cons position rest ih =>
    obtain ⟨here, later⟩ := List.forall_mem_cons.mp inside
    have later : ∀ other ∈ rest, other < (loads.add position).length := by simpa using later
    have grown := loads.above_add share.average here
    have bounded : loads.carried position ≤ share.average := by
      have final := allows.bounded position
      rw [Loads.carried_addAll _ _ here, List.count_cons_self] at final
      simp only at final
      omega
    have spare : loads.carried position = share.average → 0 < share.extra := by
      intro full
      have final := allows.spare
      have lasts := Loads.above_le_above_addAll share.average (loads.add position) later
      change Loads.above share.average ((loads.add position).addAll rest) ≤ _ at final
      simp only at final
      omega
    obtain ⟨left, kept⟩ := keep?_isSome bounded spare
    obtain ⟨_, average, extra⟩ := keep?_spec kept
    have room : left.extra + (loads.add position).above left.average =
        share.extra + loads.above share.average := by
      rw [average]
      omega
    simp only [keepAll?, kept, Option.bind_some]
    refine ih later ?_
    rw [room, average]
    exact allows

theorem Allows.keepAll?_isSome {slots : Nat}
    (allows : share.Allows ((Loads.zero slots).addAll positions))
    (inside : ∀ position ∈ positions, position < slots) :
    ∃ left, share.keepAll? (Loads.zero slots) positions = some left := by
  refine Share.keepAll?_isSome (by simpa using inside) ?_
  rwa [Loads.above_zero, Nat.add_zero]

/-- What is kept within a share adds up to loads that it allows. -/
theorem allows_of_keepAll? {left : Share} (bounded : ∀ position,
      loads.carried position ≤ share.average + 1)
    (inside : ∀ position ∈ positions, position < loads.length)
    (kept : share.keepAll? loads positions = some left) :
    Allows ⟨share.average, share.extra + loads.above share.average⟩ (loads.addAll positions) := by
  induction positions generalizing share loads with
  | nil => exact ⟨bounded, Nat.le_add_left ..⟩
  | cons position rest ih =>
    obtain ⟨here, later⟩ := List.forall_mem_cons.mp inside
    obtain ⟨middle, first, others⟩ := Option.bind_eq_some_iff.mp kept
    obtain ⟨below, average, extra⟩ := keep?_spec first
    have grown := loads.above_add share.average here
    have room : middle.extra + (loads.add position).above middle.average =
        share.extra + loads.above share.average := by
      rw [average]
      omega
    have still : ∀ other, (loads.add position).carried other ≤ middle.average + 1 := by
      intro other
      rw [Loads.carried_add here, average]
      split <;> rename_i same
      · subst same
        omega
      · exact bounded other
    have allows := ih still (by simpa using later) others
    rwa [room, average] at allows

/-- The parts of a share that is divided make up the whole, and the extra is short of one more for
every position. -/
theorem divide_spec (count : Nat) {slots : Nat} (some : 0 < slots) :
    slots * (divide count slots).average + (divide count slots).extra = count ∧
      (divide count slots).extra < slots :=
  ⟨Nat.div_add_mod count slots, Nat.mod_lt count some⟩

theorem average_le_of_even (even : ∀ first < loads.length, ∀ second < loads.length,
    loads.carried first ≤ loads.carried second + 1) :
    ∀ position < loads.length, (divide (total loads) loads.length).average ≤
      loads.carried position := by
  intro position inside
  obtain ⟨whole, _⟩ := divide_spec (total loads) (Nat.zero_lt_of_lt inside)
  generalize divide (total loads) loads.length = share at whole ⊢
  by_contra below
  -- With one more here, the loads would still be within the average.
  have most : ∀ load ∈ loads.add position, load ≤ share.average := by
    refine Loads.forall_mem_iff.mpr fun other within => ?_
    rw [Loads.length_add] at within
    have close := even other within position inside
    rw [Loads.carried_add inside]
    split <;> rename_i same
    · subst same
      omega
    · omega
  have bound := total_le most
  rw [Loads.total_add inside, Loads.length_add] at bound
  omega

theorem allows_of_even (even : ∀ first < loads.length, ∀ second < loads.length,
    loads.carried first ≤ loads.carried second + 1) :
    (divide (total loads) loads.length).Allows loads := by
  rcases Nat.eq_zero_or_pos loads.length with none | some
  · rw [List.length_eq_zero_iff.mp none]
    exact ⟨fun position => Nat.zero_le _, Nat.zero_le _⟩
  have least := average_le_of_even even
  obtain ⟨whole, short⟩ := divide_spec (total loads) some
  generalize divide (total loads) loads.length = share at whole short least ⊢
  have exact := Loads.above_of_least least
  refine ⟨fun position => ?_, by omega⟩
  rcases Nat.lt_or_ge position loads.length with inside | outside
  · by_contra high
    have least : ∀ other < loads.length, share.average + 1 ≤ loads.carried other := by
      intro other within
      have close := even position inside other within
      omega
    have exact := Loads.above_of_least least
    rw [Nat.mul_succ] at exact
    omega
  · rw [Loads.carried_of_le outside]
    exact Nat.zero_le _

theorem Allows.even (allows : (divide (total loads) loads.length).Allows loads) :
    ∀ first < loads.length, ∀ second < loads.length,
      loads.carried first ≤ loads.carried second + 1 := by
  intro first here second there
  obtain ⟨whole, _⟩ := divide_spec (total loads) (Nat.zero_lt_of_lt there)
  generalize divide (total loads) loads.length = share at whole allows
  have most := allows.bounded first
  by_contra apart
  -- The second could carry one more within the average, so the loads do not make up the whole.
  have grown := loads.above_add share.average there
  have bound := Loads.total_le_above share.average (loads.add second)
  have spare := allows.spare
  rw [Loads.total_add there, Loads.length_add] at bound
  omega

/-- While something is missing, one more on a least loaded position stays within the share. -/
theorem Allows.add {count position : Nat} (allows : (divide count loads.length).Allows loads)
    (inside : position < loads.length) (missing : total loads < count)
    (least : ∀ other < loads.length, loads.carried position ≤ loads.carried other) :
    (divide count loads.length).Allows (loads.add position) := by
  obtain ⟨whole, short⟩ := divide_spec count (Nat.zero_lt_of_lt inside)
  generalize divide count loads.length = share at whole short allows ⊢
  have grown := loads.above_add share.average inside
  have reach : ∀ limit, limit ≤ loads.carried position →
      loads.above limit + loads.length * limit = total loads := fun limit below =>
    Loads.above_of_least fun other within => Nat.le_trans below (least other within)
  have bounded : loads.carried position ≤ share.average := by
    by_contra above
    have exact := reach (share.average + 1) (by omega)
    rw [Nat.mul_succ] at exact
    omega
  constructor
  · intro other
    rw [Loads.carried_add inside]
    split <;> rename_i same
    · subst same
      omega
    · exact allows.bounded other
  · have spare := allows.spare
    rcases Nat.lt_or_eq_of_le bounded with below | full
    · omega
    · have exact := reach share.average (Nat.le_of_eq full.symm)
      omega

end Share

end SegmentPlacement

import SegmentPlacement.Layout.Computed
import SegmentPlacement.Proofs.Loads
import Mathlib.Data.List.Induction
import Mathlib.Data.Nat.ModEq

/-! The slots of one group, computed once more from themselves. Positions within
their share stay where they are. Positions past their share are taken out and
filled up again, so everything depends on whether they return to their places. -/

namespace SegmentPlacement.Layout

abbrev held (slots : List (List Nat)) (position : Nat) : Nat := slots.flatten.count position

/-- What a position carries when the slots up to here are filled up again: what it keeps, or what
it has been given if that is more. -/
def refilled (share : Nat) (slots before : List (List Nat)) (position : Nat) : Nat :=
  max (min share (held slots position)) (held before position)

/-- Positions past their share return to their places in a slot: only such positions follow in the
slot, and no position that could be taken instead comes first. -/
def Returns (size share : Nat) (slots before : List (List Nat)) (slot : List Nat) : Prop :=
  ∀ front position back, slot = front ++ position :: back → share ≤ held before position →
    (∀ later ∈ back, share ≤ held before later) ∧
    ∀ other < size, other ∉ front →
      refilled share slots before position < refilled share slots before other ∨
        refilled share slots before position = refilled share slots before other ∧
          position ≤ other

/-- Every slot gets back what is past its share. -/
def Settled (size share : Nat) (slots : List (List Nat)) : Prop :=
  ∀ before slot after, slots = before ++ slot :: after → Returns size share slots before slot

def within (share : Nat) (before : List (List Nat)) (slot : List Nat) : List Nat :=
  slot.filter fun position => held before position < share

private theorem filter_prefix (keep : Nat → Bool) (items : List Nat)
    (suffix : ∀ front item back, items = front ++ item :: back → keep item = false →
      ∀ later ∈ back, keep later = false) :
    ∃ dropped, items = items.filter keep ++ dropped ∧ ∀ item ∈ dropped, keep item = false := by
  induction items with
  | nil => exact ⟨[], rfl, fun _ member => absurd member List.not_mem_nil⟩
  | cons head tail ih =>
    cases kept : keep head with
    | true =>
      obtain ⟨dropped, same, past⟩ := ih fun front item back split =>
        suffix (head :: front) item back (congrArg (head :: ·) split)
      refine ⟨dropped, ?_, past⟩
      rw [List.filter_cons_of_pos kept, List.cons_append, ← same]
    | false =>
      have later := suffix [] head tail rfl kept
      have none : (head :: tail).filter keep = [] := by
        refine List.filter_eq_nil_iff.mpr fun item member => ?_
        rcases List.mem_cons.mp member with rfl | member
        · simp [kept]
        · simp [later item member]
      refine ⟨head :: tail, by rw [none, List.nil_append], ?_⟩
      intro item member
      rcases List.mem_cons.mp member with rfl | member
      · exact kept
      · exact later item member

private theorem split_past {keep : Nat → Bool} {items dropped front back : List Nat} {item : Nat}
    (same : items.filter keep ++ dropped = front ++ item :: back) (past : keep item = false) :
    ∃ middle, front = items.filter keep ++ middle ∧ dropped = middle ++ item :: back := by
  rcases List.append_eq_append_iff.mp same with ⟨middle, rfl, split⟩ | ⟨rest, kept, split⟩
  · exact ⟨middle, rfl, split⟩
  · cases rest with
    | nil => exact ⟨[], by simpa using kept.symm, by simpa using split.symm⟩
    | cons head tail =>
      obtain ⟨rfl, _⟩ := List.cons.inj split
      have member : item ∈ items.filter keep := by simp [kept]
      rw [(List.mem_filter.mp member).2] at past
      cases past

private theorem length_missing {front back whole : List Nat} (parts : front ++ back = whole) :
    whole.length - front.length = back.length := by
  rw [← parts, List.length_append, Nat.add_sub_cancel_left]

/-- Filling up what a slot keeps gives the slot again if the rest of it returns. -/
theorem fill_within_iff {share : Nat} {slots before : List (List Nat)} {slot : List Nat}
    {loads : Loads} (distinct : slot.Nodup) (inside : ∀ position ∈ slot, position < loads.length)
    (counted : ∀ position < loads.length, loads.carried position = refilled share slots before position) :
    (Loads.fill (slot.length - (within share before slot).length) loads
        (within share before slot)).1 = slot ↔
      Returns loads.length share slots before slot := by
  constructor
  · intro same
    obtain ⟨added, filled, _⟩ := Loads.fill_spec
      (slot.length - (within share before slot).length) loads (within share before slot)
    have parts : within share before slot ++ added = slot :=
      (congrArg Prod.fst filled).symm.trans same
    have length := length_missing parts
    have past : ∀ position ∈ added, share ≤ held before position := by
      have all := congrArg (within share before) parts
      simp only [within, List.filter_append, List.filter_filter, Bool.and_self] at all
      have none := List.append_right_eq_self.mp all
      intro position member
      simpa using List.filter_eq_nil_iff.mp none position member
    rw [length] at same
    have chosen := Loads.fill_eq_iff.mp (same.trans parts.symm)
    intro front position back split beyond
    obtain ⟨middle, rfl, rest⟩ := split_past (parts.trans split) (by simpa using beyond)
    refine ⟨fun later member => past later (rest ▸ by simp [member]), ?_⟩
    intro other below free
    obtain ⟨⟨bound, _⟩, first⟩ := Loads.least?_eq_some_iff.mp (chosen middle position back rest)
    rw [← counted position bound, ← counted other below]
    exact first other below free
  · intro returns
    obtain ⟨added, parts, past⟩ := filter_prefix (fun position => held before position < share) slot
      fun front item back split beyond later member => by
        have bound := (returns front item back split (by simpa using beyond)).1 later member
        simpa using bound
    rw [within, length_missing parts.symm]
    refine (Loads.fill_eq_iff.mpr ?_).trans parts.symm
    intro front position back split
    have whole : slot = (within share before slot ++ front) ++ position :: back := by
      rw [List.append_assoc, ← split]
      exact parts
    have beyond : share ≤ held before position := by
      have dropped := past position (split ▸ by simp)
      simpa using dropped
    have bound := inside position (whole ▸ by simp)
    refine Loads.least?_eq_some_iff.mpr ⟨⟨bound, ?_⟩, ?_⟩
    · intro taken
      rw [whole] at distinct
      exact (List.nodup_append.mp distinct).2.2 position taken position List.mem_cons_self rfl
    · intro other below free
      rw [counted position bound, counted other below]
      exact (returns _ position back whole beyond).2 other below free

private theorem count_within {share : Nat} {before : List (List Nat)} {slot : List Nat}
    (position : Nat) : (within share before slot).count position =
      if held before position < share then slot.count position else 0 := by
  split
  · rename_i below
    exact List.count_filter (by simpa using below)
  · rename_i past
    refine List.count_eq_zero_of_not_mem fun member => past ?_
    simpa using (List.mem_filter.mp member).2

private theorem carried_given_back {share : Nat} {slots before rest : List (List Nat)}
    {slot added : List Nat} {loads : Loads} (split : slots = before ++ slot :: rest)
    (distinct : slot.Nodup) (parts : within share before slot ++ added = slot)
    (counted : ∀ position < loads.length,
      loads.carried position = refilled share slots before position) :
    ∀ position < loads.length, (loads.addAll added).carried position =
      refilled share slots (before ++ [slot]) position := by
  intro position below
  rw [Loads.carried_addAll _ _ below, counted position below]
  have once := List.nodup_iff_count_le_one.mp distinct position
  have count := congrArg (List.count position) parts
  rw [List.count_append, count_within] at count
  have total : held slots position =
      held before position + slot.count position + held rest position := by
    simp only [split, held, List.flatten_append, List.flatten_cons, List.count_append]
    omega
  have now : held (before ++ [slot]) position = held before position + slot.count position := by
    simp [held]
  simp only [refilled, total, now]
  split at count <;> omega

/-- What of every slot is within its share, which is used up slot by slot. -/
def staying (share : Nat) : List (List Nat) → List (List Nat) → List (List Nat)
  | _, [] => []
  | before, slot :: rest => within share before slot :: staying share (before ++ [slot]) rest

theorem fillAll_staying_iff (size share : Nat) (slots before rest : List (List Nat))
    (loads : Loads) (split : slots = before ++ rest)
    (sound : ∀ slot ∈ rest,
      slot.Nodup ∧ (∀ position ∈ slot, position < loads.length) ∧ slot.length = size)
    (counted : ∀ position < loads.length,
      loads.carried position = refilled share slots before position) :
    (Loads.fillAll size loads (staying share before rest)).1 = rest ↔
      ∀ middle slot after, rest = middle ++ slot :: after →
        Returns loads.length share slots (before ++ middle) slot := by
  induction rest generalizing before loads with
  | nil => simp [staying, Loads.fillAll]
  | cons slot rest ih =>
    obtain ⟨distinct, inside, length⟩ := sound slot List.mem_cons_self
    have here := fill_within_iff distinct inside counted
    obtain ⟨added, filled, _⟩ := Loads.fill_spec
      (slot.length - (within share before slot).length) loads (within share before slot)
    simp only [staying, Loads.fillAll, ← length, filled, List.cons.injEq] at here ⊢
    have later (parts : within share before slot ++ added = slot) :=
      ih (before ++ [slot]) (loads.addAll added) (by simp [split])
        (by simpa [length] using fun other member => sound other (List.mem_cons_of_mem _ member))
        (by simpa using carried_given_back split distinct parts counted)
    constructor
    · rintro ⟨parts, others⟩ middle other after same
      have returns := (later parts).mp (by simpa [length] using others)
      cases middle with
      | nil =>
        obtain ⟨rfl, _⟩ := List.cons.inj same
        rw [List.append_nil]
        exact here.mp parts
      | cons head tail =>
        obtain ⟨rfl, remaining⟩ := List.cons.inj same
        have back := returns tail other after remaining
        rwa [Loads.length_addAll, ← List.append_cons] at back
    · intro returns
      have parts := here.mpr (by simpa using returns [] slot rest rfl)
      refine ⟨parts, ?_⟩
      rw [length]
      refine (later parts).mpr fun middle other after same => ?_
      rw [Loads.length_addAll, ← List.append_cons]
      exact returns (slot :: middle) other after (congrArg (slot :: ·) same)

private theorem idxOf?_getD {members : List String} (distinct : members.Nodup) {position : Nat}
    (inside : position < members.length) :
    members.idxOf? (members.getD position "") = some position := by
  rw [List.getD_eq_getElem _ _ inside, List.idxOf?_eq_some_iff]
  refine ⟨inside, rfl, ?_⟩
  intro other before same
  have equal := distinct.getElem_inj_iff.mp same
  omega

private theorem keptSlot_namesAt {members : List String} (distinct : members.Nodup) (share : Nat)
    {perPartition : Nat} {slot : List Nat} (loads : Loads) (apart : slot.Nodup)
    (inside : ∀ position ∈ slot, position < members.length) (room : slot.length ≤ perPartition)
    (length : loads.length = members.length) :
    let kept := slot.filter fun position => loads.carried position < share
    keptSlot members share perPartition loads (namesAt members slot) =
      (kept, loads.addAll kept) := by
  induction slot using List.reverseRecOn with
  | nil => rfl
  | append_singleton slot position ih =>
    obtain ⟨former, _, apart⟩ := List.nodup_append.mp apart
    have free : position ∉ slot := fun member => apart position member position (by simp) rfl
    have below := inside position (by simp)
    rw [List.length_append, List.length_singleton] at room
    have earlier := ih former (fun other member => inside other (by simp [member])) (by omega)
    simp only [namesAt, keptSlot] at earlier
    simp only [keptSlot, namesAt, List.map_append, List.map_cons, List.map_nil, List.foldl_append,
      earlier, List.foldl_cons, List.foldl_nil, idxOf?_getD distinct below, List.filter_append]
    have fits := List.length_filter_le (fun position => loads.carried position < share) slot
    have vacant : (slot.filter fun position => loads.carried position < share).length <
        perPartition := by omega
    have absent : position ∉ slot.filter fun position => loads.carried position < share :=
      fun member => free (List.mem_filter.mp member).1
    have carried := Loads.carried_addAll loads
      (slot.filter fun position => loads.carried position < share) (length ▸ below)
    rw [List.count_eq_zero_of_not_mem absent, Nat.add_zero] at carried
    by_cases below : loads.carried position < share
    · simp [vacant, absent, carried, below, Loads.addAll_append]
      rfl
    · simp [carried, below]

theorem keptSlots_namesAt {members : List String} (distinct : members.Nodup) (share : Nat)
    {perPartition : Nat} (before : List (List Nat)) {rest : List (List Nat)} (loads : Loads)
    (sound : ∀ slot ∈ rest, slot.Nodup ∧ (∀ position ∈ slot, position < members.length) ∧
      slot.length ≤ perPartition) (length : loads.length = members.length)
    (counted : ∀ position < members.length,
      loads.carried position = min share (held before position)) :
    ∃ after : Loads, keptSlots members share perPartition loads (rest.map (namesAt members)) =
        (staying share before rest, after) ∧ after.length = members.length ∧
      ∀ position < members.length,
        after.carried position = min share (held (before ++ rest) position) := by
  induction rest generalizing before loads with
  | nil => exact ⟨loads, rfl, length, by simpa using counted⟩
  | cons slot rest ih =>
    obtain ⟨apart, inside, size⟩ := sound slot List.mem_cons_self
    have kept : (slot.filter fun position => loads.carried position < share) =
        within share before slot := by
      refine List.filter_congr fun position member => ?_
      rw [counted position (inside position member), decide_eq_decide]
      omega
    have first := keptSlot_namesAt distinct share loads apart inside size length
    rw [kept] at first
    obtain ⟨after, others, same, total⟩ := ih (before ++ [slot])
      (loads.addAll (within share before slot))
      (fun other member => sound other (List.mem_cons_of_mem _ member)) (by simpa using length) (by
        intro position below
        have once := List.nodup_iff_count_le_one.mp apart position
        rw [Loads.carried_addAll _ _ (length ▸ below), counted position below, count_within]
        simp only [held, List.flatten_append, List.flatten_cons, List.flatten_nil, List.append_nil,
          List.count_append]
        split <;> omega)
    refine ⟨after, ?_, same, ?_⟩
    · simp only [List.map_cons, keptSlots, first, others, staying]
    · intro position below
      rw [total position below, List.append_assoc, List.singleton_append]

def positionsIn (members : List String) (slots : List (List String)) : List (List Nat) :=
  slots.map fun slot => slot.map fun server => members.idxOf server

theorem namesAt_idxOf {members slot : List String} (inside : slot ⊆ members) :
    namesAt members (slot.map fun server => members.idxOf server) = slot := by
  rw [namesAt, List.map_map]
  refine (List.map_congr_left fun server member => ?_).trans (List.map_id slot)
  have below := List.idxOf_lt_length_of_mem (inside member)
  rw [Function.comp_apply, List.getD_eq_getElem _ _ below, List.getElem_idxOf, id_eq]

theorem idxOf_namesAt {members : List String} (distinct : members.Nodup) {positions : List Nat}
    (inside : ∀ position ∈ positions, position < members.length) :
    ((namesAt members positions).map fun server => members.idxOf server) = positions := by
  rw [namesAt, List.map_map]
  refine (List.map_congr_left fun position member => ?_).trans (List.map_id positions)
  have below := inside position member
  rw [Function.comp_apply, List.getD_eq_getElem _ _ below, distinct.idxOf_getElem, id_eq]

theorem map_namesAt_positionsIn {members : List String} {slots : List (List String)}
    (inside : ∀ slot ∈ slots, slot ⊆ members) :
    (positionsIn members slots).map (namesAt members) = slots := by
  rw [positionsIn, List.map_map]
  refine (List.map_congr_left fun slot member => ?_).trans (List.map_id slots)
  exact namesAt_idxOf (inside slot member)

private theorem positionsIn_map_namesAt {members : List String} (distinct : members.Nodup)
    {slots : List (List Nat)} (inside : ∀ slot ∈ slots, ∀ position ∈ slot, position < members.length) :
    positionsIn members (slots.map (namesAt members)) = slots := by
  rw [positionsIn, List.map_map]
  refine (List.map_congr_left fun slot member => ?_).trans (List.map_id slots)
  exact idxOf_namesAt distinct (inside slot member)

theorem mem_positionsIn (fits : Nat → Prop) {members : List String} {slots : List (List String)}
    (sound : ∀ slot ∈ slots, slot.Nodup ∧ slot ⊆ members ∧ fits slot.length) :
    ∀ slot ∈ positionsIn members slots,
      slot.Nodup ∧ (∀ position ∈ slot, position < members.length) ∧ fits slot.length := by
  intro slot member
  obtain ⟨servers, listed, rfl⟩ := List.mem_map.mp member
  obtain ⟨apart, inside, size⟩ := sound servers listed
  refine ⟨?_, ?_, by rwa [List.length_map]⟩
  · exact apart.map_on fun first here second there same =>
      (List.idxOf_inj (inside here)).mp same
  · intro position taken
    obtain ⟨server, here, rfl⟩ := List.mem_map.mp taken
    exact List.idxOf_lt_length_of_mem (inside here)

theorem mem_staying {share : Nat} {before rest : List (List Nat)} {kept : List Nat}
    (member : kept ∈ staying share before rest) : ∃ slot ∈ rest, kept.Sublist slot := by
  induction rest generalizing before with
  | nil => cases member
  | cons slot rest ih =>
    rcases List.mem_cons.mp member with rfl | later
    · exact ⟨slot, List.mem_cons_self, List.filter_sublist⟩
    · obtain ⟨other, listed, part⟩ := ih later
      exact ⟨other, List.mem_cons_of_mem _ listed, part⟩

/-- Full slots are what keeping and filling makes of them exactly if they are settled. -/
theorem refill_eq_iff {members : List String} (distinct : members.Nodup) (share : Nat)
    {perPartition : Nat} (room : perPartition ≤ members.length) {slots : List (List Nat)}
    (sound : ∀ slot ∈ slots, slot.Nodup ∧ (∀ position ∈ slot, position < members.length) ∧
      slot.length = perPartition) {kept : List (List Nat)} {loads : Loads}
    (result : keptSlots members share perPartition (Loads.zero members.length)
      (slots.map (namesAt members)) = (kept, loads)) :
    (Loads.fillAll perPartition loads kept).1.map (namesAt members) = slots.map (namesAt members) ↔
      Settled members.length share slots := by
  obtain ⟨after, stayed, length, counted⟩ := keptSlots_namesAt distinct share []
    (Loads.zero members.length)
    (fun slot member => (sound slot member).imp_right fun ⟨inside, size⟩ => ⟨inside, size.le⟩)
    (by simp) (by simp [held])
  obtain ⟨rfl, rfl⟩ := Prod.mk.inj (result.symm.trans stayed)
  have given := fillAll_staying_iff perPartition share slots [] slots loads rfl (by rwa [length])
    fun position below => by simp [counted position (length ▸ below), refilled, held]
  have enough : perPartition ≤ loads.length := length ▸ room
  have inside := Loads.fillAll_full (staying share [] slots) enough (by
      intro taken member
      obtain ⟨slot, listed, part⟩ := mem_staying member
      obtain ⟨apart, inside, size⟩ := sound slot listed
      exact ⟨apart.sublist part, fun position here => length ▸ inside position (part.subset here),
        size ▸ part.length_le⟩)
  rw [length] at given inside
  constructor
  · intro same
    have back := congrArg (positionsIn members) same
    rw [positionsIn_map_namesAt distinct fun slot member => (inside slot member).2.1,
      positionsIn_map_namesAt distinct fun slot member => (sound slot member).2.1] at back
    exact given.mp back
  · intro settled
    rw [given.mpr settled]

def formerSlots (prior : Layout) (numPartitions group : Nat) : List (List String) :=
  (List.range numPartitions).map fun partition =>
    if group < prior.numGroups ∧ partition < prior.numPartitions then
      (prior.servers? partition group).getD []
    else []

theorem steadySlots_eq (members : List String) (numPartitions perPartition : Nat) (prior : Layout)
    (group : Nat) :
    steadySlots members numPartitions perPartition prior group =
      let kept := keptSlots members (slotShare members numPartitions perPartition) perPartition
        (Loads.zero members.length) (prior.formerSlots numPartitions group)
      (Loads.fillAll perPartition kept.2 kept.1).1.map (namesAt members) := rfl

/-- The slots of a group are computed again as they are exactly if they are settled. -/
theorem steadySlots_eq_iff {members : List String} {numPartitions perPartition group : Nat}
    {prior : Layout} (distinct : members.Nodup) (room : perPartition ≤ members.length)
    (sound : ∀ slot ∈ prior.formerSlots numPartitions group,
      slot.Nodup ∧ slot ⊆ members ∧ slot.length = perPartition) :
    steadySlots members numPartitions perPartition prior group =
        prior.formerSlots numPartitions group ↔
      Settled members.length (slotShare members numPartitions perPartition)
        (positionsIn members (prior.formerSlots numPartitions group)) := by
  have named : (positionsIn members (prior.formerSlots numPartitions group)).map (namesAt members) =
      prior.formerSlots numPartitions group :=
    map_namesAt_positionsIn fun slot member => (sound slot member).2.1
  have same := refill_eq_iff distinct (slotShare members numPartitions perPartition) room
    (mem_positionsIn (· = perPartition) sound) rfl
  rwa [named, ← steadySlots_eq] at same

/-- What a slot keeps: distinct members, as many as a slot may have, that are below their share. -/
theorem keptSlot_spec {members former : List String} {share perPartition : Nat}
    {loads after : Loads} {kept : List Nat}
    (result : keptSlot members share perPartition loads former = (kept, after)) :
    (kept.Nodup ∧ (∀ position ∈ kept, position < members.length) ∧ kept.length ≤ perPartition) ∧
      (∀ position ∈ kept, loads.carried position < share) ∧ after = loads.addAll kept := by
  induction former using List.reverseRecOn generalizing kept after with
  | nil =>
    cases result
    exact ⟨⟨.nil, fun _ member => absurd member List.not_mem_nil, Nat.zero_le _⟩,
      fun _ member => absurd member List.not_mem_nil, rfl⟩
  | append_singleton former server ih =>
    simp only [keptSlot, List.foldl_append, List.foldl_cons, List.foldl_nil] at ih result
    generalize former.foldl _ _ = state at ih result
    obtain ⟨earlier, before⟩ := state
    obtain ⟨⟨distinct, inside, bound⟩, within, rfl⟩ := ih rfl
    simp only at result
    split at result
    · rename_i position found
      split at result
      · rename_i allowed
        obtain ⟨room, free, light⟩ := allowed
        rw [List.contains_iff_mem] at free
        obtain ⟨below, _⟩ := List.idxOf?_eq_some_iff.mp found
        cases result
        refine ⟨⟨?_, ?_, by rw [List.length_append]; exact room⟩, ?_, ?_⟩
        · exact List.nodup_append.mpr ⟨distinct, by simp, by
            rintro _ member _ last rfl
            exact free (List.mem_singleton.mp last ▸ member)⟩
        · intro other member
          rcases List.mem_append.mp member with old | new
          · exact inside other old
          · exact List.mem_singleton.mp new ▸ below
        · intro other member
          rcases List.mem_append.mp member with old | new
          · exact within other old
          · obtain rfl := List.mem_singleton.mp new
            exact Nat.lt_of_le_of_lt (Loads.carried_le_addAll loads earlier _) light
        · rw [Loads.addAll_append]
          rfl
      · cases result
        exact ⟨⟨distinct, inside, bound⟩, within, rfl⟩
    · cases result
      exact ⟨⟨distinct, inside, bound⟩, within, rfl⟩

theorem keptSlots_spec {members : List String} {share perPartition : Nat}
    {loads after : Loads} {former : List (List String)} {slots : List (List Nat)}
    (result : keptSlots members share perPartition loads former = (slots, after)) :
    (∀ kept ∈ slots, kept.Nodup ∧ (∀ position ∈ kept, position < members.length) ∧
      kept.length ≤ perPartition) ∧ slots.length = former.length ∧
      after = loads.addAll slots.flatten := by
  induction former generalizing loads after slots with
  | nil =>
    cases result
    exact ⟨fun _ member => absurd member List.not_mem_nil, rfl, rfl⟩
  | cons slot rest ih =>
    rcases first : keptSlot members share perPartition loads slot with ⟨kept, next⟩
    rcases later : keptSlots members share perPartition next rest with ⟨others, last⟩
    simp only [keptSlots, first, later, Prod.mk.injEq] at result
    obtain ⟨rfl, rfl⟩ := result
    obtain ⟨sound, _, rfl⟩ := keptSlot_spec first
    obtain ⟨parts, length, same⟩ := ih later
    refine ⟨?_, congrArg (· + 1) length, by rw [same, List.flatten_cons, Loads.addAll_append]⟩
    intro other member
    rcases List.mem_cons.mp member with rfl | member
    · exact sound
    · exact parts other member

/-- The slots of a group as positions of its members. -/
def slotPositions (members : List String) (numPartitions perPartition : Nat)
    (kept : Option Layout) (group : Nat) : List (List Nat) :=
  match kept with
  | some prior =>
    let kept := keptSlots members (slotShare members numPartitions perPartition) perPartition
      (Loads.zero members.length) (prior.formerSlots numPartitions group)
    (Loads.fillAll perPartition kept.2 kept.1).1
  | none =>
    (List.range numPartitions).map fun partition =>
      (List.range perPartition).map fun member =>
        (partition * perPartition + member) % members.length

theorem slotsOf_eq (members : List String) (numPartitions perPartition : Nat)
    (kept : Option Layout) (group : Nat) :
    slotsOf members numPartitions perPartition kept group =
      (slotPositions members numPartitions perPartition kept group).map (namesAt members) := by
  cases kept with
  | some prior => rfl
  | none => simp [slotsOf, dealtSlots, slotPositions, namesAt, cyclic, Function.comp_def]

theorem length_slotPositions (members : List String) (numPartitions perPartition : Nat)
    (kept : Option Layout) (group : Nat) :
    (slotPositions members numPartitions perPartition kept group).length = numPartitions := by
  cases kept with
  | none => simp [slotPositions]
  | some prior =>
    have kept : keptSlots members (slotShare members numPartitions perPartition) perPartition
      (Loads.zero members.length) (prior.formerSlots numPartitions group) = (_, _) := rfl
    obtain ⟨_, length, _⟩ := keptSlots_spec kept
    rw [slotPositions, Loads.length_fillAll, length]
    simp [formerSlots]

theorem mem_slotPositions {members : List String} {numPartitions perPartition group : Nat}
    {kept : Option Layout} (room : perPartition ≤ members.length) {positions : List Nat}
    (member : positions ∈ slotPositions members numPartitions perPartition kept group) :
    positions.Nodup ∧ (∀ position ∈ positions, position < members.length) ∧
      positions.length = perPartition := by
  cases kept with
  | none =>
    obtain ⟨partition, _, rfl⟩ := List.mem_map.mp member
    refine ⟨List.nodup_range.map_on fun first here second there same => ?_, ?_, by simp⟩
    · refine (Nat.ModEq.add_left_cancel' _ same).eq_of_lt_of_lt ?_ ?_
      · exact Nat.lt_of_lt_of_le (List.mem_range.mp here) room
      · exact Nat.lt_of_lt_of_le (List.mem_range.mp there) room
    · intro position inside
      obtain ⟨index, below, rfl⟩ := List.mem_map.mp inside
      exact Nat.mod_lt _ (Nat.lt_of_lt_of_le (Nat.zero_lt_of_lt (List.mem_range.mp below)) room)
  | some prior =>
    have kept : keptSlots members (slotShare members numPartitions perPartition) perPartition
      (Loads.zero members.length) (prior.formerSlots numPartitions group) = (_, _) := rfl
    obtain ⟨sound, _, same⟩ := keptSlots_spec kept
    have length := (congrArg List.length same).trans
      ((Loads.length_addAll ..).trans (Loads.length_zero _))
    have full := Loads.fillAll_full _ (length.symm ▸ room) (by rw [length]; exact sound)
      positions member
    rwa [length] at full

theorem length_steadySlots (members : List String) (numPartitions perPartition : Nat)
    (prior : Layout) (group : Nat) :
    (steadySlots members numPartitions perPartition prior group).length = numPartitions :=
  (List.length_map _).trans
    (length_slotPositions members numPartitions perPartition (some prior) group)

theorem mem_steadySlots {members : List String} {numPartitions perPartition group : Nat}
    {prior : Layout} (distinct : members.Nodup) (room : perPartition ≤ members.length)
    {slot : List String}
    (member : slot ∈ steadySlots members numPartitions perPartition prior group) :
    slot.Nodup ∧ slot ⊆ members ∧ slot.length = perPartition := by
  have named : slot ∈ (slotPositions members numPartitions perPartition (some prior) group).map
      (namesAt members) := member
  obtain ⟨positions, filled, rfl⟩ := List.mem_map.mp named
  obtain ⟨apart, inside, size⟩ := mem_slotPositions room filled
  exact ⟨nodup_namesAt distinct inside apart, namesAt_subset inside,
    (length_namesAt ..).trans size⟩

end SegmentPlacement.Layout

import SegmentPlacement.Proofs.SettledBalance

/-! What balanced placement takes away. A position with no more than the average keeps
all its segments in the first pass, and the second pass only adds. The loop that
evens out the loads takes from a position only what it has above its even load, so
an average load is safe as long as the second pass does not add too much to it. -/

namespace SegmentPlacement.Balanced

section keeps

variable {position : Nat} {before middle after : List (List Nat)}

/-- Every segment on the position stays on it. -/
def Keeps (position : Nat) (before after : List (List Nat)) : Prop :=
  List.Forall₂ (fun first second => position ∈ first → position ∈ second) before after

/-- How many of the segments on the position are taken away from it. -/
def lost (position : Nat) (before after : List (List Nat)) : Nat :=
  (before.zip after).countP fun pair => pair.1.contains position && !pair.2.contains position

theorem Keeps.refl (position : Nat) (placed : List (List Nat)) : Keeps position placed placed :=
  List.forall₂_same.mpr fun _ _ => id

theorem Keeps.trans (first : Keeps position before middle) (second : Keeps position middle after) :
    Keeps position before after := by
  induction first generalizing after with
  | nil => exact second
  | cons here _ ih =>
    cases second with
    | cons there later => exact .cons (there ∘ here) (ih later)

private theorem Keeps.lost_eq_zero (keeps : Keeps position before after) :
    lost position before after = 0 := by
  refine List.countP_eq_zero.mpr fun pair member => ?_
  have stays := (List.forall₂_iff_zip.mp keeps).2 member
  simpa [-Bool.not_eq_true, ← Bool.eq_false_iff] using stays

/-- What a position gets in between does not save what it had. -/
theorem Keeps.lost_le (keeps : Keeps position before middle) (after : List (List Nat)) :
    lost position before after ≤ lost position middle after := by
  induction keeps generalizing after with
  | nil => exact Nat.le_refl _
  | cons here _ ih =>
    cases after with
    | nil => exact Nat.le_refl _
    | cons there later =>
      simp only [lost, List.zip_cons_cons, List.countP_cons] at ih ⊢
      refine Nat.add_le_add (ih later) ?_
      split <;> rename_i first
      · simp only [Bool.and_eq_true, List.contains_iff_mem] at first ⊢
        rw [if_pos ⟨here first.1, first.2⟩]
      · exact Nat.zero_le _

theorem Keeps.lost_anti (keeps : Keeps position middle after) (before : List (List Nat)) :
    lost position before after ≤ lost position before middle := by
  induction keeps generalizing before with
  | nil => exact Nat.le_refl _
  | cons here _ ih =>
    cases before with
    | nil => exact Nat.le_refl _
    | cons first rest =>
      simp only [lost, List.zip_cons_cons, List.countP_cons] at ih ⊢
      refine Nat.add_le_add (ih rest) ?_
      split <;> rename_i gone
      · simp only [Bool.and_eq_true, Bool.not_eq_true', ← Bool.not_eq_true, List.contains_iff_mem]
          at gone ⊢
        rw [if_pos ⟨gone.1, fun taken => gone.2 (here taken)⟩]
      · exact Nat.zero_le _

theorem Keeps.lost_add (keeps : Keeps position after before) :
    lost position before after + after.countP (·.contains position) =
      before.countP (·.contains position) := by
  induction keeps with
  | nil => rfl
  | @cons second first _ _ here _ ih =>
    simp only [lost, List.zip_cons_cons, List.countP_cons, Bool.and_eq_true, Bool.not_eq_true',
      ← Bool.not_eq_true, List.contains_iff_mem] at ih ⊢
    by_cases kept : position ∈ second
    · simp only [here kept, kept, not_true_eq_false, and_false, if_true, if_false]
      omega
    · simp only [kept, not_false_eq_true, and_true, if_false]
      omega

end keeps

section passes

variable {replication : Nat} {share : Share} {loads : Loads} {position : Nat}

private theorem keepReplicas_keeps {left : Share} {after : Loads} {held kept : List Nat}
    (light : loads.carried position + held.count position ≤ share.average)
    (fits : held.length ≤ replication) (inside : ∀ other ∈ held, other < loads.length)
    (result : keepReplicas replication share loads held = (kept, left, after)) :
    left.average = share.average ∧ (position ∈ held → position ∈ kept) := by
  induction held using List.reverseRecOn generalizing kept left after with
  | nil =>
    cases result
    exact ⟨rfl, id⟩
  | append_singleton held last ih =>
    rw [List.length_append] at fits
    rw [List.count_append] at light
    rcases earlier : keepReplicas replication share loads held with ⟨former, middle, reached⟩
    obtain ⟨sublist, _, rfl⟩ := keepReplicas_spec earlier
    obtain ⟨average, stays⟩ := ih (by omega) (Nat.le_of_succ_le fits)
      (fun other member => inside other (List.mem_append_left _ member)) earlier
    have room : former.length < replication := Nat.lt_of_le_of_lt sublist.length_le fits
    have within := inside last (List.mem_append_right _ List.mem_cons_self)
    simp only [keepReplicas] at earlier
    simp only [keepReplicas, List.foldl_append, earlier, List.foldl_cons, List.foldl_nil,
      if_pos room] at result
    cases decided : middle.keep? ((loads.addAll former).carried last) with
    | some next =>
      simp only [decided, Prod.mk.injEq] at result
      obtain ⟨rfl, rfl, rfl⟩ := result
      refine ⟨(Share.keep?_spec decided).2.1.trans average, fun member => ?_⟩
      rcases List.mem_append.mp member with old | new
      · exact List.mem_append_left _ (stays old)
      · exact List.mem_append_right _ new
    | none =>
      simp only [decided, Prod.mk.injEq] at result
      obtain ⟨rfl, rfl, rfl⟩ := result
      refine ⟨average, fun member => ?_⟩
      rcases List.mem_append.mp member with old | new
      · exact stays old
      · obtain rfl := List.mem_singleton.mp new
        -- The position is below the average, so it would have been kept.
        have fewer := sublist.count_le position
        rw [Loads.carried_addAll _ _ within, Share.keep?, if_pos] at decided
        · cases decided
        · rw [List.count_singleton_self] at light
          omega

private theorem keepAll_keeps {after : Loads} {held kept : List (List Nat)}
    (light : loads.carried position + held.flatten.count position ≤ share.average)
    (fits : ∀ list ∈ held, list.length ≤ replication)
    (inside : ∀ list ∈ held, ∀ other ∈ list, other < loads.length) (known : position < loads.length)
    (result : keepAll replication share loads held = (kept, after)) : Keeps position held kept := by
  induction held generalizing share loads kept after with
  | nil =>
    cases result
    exact .nil
  | cons list rest ih =>
    obtain ⟨fit, fits⟩ := List.forall_mem_cons.mp fits
    obtain ⟨here, later⟩ := List.forall_mem_cons.mp inside
    rw [List.flatten_cons, List.count_append] at light
    rcases first : keepReplicas replication share loads list with ⟨former, left, next⟩
    rcases second : keepAll replication left next rest with ⟨others, last⟩
    simp only [keepAll, first, second, Prod.mk.injEq] at result
    obtain ⟨rfl, rfl⟩ := result
    have lighter : loads.carried position + list.count position ≤ share.average := by omega
    obtain ⟨average, stays⟩ := keepReplicas_keeps lighter fit here first
    obtain ⟨sublist, _, rfl⟩ := keepReplicas_spec first
    refine .cons stays (ih ?_ fits (by simpa using later) (by simpa using known) second)
    have fewer := sublist.count_le position
    rw [Loads.carried_addAll _ _ known, average]
    omega

theorem fillAll_keeps (size position : Nat) (loads : Loads) (lists : List (List Nat)) :
    Keeps position lists (Loads.fillAll size loads lists).1 := by
  induction lists generalizing loads with
  | nil => exact .nil
  | cons taken rest ih =>
    obtain ⟨added, filled, _⟩ := Loads.fill_spec (size - taken.length) loads taken
    simp only [Loads.fillAll, filled]
    exact .cons (List.mem_append_left added) (ih _)

private theorem beforeRepair_keeps {slots : Nat} {held : List (List Nat)} (known : position < slots)
    (fits : ∀ list ∈ held, list.length ≤ replication)
    (inside : ∀ list ∈ held, ∀ other ∈ list, other < slots)
    (light : held.flatten.count position ≤ held.length * replication / slots) :
    Keeps position held (beforeRepair replication slots held).2 := by
  rcases first : keepAll replication (Share.divide (held.length * replication) slots)
    (Loads.zero slots) held with ⟨kept, keptLoads⟩
  have filled : (beforeRepair replication slots held).2 =
      (Loads.fillAll replication keptLoads kept).1 := by
    simp only [beforeRepair, first]
  rw [filled]
  refine (keepAll_keeps ?_ fits (by simpa using inside) (by simpa using known) first).trans
    (fillAll_keeps ..)
  rwa [Loads.carried_zero, Nat.zero_add]

end passes

section repair

variable {replication slots count average position high low : Nat} {loads : Loads}
  {start before after : State}

private theorem Placed.total_eq (placed : Placed replication slots count before) :
    total before.1 = count * replication := by
  obtain ⟨loads, lists⟩ := before
  have inside : ∀ other ∈ lists.flatten, other < slots := by
    intro other member
    obtain ⟨kept, listed, taken⟩ := List.mem_flatten.mp member
    exact placed.tally.inside kept listed other taken
  have counts : loads = (Loads.zero slots).addAll lists.flatten := by
    refine Loads.ext_carried (by simpa using placed.tally.length) fun other below => ?_
    rw [placed.tally.length] at below
    rw [Loads.carried_addAll _ _ (by simpa using below), Loads.carried_zero, Nat.zero_add]
    exact placed.tally.counted other below
  have length : lists.length = count := placed.length
  rw [← length, ← total_addAll_flatten placed.full inside, ← counts]

theorem Placed.countP_eq (placed : Placed replication slots count before)
    (known : position < slots) :
    before.2.countP (·.contains position) = before.1.carried position := by
  rw [placed.tally.counted position known, count_flatten_of_nodup placed.tally.distinct]

private theorem carried_shift {other : Nat} (apart : high ≠ low)
    (within : other < loads.length) :
    (loads.shift high low).carried other =
      if other = high then loads.carried high - 1
      else if other = low then loads.carried low + 1 else loads.carried other := by
  rw [Loads.shift, Loads.carried_modify _ _ _ (by simpa using within),
    Loads.carried_modify _ _ _ within]
  by_cases top : other = high
  · subst top
    simp [apart.symm]
  · by_cases bottom : other = low
    · subst bottom
      simp [apart, top]
    · simp [Ne.symm top, Ne.symm bottom, top, bottom]

/-- Nothing can be taken from the position any more. -/
def DoneGiving (average : Nat) (loads : Loads) (position : Nat) : Prop :=
  loads.carried position ≤ average + 1 ∧ (loads.carried position = average + 1 →
    ∀ other < loads.length, average ≤ loads.carried other)

/-- Nothing can be given to the position any more. -/
def DoneTaking (average : Nat) (loads : Loads) (position : Nat) : Prop :=
  average ≤ loads.carried position ∧ (loads.carried position = average →
    ∀ other < loads.length, loads.carried other ≤ average + 1)

private theorem keeps_moved {placed : List (List Nat)} {segment : Nat} {kept : List Nat}
    (listed : placed[segment]? = some kept) (held : high ∈ kept) :
    (position ≠ high → Keeps position placed (placed.modify segment (moved high low))) ∧
      (position ≠ low → Keeps position (placed.modify segment (moved high low)) placed) := by
  have members : ∀ (index : Nat) (here : index < placed.length)
      (there : index < (placed.modify segment (moved high low)).length),
      (position ≠ high → position ∈ placed[index] →
        position ∈ (placed.modify segment (moved high low))[index]) ∧
      (position ≠ low → position ∈ (placed.modify segment (moved high low))[index] →
        position ∈ placed[index]) := by
    intro index here there
    rw [List.getElem_modify]
    split <;> rename_i same
    · subst same
      obtain rfl : placed[segment] = kept :=
        Option.some.inj ((List.getElem?_eq_getElem here).symm.trans listed)
      rw [mem_moved held]
      exact ⟨fun other member => Or.inr ⟨member, other⟩, fun other member =>
        (member.resolve_left other).1⟩
    · exact ⟨fun _ => id, fun _ => id⟩
  refine ⟨fun other => List.forall₂_iff_get.mpr ⟨(List.length_modify ..).symm, ?_⟩,
    fun other => List.forall₂_iff_get.mpr ⟨List.length_modify .., ?_⟩⟩
  · exact fun index here there => (members index here there).1 other
  · exact fun index there here => (members index here there).2 other

/-- A most and a least loaded position more than one apart, around the average. -/
structure Uneven (average : Nat) (loads : Loads) (high low : Nat) : Prop where
  top : high < loads.length
  bottom : low < loads.length
  apart : loads.carried low + 1 < loads.carried high
  between : ∀ other < loads.length, loads.carried low ≤ loads.carried other ∧
    loads.carried other ≤ loads.carried high
  below : loads.carried low ≤ average
  above : average < loads.carried high

private theorem Uneven.of_apart (top : high < loads.length) (bottom : low < loads.length)
    (apart : loads.carried low + 1 < loads.carried high)
    (between : ∀ other < loads.length, loads.carried low ≤ loads.carried other ∧
      loads.carried other ≤ loads.carried high) :
    Uneven (total loads / loads.length) loads high low := by
  have some := Nat.zero_lt_of_lt top
  refine ⟨top, bottom, apart, between, ?_, ?_⟩
  · have whole := Loads.above_of_least fun other within => (between other within).1
    rw [Nat.le_div_iff_mul_le some, Nat.mul_comm]
    omega
  · have most : ∀ load ∈ loads.add low, load ≤ loads.carried high := by
      refine Loads.forall_mem_iff.mpr fun other within => ?_
      rw [Loads.length_add] at within
      rw [Loads.carried_add bottom]
      split <;> rename_i same
      · subst same
        omega
      · exact (between other within).2
    have bound := total_le most
    rw [Loads.total_add bottom, Loads.length_add] at bound
    rw [Nat.div_lt_iff_lt_mul some, Nat.mul_comm]
    omega

namespace Uneven

variable (uneven : Uneven average loads high low)
include uneven

theorem distinct : high ≠ low := by
  rintro rfl
  have := uneven.apart
  omega

private theorem not_doneGiving : ¬ DoneGiving average loads high := by
  intro ⟨most, all⟩
  have := all (by have := uneven.above; omega) low uneven.bottom
  have := uneven.apart
  omega

private theorem not_doneTaking : ¬ DoneTaking average loads low := by
  intro ⟨least, all⟩
  have := all (by have := uneven.below; omega) high uneven.top
  have := uneven.apart
  omega

private theorem doneTaking_high : DoneTaking average (loads.shift high low) high := by
  have apart := uneven.apart
  have above := uneven.above
  rw [DoneTaking, carried_shift uneven.distinct uneven.top, if_pos rfl]
  refine ⟨by omega, fun same other within => ?_⟩
  rw [Loads.length_shift] at within
  have between := uneven.between other within
  rw [carried_shift uneven.distinct within]
  split_ifs <;> omega

private theorem doneGiving_low : DoneGiving average (loads.shift high low) low := by
  have apart := uneven.apart
  have below := uneven.below
  rw [DoneGiving, carried_shift uneven.distinct uneven.bottom, if_neg uneven.distinct.symm,
    if_pos rfl]
  refine ⟨by omega, fun same other within => ?_⟩
  rw [Loads.length_shift] at within
  have between := uneven.between other within
  rw [carried_shift uneven.distinct within]
  split_ifs <;> omega

private theorem doneGiving (known : position < loads.length) (source : position ≠ high)
    (goal : position ≠ low) (done : DoneGiving average loads position) :
    DoneGiving average (loads.shift high low) position := by
  rw [DoneGiving, carried_shift uneven.distinct known, if_neg source, if_neg goal]
  refine ⟨done.1, fun same other within => ?_⟩
  rw [Loads.length_shift] at within
  have least := done.2 same other within
  have lowest := done.2 same low uneven.bottom
  have above := uneven.above
  rw [carried_shift uneven.distinct within]
  split_ifs <;> omega

private theorem doneTaking (known : position < loads.length) (source : position ≠ high)
    (goal : position ≠ low) (done : DoneTaking average loads position) :
    DoneTaking average (loads.shift high low) position := by
  rw [DoneTaking, carried_shift uneven.distinct known, if_neg source, if_neg goal]
  refine ⟨done.1, fun same other within => ?_⟩
  rw [Loads.length_shift] at within
  have most := done.2 same other within
  have highest := done.2 same high uneven.top
  have below := uneven.below
  rw [carried_shift uneven.distinct within]
  split_ifs <;> omega

end Uneven

/-- The loop only takes from a position or only gives to it. Once it has done one, it can no longer
do the other. -/
structure OneWay (average position : Nat) (start now : State) : Prop where
  way : Keeps position now.2 start.2 ∨ Keeps position start.2 now.2
  giving : Keeps position now.2 start.2 ∨ DoneGiving average now.1 position
  taking : Keeps position start.2 now.2 ∨ DoneTaking average now.1 position

theorem OneWay.moves (oneWay : OneWay (count * replication / slots) position start before)
    (placed : Placed replication slots count before) (known : position < slots)
    (move : Moves before after) : OneWay (count * replication / slots) position start after := by
  obtain ⟨high, top, low, bottom, between, apart, segment, kept, listed, held, free, rfl⟩ :=
    move.cases
  have uneven := Uneven.of_apart top bottom apart between
  have keeps := @keeps_moved position high low before.2 segment kept listed held
  rw [placed.total_eq, placed.tally.length] at uneven
  rw [← placed.tally.length] at known
  by_cases source : position = high
  · subst source
    have gave := (keeps.2 uneven.distinct).trans
      (oneWay.giving.resolve_right uneven.not_doneGiving)
    exact ⟨Or.inl gave, Or.inl gave, Or.inr uneven.doneTaking_high⟩
  by_cases goal : position = low
  · subst goal
    have took := (oneWay.taking.resolve_right uneven.not_doneTaking).trans (keeps.1 source)
    exact ⟨Or.inr took, Or.inr uneven.doneGiving_low, Or.inl took⟩
  · have back : Keeps position before.2 start.2 → _ := (keeps.2 goal).trans
    have forth : Keeps position start.2 before.2 → _ := fun took => took.trans (keeps.1 source)
    exact ⟨oneWay.way.imp back forth, oneWay.giving.imp back (uneven.doneGiving known source goal),
      oneWay.taking.imp forth (uneven.doneTaking known source goal)⟩

/-- The loop takes from a position just what its load goes down by. -/
theorem lost_moves (placed : Placed replication slots count start) (known : position < slots)
    (path : Relation.ReflTransGen Moves start after) :
    lost position start.2 after.2 = start.1.carried position - after.1.carried position := by
  have oneWay : OneWay (count * replication / slots) position start after := by
    induction path with
    | refl => exact ⟨Or.inl (.refl ..), Or.inl (.refl ..), Or.inl (.refl ..)⟩
    | tail earlier move ih => exact ih.moves (placed.moves earlier) known move
  have first := placed.countP_eq known
  have last := (placed.moves path).countP_eq known
  rcases oneWay.way with gave | took
  · have difference := gave.lost_add
    omega
  · have none := took.lost_eq_zero
    have difference := took.lost_add
    omega

private theorem eq_of_even (even : Even start.1) (path : Relation.ReflTransGen Moves start after) :
    after = start := by
  rcases path.cases_head with same | ⟨next, move, _⟩
  · exact same.symm
  · rw [Moves, evenStep_of_even even] at move
    cases move

end repair

section servers

variable {replication : Nat} {servers names : List String} {prior : Assignment}
  {placed : List (String × List String)} {server : String}

def heldOf (prior : Assignment) (names : List String) (server : String) : Nat :=
  names.countP fun name => ((prior.get? name).getD {}).contains server

def takenFrom (prior : Assignment) (placed : List (String × List String)) (server : String) : Nat :=
  placed.countP fun entry =>
    ((prior.get? entry.1).getD {}).contains server && !entry.2.contains server

theorem takenFrom_eq_zero_iff : takenFrom prior placed server = 0 ↔
    ∀ entry ∈ placed, server ∈ ((prior.get? entry.1).getD {}).keys → server ∈ entry.2 := by
  simp only [takenFrom, List.countP_eq_zero, Bool.and_eq_true, Bool.not_eq_true',
    ← Bool.not_eq_true, List.contains_iff_mem, OrderedMap.contains_iff, not_and, not_not]

private theorem length_heldPositions (servers : List String) (replicas : Replicas) :
    (heldPositions servers replicas).length = servers.countP replicas.contains := by
  have all : (List.range servers.length).map (fun position => servers.getD position "") =
      servers := by
    refine List.ext_getElem (by simp) fun position _ inside => ?_
    rw [List.getElem_map, List.getElem_range, List.getD_eq_getElem _ _ inside]
  calc (heldPositions servers replicas).length
    _ = (List.range servers.length).countP
          (replicas.contains ∘ fun position => servers.getD position "") :=
      List.countP_eq_length_filter.symm
    _ = servers.countP replicas.contains := by rw [← List.countP_map, all]

private theorem count_heldPositions {position : Nat} (inside : position < servers.length) :
    (names.map fun name => heldPositions servers ((prior.get? name).getD {})).flatten.count
      position = heldOf prior names (servers.getD position "") := by
  have distinct : ∀ held ∈ names.map (fun name =>
      heldPositions servers ((prior.get? name).getD {})), held.Nodup :=
    List.forall_mem_map.mpr fun _ _ => nodup_heldPositions ..
  rw [count_flatten_of_nodup distinct, List.countP_map, heldOf]
  refine List.countP_congr fun name _ => ?_
  rw [Function.comp_apply, List.contains_iff_mem, mem_heldPositions inside]

private theorem Placed.even_of_level {state : State}
    (placed : Placed replication servers.length names.length state) (distinct : servers.Nodup)
    (level : ∀ first ∈ servers, ∀ second ∈ servers,
      hosted (named servers names state.2) first ≤
        hosted (named servers names state.2) second + 1) : Even state.1 := by
  intro first here second there
  rw [placed.tally.length] at here there
  rw [← hosted_named distinct placed.tally placed.length here,
    ← hosted_named distinct placed.tally placed.length there]
  exact level _ (getD_mem here) _ (getD_mem there)

private theorem takenFrom_named (distinct : servers.Nodup) {lists : List (List Nat)}
    (inside : ∀ kept ∈ lists, ∀ other ∈ kept, other < servers.length) {position : Nat}
    (known : position < servers.length) :
    takenFrom prior (named servers names lists) (servers.getD position "") =
      lost position (names.map fun name => heldPositions servers ((prior.get? name).getD {}))
        lists := by
  rw [takenFrom, named, List.zip_map_right, lost, List.zip_map_left, List.countP_map,
    List.countP_map]
  refine List.countP_congr fun pair member => ?_
  have listed := inside pair.2 (List.of_mem_zip member).2
  simp only [Function.comp_apply, Prod.map_fst, Prod.map_snd, id_eq, Bool.and_eq_true,
    Bool.not_eq_true', ← Bool.not_eq_true, List.contains_iff_mem, mem_heldPositions known,
    getD_mem_namesAt_iff distinct listed known]

/-- Every segment has all its replicas, on distinct servers of the list. -/
def Replicated (replication : Nat) (servers : List String)
    (placed : List (String × List String)) : Prop :=
  ∀ entry ∈ placed, entry.2.length = replication ∧ entry.2.Nodup ∧ entry.2 ⊆ servers

/-- No server hosts two segments more than another. -/
def Level (servers : List String) (placed : List (String × List String)) : Prop :=
  ∀ first ∈ servers, ∀ second ∈ servers, hosted placed first ≤ hosted placed second + 1

theorem total_hosted (distinct : servers.Nodup) (full : Replicated replication servers placed) :
    total (servers.map (hosted placed)) = placed.length * replication := by
  have counted : servers.map (hosted placed) = servers.map fun server =>
      (placed.map Prod.snd).flatten.countP fun other => id other = server := by
    refine List.map_congr_left fun server _ => ?_
    have each := count_flatten_of_nodup
      (List.forall_mem_map.mpr fun entry member => (full entry member).2.1) server
    rw [List.countP_map] at each
    exact each.symm.trans (List.countP_congr fun other _ => by simp)
  have covered : ∀ other ∈ (placed.map Prod.snd).flatten, id other ∈ servers := by
    intro other member
    obtain ⟨hosts, listed, inside⟩ := List.mem_flatten.mp member
    obtain ⟨entry, taken, rfl⟩ := List.mem_map.mp listed
    exact (full entry taken).2.2 inside
  rw [counted, total_countP id distinct covered, length_flatten_of_length
    (List.forall_mem_map.mpr fun entry member => (full entry member).1), List.length_map]

theorem average_le_hosted (distinct : servers.Nodup) (full : Replicated replication servers placed)
    (level : Level servers placed) (known : server ∈ servers) :
    placed.length * replication / servers.length ≤ hosted placed server := by
  let loads : Loads := servers.map (hosted placed)
  have length : loads.length = servers.length := List.length_map _
  have carried : ∀ position (inside : position < servers.length),
      loads.carried position = hosted placed servers[position] := by
    intro position inside
    rw [Loads.carried, List.getD_eq_getElem _ _ (length.symm ▸ inside), List.getElem_map]
  have even : ∀ first < loads.length, ∀ second < loads.length,
      loads.carried first ≤ loads.carried second + 1 := by
    intro first here second there
    rw [length] at here there
    rw [carried first here, carried second there]
    exact level _ (List.getElem_mem here) _ (List.getElem_mem there)
  obtain ⟨position, inside, rfl⟩ := List.mem_iff_getElem.mp known
  have least := Share.average_le_of_even even position (length.symm ▸ inside)
  rwa [carried position inside, length, total_hosted distinct full] at least

/-- Whether a segment could be on the server without leaving one of the others. -/
def Free (replication : Nat) (servers : List String) (replicas : Replicas) (server : String) :
    Prop :=
  replicas.contains server ∨ servers.countP replicas.contains < replication

instance (replication : Nat) (servers : List String) (replicas : Replicas) (server : String) :
    Decidable (Free replication servers replicas server) :=
  inferInstanceAs (Decidable (_ ∨ _))

/-- Where fewer segments are free for a server than the average, servers can only be level if
something is taken away. -/
theorem taken_of_level (distinct : servers.Nodup) (full : Replicated replication servers placed)
    (level : Level servers placed) (known : server ∈ servers)
    (crowded : (placed.countP fun entry =>
      Free replication servers ((prior.get? entry.1).getD {}) server) <
        placed.length * replication / servers.length) :
    ∃ other ∈ servers, 0 < takenFrom prior placed other := by
  by_contra none
  have stays : ∀ other ∈ servers, takenFrom prior placed other = 0 := fun other listed =>
    Nat.eq_zero_of_not_pos fun some => none ⟨other, listed, some⟩
  have enough := average_le_hosted distinct full level known
  refine absurd (List.countP_mono_left fun entry member holds => ?_)
    (Nat.not_le_of_lt (Nat.lt_of_lt_of_le crowded enough))
  obtain ⟨length, apart, _⟩ := full entry member
  let held := servers.filter ((prior.get? entry.1).getD {}).contains
  have there : server ∈ entry.2 := List.contains_iff_mem.mp holds
  refine decide_eq_true (or_iff_not_imp_left.mpr fun absent => ?_)
  -- What the segment held, and the server, which is new to it, are all among its servers.
  have inside : server :: held ⊆ entry.2 := by
    refine List.cons_subset.mpr ⟨there, fun other listed => ?_⟩
    obtain ⟨inside, holds⟩ := List.mem_filter.mp listed
    exact takenFrom_eq_zero_iff.mp (stays other inside) entry member
      (OrderedMap.contains_iff.mp holds)
  have new : (server :: held).Nodup :=
    List.nodup_cons.mpr ⟨fun listed => absent (List.mem_filter.mp listed).2, distinct.filter _⟩
  have bound := new.length_le_of_subset inside
  rw [List.length_cons, length, ← List.countP_eq_length_filter] at bound
  exact bound

end servers

/-- What balanced placement takes away from a server that held no more than the average. The keep
pass and the fill pass take nothing. The loop takes no more than the load that the fill pass left
goes down by, and the load does not go below the average; so nothing is taken if the fill pass left
no more than the average, or level servers. -/
theorem placeMembers_takes (table : TableConfig) (layout : Layout) (prior : Assignment)
    (members : List Member) (servers : List String) (valid : layout.validate = .ok ())
    (flat : layout.isFlat) (listed : layout.servers? 0 0 = some servers)
    (enough : table.replication ≤ servers.length)
    (fits : ∀ member ∈ members,
      servers.countP ((prior.get? member.name).getD {}).contains ≤ table.replication) :
    let names := members.map Member.name
    let average := names.length * table.replication / servers.length
    let filled := named servers names (beforeRepair table.replication servers.length
      (names.map fun name => heldPositions servers ((prior.get? name).getD {}))).2
    ∃ placed, table.placeMembers layout prior members = .ok placed ∧
      placed.map Prod.fst = names ∧ Replicated table.replication servers placed ∧
      ∀ server ∈ servers, heldOf prior names server ≤ average →
        takenFrom prior filled server = 0 ∧ average ≤ hosted placed server ∧
        takenFrom prior placed server ≤ hosted filled server - hosted placed server ∧
        (hosted filled server ≤ average ∨ Level servers filled →
          takenFrom prior placed server = 0) := by
  intro names average filled
  let held := names.map fun name => heldPositions servers ((prior.get? name).getD {})
  let start := beforeRepair table.replication servers.length held
  have distinct := (Layout.validate_iff.mp valid).distinct _ _ listed
  have begun : Placed table.replication servers.length names.length start :=
    placed_held names prior enough
  obtain ⟨last, path, stuck, same⟩ := place_stuck table.replication servers names prior
  have final := begun.moves path
  have full := final.full_named distinct
  have level := final.hosted_even distinct (final.tally.even_of_stuck stuck)
  refine ⟨named servers names last.2, ?_, final.names_named, full, fun server known light => ?_⟩
  · rw [placeMembers_of_flat prior members valid flat listed enough, same]
  have least : average ≤ hosted (named servers names last.2) server := by
    have least := average_le_hosted distinct full level known
    rwa [← List.length_map (f := Prod.fst), final.names_named] at least
  obtain ⟨position, inside, rfl⟩ := List.mem_iff_getElem.mp known
  rw [← List.getD_eq_getElem _ "" inside] at light least ⊢
  have keeps : Keeps position held start.2 := by
    refine beforeRepair_keeps inside ?_ (List.forall_mem_map.mpr fun _ _ => heldPositions_lt) ?_
    · refine List.forall_mem_map.mpr (List.forall_mem_map.mpr fun member listed => ?_)
      rw [length_heldPositions]
      exact fits member listed
    · rw [count_heldPositions inside, List.length_map]
      exact light
  have none : takenFrom prior filled (servers.getD position "") = 0 :=
    (takenFrom_named distinct begun.tally.inside inside).trans keeps.lost_eq_zero
  have taken : takenFrom prior (named servers names last.2) (servers.getD position "") ≤
      hosted filled (servers.getD position "") -
        hosted (named servers names last.2) (servers.getD position "") := by
    rw [takenFrom_named distinct final.tally.inside inside,
      hosted_named distinct begun.tally begun.length inside,
      hosted_named distinct final.tally final.length inside, ← lost_moves begun inside path]
    exact keeps.lost_le last.2
  refine ⟨none, least, taken, ?_⟩
  rintro (few | level)
  · exact Nat.eq_zero_of_le_zero (taken.trans (Nat.sub_eq_zero_of_le (few.trans least)).le)
  · rw [eq_of_even (begun.even_of_level distinct level) path]
    exact none

/-- Three segments on the same two servers, and three that are nowhere. -/
def pairedAndNew : Assignment :=
  OrderedMap.ofList
    ((["s1", "s2", "s3"].map fun name => (name, .uniform ["a", "b"] .online)) ++
      ["s4", "s5", "s6"].map fun name => (name, {}))

def sixMembers : List Member :=
  ["s1", "s2", "s3", "s4", "s5", "s6"].map fun name =>
    { name, partition := 0, consuming := false, home := some (.kind .offline) }

/-- The fill pass leaves five segments on the first server, so it loses at most one. -/
theorem placeMembers_takes_one :
    ∃ placed, pairedTable.placeMembers threeServers pairedAndNew sixMembers = .ok placed ∧
      4 ≤ hosted placed "a" ∧ takenFrom pairedAndNew placed "a" ≤ 1 := by
  obtain ⟨placed, done, _, _, light⟩ := placeMembers_takes pairedTable threeServers pairedAndNew
    sixMembers ["a", "b", "c"] (by decide +kernel) (by decide) (by decide +kernel) (by decide)
    (by decide +kernel)
  obtain ⟨_, least, taken, _⟩ := light "a" (by decide) (by decide +kernel)
  have five : hosted (named ["a", "b", "c"] (sixMembers.map Member.name)
      (beforeRepair 2 3 ((sixMembers.map Member.name).map fun name =>
        heldPositions ["a", "b", "c"] ((pairedAndNew.get? name).getD {}))).2) "a" = 5 := by
    decide +kernel
  have four : 4 ≤ hosted placed "a" := least
  refine ⟨placed, done, four, taken.trans ?_⟩
  change hosted (named _ _ (beforeRepair 2 3 _).2) "a" - _ ≤ 1
  rw [five]
  omega

/-- The first two servers hold three segments each, the average is four, and one of them loses a
segment to the third server. -/
theorem not_all_light_servers_keep :
    ¬ ∀ (table : TableConfig) (layout : Layout) (prior : Assignment) (members : List Member)
      (servers : List String) (placed : List (String × List String)),
      layout.validate = .ok () → layout.isFlat → layout.servers? 0 0 = some servers →
      (∀ member ∈ members,
        servers.countP ((prior.get? member.name).getD {}).contains ≤ table.replication) →
      table.placeMembers layout prior members = .ok placed →
      ∀ server ∈ servers, heldOf prior (members.map Member.name) server ≤
        members.length * table.replication / servers.length →
      takenFrom prior placed server = 0 := by
  intro keeps
  have none := keeps pairedTable threeServers pairedAndNew sixMembers ["a", "b", "c"]
    ((pairedTable.placeMembers threeServers pairedAndNew sixMembers).toOption.getD [])
    (by decide +kernel) (by decide) (by decide +kernel) (by decide +kernel) (by decide +kernel) "a"
    (by decide) (by decide +kernel)
  exact absurd none (by decide +kernel)

/-- No level placement leaves these segments where they are: only three of them are free for the
third server. -/
theorem pairedAndNew_taken {placed : List (String × List String)}
    (full : Replicated 2 ["a", "b", "c"] placed) (level : Level ["a", "b", "c"] placed)
    (named : placed.map Prod.fst = sixMembers.map Member.name) :
    ∃ server ∈ ["a", "b", "c"], 0 < takenFrom pairedAndNew placed server := by
  have crowded : ((placed.map Prod.fst).countP fun name =>
      Free 2 ["a", "b", "c"] ((pairedAndNew.get? name).getD {}) "c") <
        (placed.map Prod.fst).length * 2 / ["a", "b", "c"].length := by
    rw [named]
    decide +kernel
  rw [List.countP_map, List.length_map] at crowded
  exact taken_of_level (by decide) full level (by decide) crowded

end SegmentPlacement.Balanced

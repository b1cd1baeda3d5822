import SegmentPlacement.Placement.Target
import SegmentPlacement.Proofs.LayoutSlots
import SegmentPlacement.Proofs.Loads
import Mathlib.Data.List.Induction
import Mathlib.Logic.Relation
import Mathlib.Tactic.Linarith

/-! Balanced placement is even. All passes keep a tally: the loads count the
replicas that were placed, and no segment has two of them on one position. The
repair loop can always move a replica while two loads are more than one apart,
and every move lowers the sum of the squared loads, so it ends with even loads. -/

namespace SegmentPlacement.Balanced

/-- The loads count the placed replicas, which lie on distinct positions. -/
structure Tally (slots : Nat) (loads : Loads) (placed : List (List Nat)) : Prop where
  length : loads.length = slots
  distinct : ∀ kept ∈ placed, kept.Nodup
  inside : ∀ kept ∈ placed, ∀ position ∈ kept, position < slots
  counted : ∀ position < slots, loads.carried position = placed.flatten.count position

/-- No load is more than one above another. -/
def Even (loads : Loads) : Prop :=
  ∀ first < loads.length, ∀ second < loads.length, loads.carried first ≤ loads.carried second + 1

theorem keepReplicas_spec {replication : Nat} {share left : Share} {loads after : Loads}
    {held kept : List Nat}
    (result : keepReplicas replication share loads held = (kept, left, after)) :
    kept.Sublist held ∧ kept.length ≤ replication ∧ after = loads.addAll kept := by
  induction held using List.reverseRecOn generalizing kept left after with
  | nil =>
    cases result
    exact ⟨.slnil, Nat.zero_le _, rfl⟩
  | append_singleton held position ih =>
    simp only [keepReplicas, List.foldl_append, List.foldl_cons, List.foldl_nil] at ih result
    generalize held.foldl _ _ = state at ih result
    obtain ⟨earlier, share, before⟩ := state
    obtain ⟨sublist, bound, rfl⟩ := ih rfl
    have skipped : earlier.Sublist (held ++ [position]) :=
      sublist.trans (List.sublist_append_left ..)
    simp only at result
    split at result
    · rename_i room
      split at result
      · cases result
        refine ⟨sublist.append (.refl _), by rw [List.length_append]; exact room, ?_⟩
        rw [Loads.addAll_append]
        rfl
      · cases result
        exact ⟨skipped, bound, rfl⟩
    · cases result
      exact ⟨skipped, bound, rfl⟩

private theorem keepAll_spec {replication : Nat} {share : Share} {loads after : Loads}
    {held placed : List (List Nat)} (result : keepAll replication share loads held = (placed, after)) :
    placed.length = held.length ∧
      (∀ kept ∈ placed, kept.length ≤ replication ∧ ∃ list ∈ held, kept.Sublist list) ∧
      after = loads.addAll placed.flatten := by
  induction held generalizing share loads after placed with
  | nil =>
    cases result
    exact ⟨rfl, fun _ member => absurd member List.not_mem_nil, rfl⟩
  | cons list rest ih =>
    rcases first : keepReplicas replication share loads list with ⟨kept, left, next⟩
    rcases later : keepAll replication left next rest with ⟨others, last⟩
    simp only [keepAll, first, later, Prod.mk.injEq] at result
    obtain ⟨rfl, rfl⟩ := result
    obtain ⟨sublist, bound, rfl⟩ := keepReplicas_spec first
    obtain ⟨length, parts, rfl⟩ := ih later
    refine ⟨congrArg (· + 1) length, ?_, ?_⟩
    · intro member inside
      rcases List.mem_cons.mp inside with rfl | inside
      · exact ⟨bound, list, List.mem_cons_self, sublist⟩
      · obtain ⟨bounded, other, listed, part⟩ := parts member inside
        exact ⟨bounded, other, List.mem_cons_of_mem _ listed, part⟩
    · rw [List.flatten_cons, Loads.addAll_append]

private theorem Tally.of_keepAll {slots replication : Nat} {share : Share} {loads : Loads}
    {held placed : List (List Nat)} (distinct : ∀ list ∈ held, list.Nodup)
    (inside : ∀ list ∈ held, ∀ position ∈ list, position < slots)
    (result : keepAll replication share (Loads.zero slots) held = (placed, loads)) :
    Tally slots loads placed := by
  obtain ⟨_, parts, rfl⟩ := keepAll_spec result
  refine ⟨?_, ?_, ?_, ?_⟩
  · rw [Loads.length_addAll, Loads.length_zero]
  · intro kept member
    obtain ⟨_, list, listed, part⟩ := parts kept member
    exact (distinct list listed).sublist part
  · intro kept member position taken
    obtain ⟨_, list, listed, part⟩ := parts kept member
    exact inside list listed position (part.subset taken)
  · intro position below
    rw [Loads.carried_addAll _ _ (by simpa using below), Loads.carried_zero, Nat.zero_add]

theorem Tally.fillAll {slots replication : Nat} {loads after : Loads}
    {placed filled : List (List Nat)} (tally : Tally slots loads placed)
    (enough : replication ≤ slots) (bounded : ∀ kept ∈ placed, kept.length ≤ replication)
    (result : Loads.fillAll replication loads placed = (filled, after)) :
    Tally slots after filled ∧ ∀ kept ∈ filled, kept.length = replication := by
  have full := Loads.fillAll_full placed (tally.length ▸ enough) fun kept member =>
    ⟨tally.distinct kept member, tally.length ▸ tally.inside kept member, bounded kept member⟩
  rw [result, tally.length] at full
  refine ⟨⟨?_, fun kept member => (full kept member).1, fun kept member => (full kept member).2.1,
    ?_⟩, fun kept member => (full kept member).2.2⟩
  · have length := Loads.length_loads_fillAll replication loads placed
    rwa [result, tally.length] at length
  · intro position below
    have grown := Loads.carried_fillAll replication loads placed (tally.length ▸ below)
    have before := tally.counted position below
    simp only [result] at grown
    omega

def moved (high low : Nat) (kept : List Nat) : List Nat :=
  kept.map fun position => if position = high then low else position

private theorem nodup_moved {high low : Nat} {kept : List Nat} (distinct : kept.Nodup)
    (free : low ∉ kept) : (moved high low kept).Nodup := by
  refine distinct.map_on ?_
  intro first here second there same
  split at same <;> split at same
  · simp_all
  · exact absurd (same ▸ there) free
  · exact absurd (same ▸ here) free
  · exact same

theorem mem_moved {high low : Nat} {kept : List Nat} (held : high ∈ kept) {position : Nat} :
    position ∈ moved high low kept ↔ position = low ∨ position ∈ kept ∧ position ≠ high := by
  simp only [moved, List.mem_map]
  constructor
  · rintro ⟨old, member, rfl⟩
    split
    · exact Or.inl rfl
    · rename_i other
      exact Or.inr ⟨member, other⟩
  · rintro (rfl | ⟨member, other⟩)
    · exact ⟨high, held, if_pos rfl⟩
    · exact ⟨position, member, if_neg other⟩

private theorem count_moved {high low : Nat} {kept : List Nat} (distinct : kept.Nodup)
    (held : high ∈ kept) (free : low ∉ kept) (position : Nat) :
    (moved high low kept).count position + (if position = high then 1 else 0) =
      kept.count position + (if position = low then 1 else 0) := by
  have apart : high ≠ low := fun same => free (same ▸ held)
  simp only [(nodup_moved distinct free).count, distinct.count, mem_moved held]
  by_cases top : position = high
  · subst top
    simp [held, apart]
  · by_cases bottom : position = low
    · subst bottom
      simp [top, free]
    · simp [top, bottom]

abbrev State := Loads × List (List Nat)

def Moves (before after : State) : Prop := evenStep before.1 before.2 = some after

/-- What a move is: it picks a most and a least loaded position more than one apart and a segment
on the former but not on the latter. -/
theorem Moves.cases {before after : State} (move : Moves before after) :
    ∃ high < before.1.length, ∃ low < before.1.length,
      (∀ other < before.1.length, before.1.carried low ≤ before.1.carried other ∧
        before.1.carried other ≤ before.1.carried high) ∧
      before.1.carried low + 1 < before.1.carried high ∧
      ∃ segment kept, before.2[segment]? = some kept ∧ high ∈ kept ∧ low ∉ kept ∧
        after = (before.1.shift high low, before.2.modify segment (moved high low)) := by
  obtain ⟨loads, placed⟩ := before
  simp only [Moves, evenStep, Option.bind_eq_bind, Option.bind_eq_some_iff] at move
  obtain ⟨high, most, low, least, move⟩ := move
  split at move
  · cases move
  · rename_i apart
    obtain ⟨segment, found, same⟩ := Option.bind_eq_some_iff.mp move
    obtain ⟨inside, picked, _⟩ := List.findIdx?_eq_some_iff_getElem.mp found
    simp only [Bool.and_eq_true, List.contains_iff_mem, Bool.not_eq_true', ← Bool.not_eq_true]
      at picked
    cases same
    obtain ⟨top, greatest⟩ := greatestOf_spec most
    obtain ⟨bottom, smallest, _⟩ := leastOf_spec least
    have between : ∀ other < loads.length, loads.carried low ≤ loads.carried other ∧
        loads.carried other ≤ loads.carried high := fun other within =>
      ⟨smallest other (Loads.mem_positions.mpr within),
        greatest other (Loads.mem_positions.mpr within)⟩
    exact ⟨high, Loads.mem_positions.mp top, low, Loads.mem_positions.mp bottom, between,
      Nat.lt_of_not_le apart, segment, placed[segment], List.getElem?_eq_getElem inside, picked.1,
      picked.2, rfl⟩

theorem Tally.moves {slots replication : Nat} {before after : State}
    (tally : Tally slots before.1 before.2)
    (full : ∀ kept ∈ before.2, kept.length = replication) (move : Moves before after) :
    Tally slots after.1 after.2 ∧ after.2.length = before.2.length ∧
      ∀ kept ∈ after.2, kept.length = replication := by
  obtain ⟨high, top, low, bottom, _, apart, segment, kept, listed, held, free, rfl⟩ := move.cases
  have member := List.mem_of_getElem? listed
  have distinct := tally.distinct kept member
  refine ⟨⟨?_, ?_, ?_, ?_⟩, List.length_modify .., ?_⟩
  · simp only [Loads.shift, List.length_modify, tally.length]
  · intro list inside
    rcases mem_modify listed inside with former | rfl
    · exact tally.distinct list former
    · exact nodup_moved distinct free
  · intro list inside position taken
    rcases mem_modify listed inside with former | rfl
    · exact tally.inside list former position taken
    · rcases (mem_moved held).mp taken with rfl | ⟨taken, _⟩
      · exact tally.length ▸ bottom
      · exact tally.inside kept member position taken
  · intro position below
    have counted := tally.counted position below
    have changed := total_map_modify (List.count position) (moved high low) listed
    have count := count_moved distinct held free position
    rw [List.count_flatten] at counted ⊢
    rw [Loads.shift, Loads.carried_modify _ _ _ (by simp [tally.length, below]),
      Loads.carried_modify _ _ _ (tally.length ▸ below)]
    change _ = total _ at counted
    change _ = total _
    by_cases first : high = position
    · subst first
      have other : low ≠ high := by rintro rfl; exact free held
      simp only [if_neg other, if_neg other.symm, if_true] at count ⊢
      omega
    · simp only [if_neg first, if_neg (Ne.symm first)] at count ⊢
      split at count <;> split <;> omega
  · intro list inside
    rcases mem_modify listed inside with former | rfl
    · exact full list former
    · rw [moved, List.length_map, full kept member]

/-- Handing one unit down from a load that is more than one higher lowers the sum of squares. -/
theorem unevenness_shift {loads : Loads} {high low : Nat} (top : high < loads.length)
    (bottom : low < loads.length) (apart : loads.carried low + 1 < loads.carried high) :
    unevenness (loads.shift high low) < unevenness loads := by
  have other : high ≠ low := by rintro rfl; omega
  have source : loads[high]? = some (loads.carried high) := by
    simp [Loads.carried, List.getElem?_eq_getElem top]
  have taken : (loads.modify high (· - 1))[low]? = some (loads.carried low) := by
    simp [Loads.carried, other, List.getElem?_eq_getElem bottom]
  have first := total_map_modify (fun load => load * load) (· - 1) source
  have second := total_map_modify (fun load => load * load) (· + 1) taken
  simp only [unevenness, Loads.shift]
  obtain ⟨gap, same⟩ := Nat.exists_eq_add_of_lt apart
  simp only [same] at first second
  have fewer : loads.carried low + 1 + gap + 1 - 1 = loads.carried low + 1 + gap := by omega
  rw [fewer] at first
  nlinarith

private theorem Moves.unevenness_lt {before after : State} (move : Moves before after) :
    unevenness after.1 < unevenness before.1 := by
  obtain ⟨high, top, low, bottom, _, apart, _, _, _, _, _, rfl⟩ := move.cases
  exact unevenness_shift top bottom apart

theorem count_flatten_of_nodup {ι : Type} [DecidableEq ι] {placed : List (List ι)}
    (distinct : ∀ kept ∈ placed, kept.Nodup) (position : ι) :
    placed.flatten.count position = placed.countP fun kept => kept.contains position := by
  induction placed with
  | nil => rfl
  | cons kept rest ih =>
    rw [List.flatten_cons, List.count_append, List.countP_cons,
      (distinct kept List.mem_cons_self).count,
      ih fun list member => distinct list (List.mem_cons_of_mem _ member), Nat.add_comm]
    simp only [List.contains_iff_mem]

/-- The loop stops only when the loads are even: as long as they are not, some segment is on a most
loaded position and not on a least loaded one. -/
theorem Tally.even_of_stuck {slots : Nat} {state : State} (tally : Tally slots state.1 state.2)
    (stuck : evenStep state.1 state.2 = none) : Even state.1 := by
  obtain ⟨loads, placed⟩ := state
  intro first inside second within
  cases most : greatestOf loads.carried loads.positions with
  | none =>
    have none := Loads.mem_positions.mpr inside
    rw [greatestOf_eq_none_iff.mp most] at none
    cases none
  | some high =>
    cases least : leastOf loads.carried loads.positions with
    | none =>
      have none := Loads.mem_positions.mpr inside
      rw [leastOf_eq_none_iff.mp least] at none
      cases none
    | some low =>
      obtain ⟨top, greatest⟩ := greatestOf_spec most
      obtain ⟨bottom, smallest, _⟩ := leastOf_spec least
      have above := greatest first (Loads.mem_positions.mpr inside)
      have below := smallest second (Loads.mem_positions.mpr within)
      by_contra uneven
      have apart : ¬ loads.carried high ≤ loads.carried low + 1 := by
        simp only at uneven
        omega
      simp only [evenStep, most, least, Option.bind_eq_bind, Option.bind_some, if_neg apart,
        Option.bind_eq_none_iff, reduceCtorEq] at stuck
      have immovable : placed.findIdx? (fun kept => kept.contains high && !kept.contains low) = none :=
        Option.eq_none_iff_forall_ne_some.mpr fun segment found => stuck segment found
      have follows : ∀ kept ∈ placed, high ∈ kept → low ∈ kept := by
        intro kept member held
        have stays := List.findIdx?_eq_none_iff.mp immovable kept member
        simpa [held] using stays
      have count : placed.flatten.count high ≤ placed.flatten.count low := by
        rw [count_flatten_of_nodup tally.distinct, count_flatten_of_nodup tally.distinct]
        refine List.countP_mono_left fun kept member held => ?_
        exact List.contains_iff_mem.mpr (follows kept member (List.contains_iff_mem.mp held))
      have highest := tally.counted high (tally.length ▸ Loads.mem_positions.mp top)
      have lowest := tally.counted low (tally.length ▸ Loads.mem_positions.mp bottom)
      simp only at count highest lowest
      omega

private theorem evenOut_stuck {fuel : Nat} (loads : Loads) (placed : List (List Nat))
    (enough : unevenness loads ≤ fuel) :
    ∃ last : State, Relation.ReflTransGen Moves (loads, placed) last ∧
      evenStep last.1 last.2 = none ∧ evenOut fuel loads placed = last.2 := by
  induction fuel generalizing loads placed with
  | zero =>
    refine ⟨(loads, placed), .refl, ?_, rfl⟩
    cases step : evenStep loads placed with
    | none => rfl
    | some next =>
      have move : Moves (loads, placed) next := step
      have lower := move.unevenness_lt
      simp only at lower
      omega
  | succ fuel ih =>
    rw [evenOut]
    cases step : evenStep loads placed with
    | none => exact ⟨(loads, placed), .refl, step, rfl⟩
    | some next =>
      have move : Moves (loads, placed) next := step
      have lower := move.unevenness_lt
      simp only at lower
      obtain ⟨last, path, stuck, same⟩ := ih next.1 next.2 (by omega)
      exact ⟨last, .head step path, stuck, same⟩

/-- What the keep pass and the fill pass leave to the repair loop. -/
def beforeRepair (replication slots : Nat) (held : List (List Nat)) : State :=
  let share := Share.divide (held.length * replication) slots
  let (kept, keptLoads) := keepAll replication share (Loads.zero slots) held
  let (filled, loads) := Loads.fillAll replication keptLoads kept
  (loads, filled)

private theorem positions_eq (replication slots : Nat) (held : List (List Nat)) :
    positions replication slots held =
      let start := beforeRepair replication slots held
      evenOut (unevenness start.1) start.1 start.2 := rfl

/-- Every segment has all its replicas, and the loads count them. -/
structure Placed (replication slots count : Nat) (state : State) : Prop where
  tally : Tally slots state.1 state.2
  full : ∀ kept ∈ state.2, kept.length = replication
  length : state.2.length = count

private theorem placed_beforeRepair {replication slots : Nat} {held : List (List Nat)}
    (enough : replication ≤ slots) (distinct : ∀ list ∈ held, list.Nodup)
    (inside : ∀ list ∈ held, ∀ position ∈ list, position < slots) :
    Placed replication slots held.length (beforeRepair replication slots held) := by
  rcases first : keepAll replication (Share.divide (held.length * replication) slots)
    (Loads.zero slots) held with ⟨kept, keptLoads⟩
  rcases second : Loads.fillAll replication keptLoads kept with ⟨filled, loads⟩
  have start : beforeRepair replication slots held = (loads, filled) := by
    simp only [beforeRepair, first, second]
  obtain ⟨length, parts, _⟩ := keepAll_spec first
  obtain ⟨tally, full⟩ := (Tally.of_keepAll distinct inside first).fillAll enough
    (fun list member => (parts list member).1) second
  have same := Loads.length_fillAll replication keptLoads kept
  rw [second] at same
  rw [start]
  exact ⟨tally, full, same.trans length⟩

theorem Placed.moves {replication slots count : Nat} {before after : State}
    (placed : Placed replication slots count before)
    (path : Relation.ReflTransGen Moves before after) : Placed replication slots count after := by
  induction path with
  | refl => exact placed
  | tail _ move ih =>
    obtain ⟨tally, length, full⟩ := ih.tally.moves ih.full move
    exact ⟨tally, full, length.trans ih.length⟩

def hosted (placed : List (String × List String)) (server : String) : Nat :=
  placed.countP fun entry => entry.2.contains server

def named (servers segments : List String) (placed : List (List Nat)) :
    List (String × List String) :=
  segments.zip (placed.map (namesAt servers))

theorem mem_named {servers segments : List String} {placed : List (List Nat)}
    {entry : String × List String} (member : entry ∈ named servers segments placed) :
    ∃ kept ∈ placed, entry.2 = namesAt servers kept := by
  have second := (List.of_mem_zip member).2
  obtain ⟨kept, listed, same⟩ := List.mem_map.mp second
  exact ⟨kept, listed, same.symm⟩

theorem hosted_named {servers segments : List String} {loads : Loads} {placed : List (List Nat)}
    (distinct : servers.Nodup) (tally : Tally servers.length loads placed)
    (length : placed.length = segments.length) {position : Nat}
    (inside : position < servers.length) :
    hosted (named servers segments placed) (servers.getD position "") = loads.carried position := by
  calc hosted (named servers segments placed) (servers.getD position "")
    _ = ((named servers segments placed).map Prod.snd).countP
          fun hosts => hosts.contains (servers.getD position "") := List.countP_map.symm
    _ = (placed.map (namesAt servers)).countP
          fun hosts => hosts.contains (servers.getD position "") := by
      rw [named, List.map_snd_zip (by simp [length])]
    _ = placed.countP fun kept => kept.contains position :=
      countP_map_namesAt distinct tally.inside inside
    _ = placed.flatten.count position := (count_flatten_of_nodup tally.distinct position).symm
    _ = loads.carried position := (tally.counted position inside).symm

theorem Placed.hosted_even {servers segments : List String} {replication : Nat} {state : State}
    (placed : Placed replication servers.length segments.length state) (distinct : servers.Nodup)
    (even : Even state.1) : ∀ first ∈ servers, ∀ second ∈ servers,
      hosted (named servers segments state.2) first ≤
        hosted (named servers segments state.2) second + 1 := by
  intro first here second there
  obtain ⟨one, below, rfl⟩ := List.mem_iff_getElem.mp here
  obtain ⟨other, within, rfl⟩ := List.mem_iff_getElem.mp there
  have upper := hosted_named distinct placed.tally placed.length below
  have lower := hosted_named distinct placed.tally placed.length within
  rw [List.getD_eq_getElem _ _ below] at upper
  rw [List.getD_eq_getElem _ _ within] at lower
  rw [upper, lower]
  have length := placed.tally.length
  exact even one (length ▸ below) other (length ▸ within)

theorem Placed.names_named {servers segments : List String} {replication : Nat} {state : State}
    (placed : Placed replication servers.length segments.length state) :
    (named servers segments state.2).map Prod.fst = segments := by
  rw [named, List.map_fst_zip (by simp [placed.length])]

theorem Placed.full_named {servers segments : List String} {replication : Nat} {state : State}
    (placed : Placed replication servers.length segments.length state) (distinct : servers.Nodup) :
    ∀ entry ∈ named servers segments state.2,
      entry.2.length = replication ∧ entry.2.Nodup ∧ entry.2 ⊆ servers := by
  intro entry member
  obtain ⟨kept, taken, positions⟩ := mem_named member
  have inside := placed.tally.inside kept taken
  rw [positions]
  refine ⟨?_, nodup_namesAt distinct inside (placed.tally.distinct kept taken),
    namesAt_subset inside⟩
  rw [length_namesAt, placed.full kept taken]

theorem mem_heldPositions {servers : List String} {replicas : Replicas} {position : Nat}
    (inside : position < servers.length) :
    position ∈ heldPositions servers replicas ↔
      replicas.contains (servers.getD position "") = true := by
  rw [heldPositions, List.mem_filter, List.mem_range, and_iff_right inside]

theorem heldPositions_lt {servers : List String} {replicas : Replicas} :
    ∀ position ∈ heldPositions servers replicas, position < servers.length :=
  fun _ held => List.mem_range.mp (List.mem_filter.mp held).1

theorem nodup_heldPositions (servers : List String) (replicas : Replicas) :
    (heldPositions servers replicas).Nodup := List.nodup_range.filter _

theorem placed_held {servers : List String} {replication : Nat} (segments : List String)
    (prior : Assignment) (enough : replication ≤ servers.length) :
    Placed replication servers.length segments.length
      (beforeRepair replication servers.length (segments.map fun segment =>
        heldPositions servers ((prior.get? segment).getD {}))) := by
  have held : ∀ list ∈ segments.map (fun segment =>
      heldPositions servers ((prior.get? segment).getD {})),
      list.Nodup ∧ ∀ position ∈ list, position < servers.length := by
    intro list member
    obtain ⟨segment, _, rfl⟩ := List.mem_map.mp member
    exact ⟨nodup_heldPositions .., heldPositions_lt⟩
  have placed := placed_beforeRepair enough (fun list member => (held list member).1)
    fun list member => (held list member).2
  rwa [List.length_map] at placed

/-- The segments are placed where the repair loop stops. -/
theorem place_stuck (replication : Nat) (servers segments : List String) (prior : Assignment) :
    ∃ last : State,
      Relation.ReflTransGen Moves (beforeRepair replication servers.length
        (segments.map fun segment => heldPositions servers ((prior.get? segment).getD {}))) last ∧
      evenStep last.1 last.2 = none ∧
      place replication servers segments prior = named servers segments last.2 := by
  let start := beforeRepair replication servers.length
    (segments.map fun segment => heldPositions servers ((prior.get? segment).getD {}))
  obtain ⟨last, path, stuck, same⟩ := evenOut_stuck start.1 start.2
    (Nat.le_refl (unevenness start.1))
  exact ⟨last, path, stuck,
    congrArg (named servers segments) ((positions_eq _ _ _).trans same)⟩

theorem placeMembers_of_flat {table : TableConfig} {layout : Layout} {servers : List String}
    (prior : Assignment) (members : List Member) (valid : layout.validate = .ok ())
    (flat : layout.isFlat) (listed : layout.servers? 0 0 = some servers)
    (enough : table.replication ≤ servers.length) :
    table.placeMembers layout prior members =
      .ok (place table.replication servers (members.map Member.name) prior) := by
  have room : ¬ servers.length < table.replication := Nat.not_lt.mpr enough
  simp only [TableConfig.placeMembers, valid, flat, listed, TableConfig.checkReplication,
    Option.getD_some, if_neg room, if_true]
  rfl

/-- Placement by a flat layout with enough servers: all replicas of a segment are on distinct
servers of the layout, and no server hosts two segments more than another. The repair loop ends,
and wherever it stops the loads are even. -/
theorem placeMembers_even (table : TableConfig) (layout : Layout) (prior : Assignment)
    (members : List Member) (servers : List String) (valid : layout.validate = .ok ())
    (flat : layout.isFlat) (listed : layout.servers? 0 0 = some servers)
    (enough : table.replication ≤ servers.length) :
    let names := members.map Member.name
    let start := beforeRepair table.replication servers.length
      (names.map fun name => heldPositions servers ((prior.get? name).getD {}))
    ∃ placed, table.placeMembers layout prior members = .ok placed ∧
      placed.map Prod.fst = names ∧
      (∀ entry ∈ placed,
        entry.2.length = table.replication ∧ entry.2.Nodup ∧ entry.2 ⊆ servers) ∧
      (∀ first ∈ servers, ∀ second ∈ servers, hosted placed first ≤ hosted placed second + 1) ∧
      (∃ last : State, Relation.ReflTransGen Moves start last ∧
        evenStep last.1 last.2 = none ∧ placed = named servers names last.2) ∧
      ∀ state : State, Relation.ReflTransGen Moves start state →
        evenStep state.1 state.2 = none → Even state.1 := by
  intro names start
  have placed := placed_held names prior enough
  have distinct := (Layout.validate_iff.mp valid).distinct _ _ listed
  obtain ⟨last, path, stuck, same⟩ := place_stuck table.replication servers names prior
  have final := placed.moves path
  have even := final.tally.even_of_stuck stuck
  refine ⟨named servers names last.2, ?_, final.names_named, final.full_named distinct,
    final.hosted_even distinct even, ⟨last, path, stuck, rfl⟩, ?_⟩
  · rw [placeMembers_of_flat prior members valid flat listed enough, same]
  · intro state reached stops
    exact (placed.moves reached).tally.even_of_stuck stops

/-- Two replicas of every segment, and three servers for them. -/
def pairedTable : TableConfig :=
  { name := "events_OFFLINE", kind := .offline, replication := 2, serverTag := "T" }

def threeServers : Layout :=
  { name := "events_OFFLINE", numPartitions := 1, numGroups := 1
    slots := OrderedMap.ofList [("0_0", ["a", "b", "c"])] }

def crowdedPair : Assignment :=
  OrderedMap.ofList (["s1", "s2", "s3"].map fun name => (name, .uniform ["a", "b"] .online))

def fourMembers : List Member :=
  ["s0", "s1", "s2", "s3"].map fun name =>
    { name, partition := 0, consuming := false, home := some (.kind .offline) }

/-- A third server and a new segment: here the repair loop has to move a replica. -/
theorem placeMembers_even_crowded :
    ∃ placed, pairedTable.placeMembers threeServers crowdedPair fourMembers = .ok placed ∧
      (∀ entry ∈ placed, entry.2.length = 2) ∧
      ∀ first ∈ ["a", "b", "c"], ∀ second ∈ ["a", "b", "c"],
        hosted placed first ≤ hosted placed second + 1 := by
  obtain ⟨placed, done, _, full, even, _⟩ := placeMembers_even pairedTable threeServers crowdedPair
    fourMembers ["a", "b", "c"] (by decide +kernel) (by decide) (by decide +kernel) (by decide)
  exact ⟨placed, done, fun entry member => (full entry member).1, even⟩

end SegmentPlacement.Balanced

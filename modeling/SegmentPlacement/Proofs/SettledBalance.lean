import SegmentPlacement.Proofs.BalancedPlacement
import SegmentPlacement.Proofs.FairShares
import Mathlib.Data.List.Perm.Basic

/-! Balanced placement comes to rest. Replicas that are spread evenly are all kept,
so nothing is left to fill or to even out, and placing the segments again leaves
every segment where it is. -/

namespace SegmentPlacement

theorem Replicas.get?_uniform (servers : List String) (state : ReplicaState) (server : String) :
    (Replicas.uniform servers state).get? server = if server ∈ servers then some state else none := by
  have step : ∀ map : Replicas,
      (map.insertAll (servers.map fun server => (server, state))).get? server =
        if server ∈ servers then some state else map.get? server := by
    induction servers with
    | nil => exact fun map => rfl
    | cons first rest ih =>
      intro map
      change ((map.insert first state).insertAll _).get? server = _
      rw [ih, OrderedMap.get?_insert]
      by_cases same : server = first <;> simp [same]
  exact step OrderedMap.empty

theorem Replicas.contains_uniform {servers : List String} {state : ReplicaState} {server : String} :
    (Replicas.uniform servers state).contains server = true ↔ server ∈ servers := by
  rw [OrderedMap.contains, Replicas.get?_uniform]
  by_cases member : server ∈ servers <;> simp [member]

theorem Replicas.uniform_congr {first second : List String}
    (same : ∀ server, server ∈ first ↔ server ∈ second) (state : ReplicaState) :
    Replicas.uniform first state = Replicas.uniform second state :=
  OrderedMap.ext_get? fun server => by simp only [Replicas.get?_uniform, same]

theorem Replicas.mem_values_uniform {servers : List String} {placed state : ReplicaState} :
    state ∈ (Replicas.uniform servers placed).values ↔ state = placed ∧ servers ≠ [] := by
  simp only [OrderedMap.mem_values_iff, Replicas.get?_uniform]
  constructor
  · intro ⟨server, found⟩
    split at found
    · rename_i member
      exact ⟨(Option.some.inj found).symm, List.ne_nil_of_mem member⟩
    · cases found
  · intro ⟨same, filled⟩
    obtain ⟨server, member⟩ := List.exists_mem_of_ne_nil servers filled
    exact ⟨server, by rw [if_pos member, same]⟩

theorem Replicas.eq_uniform {replicas : Replicas} {servers : List String} {state : ReplicaState}
    (same : ∀ server, server ∈ replicas.keys ↔ server ∈ servers)
    (only : ∀ found ∈ replicas.values, found = state) : replicas = .uniform servers state := by
  refine OrderedMap.ext_get? fun server => ?_
  rw [Replicas.get?_uniform]
  cases found : replicas.get? server with
  | none =>
    refine (if_neg fun member => ?_).symm
    obtain ⟨_, held⟩ := OrderedMap.mem_keys_iff.mp ((same server).mpr member)
    rw [found] at held
    cases held
  | some other =>
    rw [if_pos ((same server).mp (OrderedMap.mem_keys_iff.mpr ⟨other, found⟩)),
      only other (OrderedMap.mem_values_iff.mpr ⟨server, found⟩)]

theorem Replicas.keys_uniform_perm {servers : List String} (distinct : servers.Nodup)
    (state : ReplicaState) : (Replicas.uniform servers state).keys.Perm servers := by
  refine (List.perm_ext_iff_of_nodup (OrderedMap.nodup_keys _) distinct).mpr fun server => ?_
  rw [← OrderedMap.contains_iff, Replicas.contains_uniform]

theorem Replicas.keys_uniform_congr (servers : List String) (first second : ReplicaState) :
    (Replicas.uniform servers first).keys = (Replicas.uniform servers second).keys := by
  have same : Replicas.uniform servers first =
      (Replicas.uniform servers second).map fun _ _ => first := by
    refine OrderedMap.ext_get? fun server => ?_
    rw [OrderedMap.get?_map, Replicas.get?_uniform, Replicas.get?_uniform]
    split <;> rfl
  rw [same, OrderedMap.keys_map]

namespace Balanced

private theorem keepReplicas_of_keepAll? {replication : Nat} {share left : Share} {loads : Loads}
    {held : List Nat} (fits : held.length ≤ replication)
    (kept : share.keepAll? loads held = some left) :
    keepReplicas replication share loads held = (held, left, loads.addAll held) := by
  induction held using List.reverseRecOn generalizing left with
  | nil =>
    cases kept
    rfl
  | append_singleton held position ih =>
    rw [Share.keepAll?_append] at kept
    obtain ⟨middle, earlier, last⟩ := Option.bind_eq_some_iff.mp kept
    obtain ⟨final, allowed, same⟩ := Option.bind_eq_some_iff.mp last
    cases same
    rw [List.length_append] at fits
    have before := ih (Nat.le_of_succ_le fits) earlier
    simp only [keepReplicas] at before ⊢
    rw [List.foldl_append, before]
    simp only [List.foldl_cons, List.foldl_nil, if_pos (Nat.lt_of_succ_le fits), allowed,
      Loads.addAll_append]
    rfl

private theorem keepAll_of_keepAll? {replication : Nat} {share left : Share} {loads : Loads}
    {held : List (List Nat)} (fits : ∀ list ∈ held, list.length ≤ replication)
    (kept : share.keepAll? loads held.flatten = some left) :
    keepAll replication share loads held = (held, loads.addAll held.flatten) := by
  induction held generalizing share loads with
  | nil => rfl
  | cons list rest ih =>
    obtain ⟨here, later⟩ := List.forall_mem_cons.mp fits
    rw [List.flatten_cons, Share.keepAll?_append] at kept
    obtain ⟨middle, first, second⟩ := Option.bind_eq_some_iff.mp kept
    simp only [keepAll, keepReplicas_of_keepAll? here first, ih later second, List.flatten_cons,
      Loads.addAll_append]

theorem evenStep_of_even {loads : Loads} (even : Even loads) (placed : List (List Nat)) :
    evenStep loads placed = none := by
  simp only [evenStep, Option.bind_eq_bind, Option.bind_eq_none_iff]
  intro high most low least
  have top := Loads.mem_positions.mp (greatestOf_spec most).1
  have bottom := Loads.mem_positions.mp (leastOf_spec least).1
  exact if_pos (even high top low bottom)

private theorem evenOut_of_even {loads : Loads} (even : Even loads) (fuel : Nat)
    (placed : List (List Nat)) : evenOut fuel loads placed = placed := by
  cases fuel with
  | zero => rfl
  | succ fuel => simp only [evenOut, evenStep_of_even even]

theorem total_addAll_flatten {replication slots : Nat} {lists : List (List Nat)}
    (full : ∀ list ∈ lists, list.length = replication)
    (inside : ∀ position ∈ lists.flatten, position < slots) :
    total ((Loads.zero slots).addAll lists.flatten) = lists.length * replication := by
  rw [Loads.total_addAll _ (by simpa using inside), Loads.total_zero, Nat.zero_add,
    length_flatten_of_length full]

/-- Replicas whose loads are even stay where they are. -/
theorem positions_of_even {replication slots : Nat} {held : List (List Nat)}
    (full : ∀ list ∈ held, list.length = replication)
    (inside : ∀ list ∈ held, ∀ position ∈ list, position < slots)
    (even : Even ((Loads.zero slots).addAll held.flatten)) :
    positions replication slots held = held := by
  have below : ∀ position ∈ held.flatten, position < slots := by
    intro position member
    obtain ⟨list, listed, taken⟩ := List.mem_flatten.mp member
    exact inside list listed position taken
  have allows := Share.allows_of_even even
  rw [total_addAll_flatten full below, Loads.length_addAll, Loads.length_zero] at allows
  obtain ⟨left, kept⟩ := allows.keepAll?_isSome below
  have all := keepAll_of_keepAll? (fun list member => (full list member).le) kept
  simp only [positions, all, Loads.fillAll_of_full full, evenOut_of_even even]

def inOrder (slots : Nat) (kept : List Nat) : List Nat := (List.range slots).filter kept.contains

theorem mem_inOrder {slots position : Nat} {kept : List Nat} :
    position ∈ inOrder slots kept ↔ position < slots ∧ position ∈ kept := by
  simp [inOrder]

private theorem perm_inOrder {slots : Nat} {kept : List Nat} (distinct : kept.Nodup)
    (inside : ∀ position ∈ kept, position < slots) : (inOrder slots kept).Perm kept := by
  refine (List.perm_ext_iff_of_nodup (List.nodup_range.filter _) distinct).mpr fun position => ?_
  exact mem_inOrder.trans ⟨And.right, fun member => ⟨inside position member, member⟩⟩

theorem heldPositions_uniform {servers : List String} {kept : List Nat} (distinct : servers.Nodup)
    (inside : ∀ position ∈ kept, position < servers.length) (state : ReplicaState) :
    heldPositions servers (.uniform (namesAt servers kept) state) =
      inOrder servers.length kept := by
  refine List.filter_congr fun position member => ?_
  have within := List.mem_range.mp member
  rw [Bool.eq_iff_iff, Replicas.contains_uniform, List.contains_iff_mem]
  exact getD_mem_namesAt_iff distinct inside within

private theorem Placed.positions_inOrder {replication slots count : Nat} {state : State}
    (placed : Placed replication slots count state) (even : Even state.1) :
    positions replication slots (state.2.map (inOrder slots)) = state.2.map (inOrder slots) := by
  have sorted : ∀ kept ∈ state.2, (inOrder slots kept).Perm kept := fun kept member =>
    perm_inOrder (placed.tally.distinct kept member) (placed.tally.inside kept member)
  have same : (state.2.map (inOrder slots)).flatten.Perm state.2.flatten := by
    rw [← List.flatMap_def]
    simpa using List.Perm.flatMap_left state.2 sorted
  have loads : (Loads.zero slots).addAll (state.2.map (inOrder slots)).flatten = state.1 := by
    have length := placed.tally.length
    rw [Loads.addAll_perm same]
    refine Loads.ext_carried (by simp [length]) fun position inside => ?_
    have below : position < slots := by simpa using inside
    rw [Loads.carried_addAll _ _ (by simpa using below), Loads.carried_zero,
      placed.tally.counted position below, Nat.zero_add]
  refine positions_of_even ?_ ?_ (loads ▸ even)
  · intro list member
    obtain ⟨kept, listed, rfl⟩ := List.mem_map.mp member
    rw [(sorted kept listed).length_eq, placed.full kept listed]
  · intro list member position taken
    obtain ⟨kept, listed, rfl⟩ := List.mem_map.mp member
    exact (mem_inOrder.mp taken).1

/-- The same segment on the same servers, in whatever order. -/
def SameServers (first second : String × List String) : Prop :=
  first.1 = second.1 ∧ first.2.Perm second.2

theorem place_spec {replication : Nat} {servers : List String} (segments : List String)
    (prior : Assignment) (enough : replication ≤ servers.length) :
    ∃ last : State, Placed replication servers.length segments.length last ∧ Even last.1 ∧
      place replication servers segments prior = named servers segments last.2 := by
  obtain ⟨last, path, stuck, same⟩ := place_stuck replication servers segments prior
  have final := (placed_held segments prior enough).moves path
  exact ⟨last, final, final.tally.even_of_stuck stuck, same⟩

/-- Segments that are where they were placed stay there when they are placed again. -/
theorem place_again {replication : Nat} {servers segments : List String} {prior after : Assignment}
    (distinct : servers.Nodup) (enough : replication ≤ servers.length)
    (settled : ∀ entry ∈ place replication servers segments prior,
      ∃ state, after.get? entry.1 = some (.uniform entry.2 state)) :
    List.Forall₂ SameServers (place replication servers segments prior)
      (place replication servers segments after) := by
  obtain ⟨last, placed, even, same⟩ := place_spec segments prior enough
  rw [same] at settled ⊢
  have held : segments.map (fun segment =>
        heldPositions servers ((after.get? segment).getD {})) =
      last.2.map (inOrder servers.length) := by
    refine List.ext_getElem (by simp [placed.length]) fun index here there => ?_
    rw [List.length_map] at here there
    obtain ⟨state, found⟩ := settled (segments[index], namesAt servers last.2[index])
      (List.mem_iff_getElem.mpr ⟨index, by simp [named, here, there], by simp [named]⟩)
    have inside := placed.tally.inside last.2[index] (List.getElem_mem there)
    rw [List.getElem_map, List.getElem_map, found, Option.getD_some,
      heldPositions_uniform distinct inside]
  have again : place replication servers segments after =
      named servers segments (last.2.map (inOrder servers.length)) := by
    simp only [place, held, placed.positions_inOrder even]
    rfl
  rw [again, named, named, List.map_map, List.zip_map_right, List.zip_map_right,
    List.forall₂_map_left_iff, List.forall₂_map_right_iff, List.forall₂_same]
  intro entry member
  have kept := (List.of_mem_zip member).2
  have sorted := perm_inOrder (placed.tally.distinct _ kept) (placed.tally.inside _ kept)
  exact ⟨rfl, (sorted.map _).symm⟩

end Balanced

end SegmentPlacement

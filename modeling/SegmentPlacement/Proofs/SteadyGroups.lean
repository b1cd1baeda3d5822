import SegmentPlacement.Layout.Computed
import SegmentPlacement.Proofs.Chains
import SegmentPlacement.Proofs.Loads
import SegmentPlacement.Proofs.OrderedMap
import Mathlib.Data.List.Induction
import Mathlib.Data.List.Permutation
import Mathlib.Data.Nat.ModEq

/-! The groups that a pool is dealt into. All groups have one size and distinct
members, and groups that do not share servers keep the members that they had, as
long as nobody was in two groups and no group was too large. -/

namespace SegmentPlacement

namespace GroupSettings

/-- How many members a group has: as many as the settings say, else an equal part of the servers
that are available, else one if the groups may share it. -/
def membersPerGroup? (settings : GroupSettings) (available : Nat) : Option Nat :=
  if 0 < settings.serversPerGroup then some settings.serversPerGroup
  else if settings.numGroups ≤ available then some (available / settings.numGroups)
  else if settings.allowReuse then some 1
  else none

/-- How many servers a slot of a group has. -/
def perSlot (settings : GroupSettings) (members : Nat) : Nat :=
  if settings.serversPerPartition = 0 then members else settings.serversPerPartition

/-- Groups of so many members fit: beside each other, or each of them if they may share. -/
def HasRoom (settings : GroupSettings) (available members : Nat) : Prop :=
  members * settings.numGroups ≤ available ∨ settings.allowReuse ∧ members ≤ available

end GroupSettings

namespace Layout

/-- Groups of pooled servers that do not share any, none larger than a size. -/
structure Grouping (pool : List String) (size : Nat) (groups : List (List String)) : Prop where
  distinct : groups.flatten.Nodup
  pooled : groups.flatten ⊆ pool
  bounded : ∀ members ∈ groups, members.length ≤ size

private theorem length_eq_of_full {groups : List (List String)} {size : Nat}
    (bounded : ∀ members ∈ groups, members.length ≤ size)
    (full : size * groups.length ≤ groups.flatten.length) :
    ∀ members ∈ groups, members.length = size := by
  induction groups with
  | nil => exact fun _ member => absurd member List.not_mem_nil
  | cons first rest ih =>
    have fits := bounded first List.mem_cons_self
    have others := fun members member => bounded members (List.mem_cons_of_mem first member)
    have most := length_flatten_le others
    rw [List.length_cons, List.flatten_cons, List.length_append, Nat.mul_succ] at full
    intro members member
    rcases List.mem_cons.mp member with rfl | member
    · omega
    · exact ih others (by omega) members member

private theorem keptGroups_append (pool : List String) (size : Nat) (former : List (List String))
    (members : List String) :
    keptGroups pool size (former ++ [members]) =
      let (groups, used) := keptGroups pool size former
      let stay := (members.filter fun member =>
        pool.contains member && !used.contains member).take size
      (groups ++ [stay], used ++ stay) := by
  simp only [keptGroups, List.foldl_append, List.foldl_cons, List.foldl_nil]

/-- What groups keep: as many groups, and everything that is used is in one of them. -/
theorem keptGroups_spec {pool used : List String} {size : Nat}
    {former groups : List (List String)} (apart : ∀ members ∈ former, members.Nodup)
    (result : keptGroups pool size former = (groups, used)) :
    Grouping pool size groups ∧ groups.length = former.length ∧ used = groups.flatten := by
  induction former using List.reverseRecOn generalizing groups used with
  | nil =>
    cases result
    exact ⟨⟨.nil, List.nil_subset _, fun _ member => absurd member List.not_mem_nil⟩, rfl, rfl⟩
  | append_singleton former members ih =>
    rcases earlier : keptGroups pool size former with ⟨kept, taken⟩
    obtain ⟨grouping, length, rfl⟩ := ih (fun other member => apart other (by simp [member])) earlier
    rw [keptGroups_append, earlier] at result
    obtain ⟨rfl, rfl⟩ := Prod.mk.inj result
    have stays : ∀ member ∈ (members.filter fun member =>
        pool.contains member && !kept.flatten.contains member).take size,
        member ∈ pool ∧ member ∉ kept.flatten := by
      intro member inside
      have passed := (List.mem_filter.mp (List.mem_of_mem_take inside)).2
      simpa using passed
    refine ⟨⟨?_, ?_, ?_⟩, by simp [length], by simp⟩
    · rw [List.flatten_append, List.flatten_singleton]
      refine List.nodup_append.mpr ⟨grouping.distinct, ?_, ?_⟩
      · exact ((apart members (by simp)).filter _).sublist (List.take_sublist ..)
      · rintro member old _ new rfl
        exact (stays member new).2 old
    · intro member inside
      rw [List.flatten_append, List.flatten_singleton] at inside
      rcases List.mem_append.mp inside with old | new
      · exact grouping.pooled old
      · exact (stays member new).1
    · intro group inside
      rcases List.mem_append.mp inside with old | new
      · exact grouping.bounded group old
      · rw [List.mem_singleton.mp new, List.length_take]
        exact Nat.min_le_left ..

theorem keptGroups_of_grouping {pool : List String} {size : Nat} {former : List (List String)}
    (grouping : Grouping pool size former) :
    keptGroups pool size former = (former, former.flatten) := by
  induction former using List.reverseRecOn with
  | nil => rfl
  | append_singleton former members ih =>
    obtain ⟨distinct, pooled, bounded⟩ := grouping
    rw [List.flatten_append, List.flatten_singleton] at distinct pooled
    obtain ⟨first, _, apart⟩ := List.nodup_append.mp distinct
    have earlier := ih ⟨first, fun member inside => pooled (List.mem_append_left _ inside),
      fun group inside => bounded group (List.mem_append_left _ inside)⟩
    have all : (members.filter fun member =>
        pool.contains member && !former.flatten.contains member) = members := by
      refine List.filter_eq_self.mpr fun member inside => ?_
      have free : member ∉ former.flatten := fun old => apart member old member inside rfl
      simpa using ⟨pooled (List.mem_append_right _ inside), by simpa using free⟩
    rw [keptGroups_append, earlier]
    simp only [all, List.take_of_length_le (bounded members (by simp)), List.flatten_append,
      List.flatten_singleton]

private theorem roomiest?_eq_some {size group : Nat} {groups : List (List String)}
    (found : roomiest? size groups = some group) :
    ∃ members, groups[group]? = some members ∧ members.length < size := by
  obtain ⟨member, _⟩ := leastOf_spec found
  obtain ⟨inside, room⟩ := List.mem_filter.mp member
  have below := List.mem_range.mp inside
  refine ⟨groups[group], List.getElem?_eq_getElem below, ?_⟩
  simpa only [List.getD_eq_getElem _ _ below, decide_eq_true_eq] using room

private theorem roomiest?_eq_none {size : Nat} {groups : List (List String)}
    (none : roomiest? size groups = none) : ∀ members ∈ groups, size ≤ members.length := by
  intro members member
  obtain ⟨group, below, rfl⟩ := List.mem_iff_getElem.mp member
  have all := List.filter_eq_nil_iff.mp (leastOf_eq_none_iff.mp none) group (List.mem_range.mpr below)
  simpa only [List.getD_eq_getElem _ _ below, decide_eq_true_eq, Nat.not_lt] using all

/-- A server joins the smallest group that has room. -/
def join (size : Nat) (groups : List (List String)) (server : String) : List (List String) :=
  match roomiest? size groups with
  | some group => groups.modify group (· ++ [server])
  | none => groups

private theorem topUp_cons (size : Nat) (groups : List (List String)) (server : String)
    (rest : List String) : topUp size groups (server :: rest) = topUp size (join size groups server) rest :=
  rfl

theorem flatten_modify_perm {groups : List (List String)} {group : Nat} {members : List String}
    (server : String) (listed : groups[group]? = some members) :
    (groups.modify group (· ++ [server])).flatten.Perm (groups.flatten ++ [server]) := by
  induction groups generalizing group with
  | nil => cases listed
  | cons first rest ih =>
    cases group with
    | zero =>
      rw [List.modify_zero_cons, List.flatten_cons, List.flatten_cons, List.append_assoc,
        List.append_assoc]
      exact List.perm_append_comm.append_left first
    | succ group =>
      rw [List.modify_succ_cons, List.flatten_cons, List.flatten_cons, List.append_assoc]
      exact (ih (by simpa using listed)).append_left first

/-- A group keeps its members, and a later one may have more of them. -/
def Grows (before after : List (List String)) : Prop :=
  after.length = before.length ∧ ∀ (group : Nat) members, before[group]? = some members →
    ∃ more : List String, after[group]? = some (members ++ more)

theorem Grows.refl (groups : List (List String)) : Grows groups groups :=
  ⟨rfl, fun _ members listed => ⟨[], by rw [List.append_nil, listed]⟩⟩

theorem Grows.trans {first second third : List (List String)} (before : Grows first second)
    (after : Grows second third) : Grows first third := by
  refine ⟨after.1.trans before.1, ?_⟩
  intro group members listed
  obtain ⟨some, found⟩ := before.2 group members listed
  obtain ⟨more, last⟩ := after.2 group _ found
  exact ⟨some ++ more, by rw [last, List.append_assoc]⟩

private theorem join_cases (size : Nat) (groups : List (List String)) (server : String) :
    Grows groups (join size groups server) ∧
      ((∀ members ∈ groups, members.length ≤ size) →
        ∀ members ∈ join size groups server, members.length ≤ size) ∧
      ((join size groups server).flatten.Perm (groups.flatten ++ [server]) ∨
        join size groups server = groups ∧ ∀ members ∈ groups, size ≤ members.length) := by
  unfold join
  cases found : roomiest? size groups with
  | none => exact ⟨.refl _, id, Or.inr ⟨rfl, roomiest?_eq_none found⟩⟩
  | some group =>
    obtain ⟨members, listed, room⟩ := roomiest?_eq_some found
    refine ⟨⟨List.length_modify .., ?_⟩, ?_, Or.inl (flatten_modify_perm server listed)⟩
    · intro other before there
      simp only [List.getElem?_modify, there]
      split
      · exact ⟨[server], rfl⟩
      · exact ⟨[], by simp⟩
    · intro bounded after member
      rcases mem_modify listed member with former | rfl
      · exact bounded after former
      · rw [List.length_append]
        exact room

private theorem topUp_spec (size : Nat) (groups : List (List String)) (servers : List String) :
    Grows groups (topUp size groups servers) ∧
      ((∀ members ∈ groups, members.length ≤ size) →
        ∀ members ∈ topUp size groups servers, members.length ≤ size) ∧
      ∃ added : List String, added.Sublist servers ∧
        (topUp size groups servers).flatten.Perm (groups.flatten ++ added) ∧
        (added = servers ∨ ∀ members ∈ topUp size groups servers, size ≤ members.length) := by
  induction servers generalizing groups with
  | nil => exact ⟨.refl _, id, [], .slnil, by rw [List.append_nil]; rfl, Or.inl rfl⟩
  | cons server rest ih =>
    obtain ⟨grows, fits, step⟩ := join_cases size groups server
    obtain ⟨later, bounded, added, part, perm, full⟩ := ih (join size groups server)
    rw [topUp_cons]
    refine ⟨grows.trans later, fun within => bounded (fits within), ?_⟩
    rcases step with joined | ⟨same, crowded⟩
    · refine ⟨server :: added, part.cons_cons server, ?_, full.imp_left (congrArg (server :: ·))⟩
      rw [List.append_cons]
      exact perm.trans (joined.append_right added)
    · rw [same] at perm ⊢
      refine ⟨added, part.cons server, perm, Or.inr ?_⟩
      rw [same] at later
      intro members member
      obtain ⟨group, below, rfl⟩ := List.mem_iff_getElem.mp member
      have inside : group < groups.length := later.1 ▸ below
      obtain ⟨more, found⟩ := later.2 group groups[group] (List.getElem?_eq_getElem inside)
      rw [List.getElem?_eq_getElem below, Option.some.injEq] at found
      have before := crowded groups[group] (List.getElem_mem inside)
      rw [found, List.length_append]
      omega

private theorem topUp_pool {pool : List String} {size : Nat} {groups : List (List String)}
    (distinct : pool.Nodup) (grouping : Grouping pool size groups)
    (room : size * groups.length ≤ pool.length) :
    let filled := topUp size groups (pool.filter fun server => ¬ groups.flatten.contains server)
    Grouping pool size filled ∧ Grows groups filled ∧
      ∀ members ∈ filled, members.length = size := by
  intro filled
  obtain ⟨grows, bounded, added, part, perm, full⟩ := topUp_spec size groups
    (pool.filter fun server => ¬ groups.flatten.contains server)
  have fits := bounded grouping.bounded
  have fresh : ∀ server ∈ added, server ∈ pool ∧ server ∉ groups.flatten := by
    intro server member
    obtain ⟨inside, free⟩ := List.mem_filter.mp (part.subset member)
    exact ⟨inside, by simpa using free⟩
  refine ⟨⟨?_, ?_, fits⟩, grows, ?_⟩
  · refine perm.nodup_iff.mpr (List.nodup_append.mpr ⟨grouping.distinct, ?_, ?_⟩)
    · exact (distinct.filter _).sublist part
    · rintro server old _ new rfl
      exact (fresh server new).2 old
  · intro server inside
    rcases List.mem_append.mp (perm.mem_iff.mp inside) with old | new
    · exact grouping.pooled old
    · exact (fresh server new).1
  · rcases full with rfl | full
    · refine length_eq_of_full fits ?_
      have used : (pool.filter groups.flatten.contains).length ≤ groups.flatten.length := by
        refine (distinct.filter _).length_le_of_subset fun server member => ?_
        exact List.contains_iff_mem.mp (List.mem_filter.mp member).2
      have parts := List.length_eq_length_filter_add (l := pool) groups.flatten.contains
      have total : filled.flatten.length = _ := perm.length_eq
      have length : filled.length = groups.length := grows.1
      simp only [List.length_append, decide_not, Bool.decide_eq_true] at total
      rw [length]
      omega
    · exact fun members member => Nat.le_antisymm (fits members member) (full members member)

def formerGroups (prior : Layout) (numGroups : Nat) : List (List String) :=
  (List.range numGroups).map fun group =>
    if group < prior.numGroups then prior.groupMembers group else []

private theorem flatten_map_sort_perm (groups : List (List String)) :
    (groups.map fun members => members.mergeSort fun first second => first ≤ second).flatten.Perm
      groups.flatten := by
  induction groups with
  | nil => rfl
  | cons first rest ih => exact (List.mergeSort_perm first _).append ih

private theorem steadyGroups_eq (pool : List String) (numGroups size : Nat) (prior : Layout) :
    steadyGroups pool numGroups size prior =
      let kept := keptGroups pool size (prior.formerGroups numGroups)
      (topUp size kept.1 (pool.filter fun server => ¬ kept.2.contains server)).map fun members =>
        members.mergeSort fun first second => first ≤ second := rfl

theorem steadyGroups_spec {pool : List String} {numGroups size : Nat} (distinct : pool.Nodup)
    (room : size * numGroups ≤ pool.length) (prior : Layout) :
    (steadyGroups pool numGroups size prior).length = numGroups ∧
      Grouping pool size (steadyGroups pool numGroups size prior) ∧
      ∀ members ∈ steadyGroups pool numGroups size prior, members.length = size := by
  have apart : ∀ members ∈ prior.formerGroups numGroups, members.Nodup := by
    intro members member
    obtain ⟨group, _, rfl⟩ := List.mem_map.mp member
    split
    · exact OrderedMap.nodup_keys _
    · exact .nil
  rcases kept : keptGroups pool size (prior.formerGroups numGroups) with ⟨groups, used⟩
  obtain ⟨grouping, length, rfl⟩ := keptGroups_spec apart kept
  have count : groups.length = numGroups := by simpa [formerGroups] using length
  obtain ⟨filled, grows, full⟩ := topUp_pool distinct grouping (count ▸ room)
  have result : steadyGroups pool numGroups size prior =
      (topUp size groups (pool.filter fun server => ¬ groups.flatten.contains server)).map
        fun members => members.mergeSort fun first second => first ≤ second := by
    rw [steadyGroups_eq, kept]
  have sorted : ∀ members ∈ steadyGroups pool numGroups size prior, members.length = size := by
    rw [result]
    intro members member
    obtain ⟨before, listed, rfl⟩ := List.mem_map.mp member
    rw [List.length_mergeSort, full before listed]
  have perm := flatten_map_sort_perm
    (topUp size groups (pool.filter fun server => ¬ groups.flatten.contains server))
  rw [← result] at perm
  refine ⟨?_, ⟨perm.nodup_iff.mpr filled.distinct, ?_, ?_⟩, sorted⟩
  · rw [result, List.length_map, grows.1, count]
  · exact fun server member => filled.pooled (perm.mem_iff.mp member)
  · exact fun members member => Nat.le_of_eq (sorted members member)

theorem steadyGroups_keeps {pool : List String} {numGroups size : Nat} {prior : Layout}
    (distinct : pool.Nodup) (room : size * numGroups ≤ pool.length)
    (grouping : Grouping pool size (prior.formerGroups numGroups)) {group : Nat}
    {members now : List String} (former : (prior.formerGroups numGroups)[group]? = some members)
    (listed : (steadyGroups pool numGroups size prior)[group]? = some now) : members ⊆ now := by
  have count : (prior.formerGroups numGroups).length = numGroups := by simp [formerGroups]
  obtain ⟨_, grows, _⟩ := topUp_pool distinct grouping (count.symm ▸ room)
  obtain ⟨more, found⟩ := grows.2 group members former
  simp only [steadyGroups_eq, keptGroups_of_grouping grouping, List.getElem?_map, found,
    Option.map_some, Option.some.injEq] at listed
  intro server inside
  rw [← listed, List.mem_mergeSort]
  exact List.mem_append_left more inside

private theorem accepted_iff {wanted size numGroups limit : Nat} {reuse : Bool} {error : Error} :
    (if wanted * numGroups ≤ limit then pure wanted
      else if reuse = true ∧ wanted ≤ limit then pure wanted
      else .error error : Except Error Nat) = .ok size ↔
    wanted = size ∧ (size * numGroups ≤ limit ∨ reuse = true ∧ size ≤ limit) := by
  have returned : (pure wanted : Except Error Nat) = .ok size ↔ wanted = size :=
    iff_of_eq (Except.ok.injEq wanted size)
  split
  · rename_i room
    rw [returned]
    exact ⟨fun same => ⟨same, Or.inl (same ▸ room)⟩, And.left⟩
  · rename_i crowded
    split
    · rename_i reused
      rw [returned]
      exact ⟨fun same => ⟨same, Or.inr (same ▸ reused)⟩, And.left⟩
    · rename_i refused
      constructor
      · rintro ⟨⟩
      · rintro ⟨rfl, room | reused⟩
        · exact absurd room crowded
        · exact absurd reused refused

theorem groupSize_eq_ok_iff {name : String} {pool : List String} {settings : GroupSettings}
    {size : Nat} : groupSize name pool settings = .ok size ↔
      settings.membersPerGroup? pool.length = some size ∧ settings.HasRoom pool.length size := by
  simp only [groupSize, GroupSettings.membersPerGroup?, GroupSettings.HasRoom]
  split
  · exact accepted_iff.trans (Option.some_inj.symm.and .rfl)
  · split
    · exact accepted_iff.trans (Option.some_inj.symm.and .rfl)
    · split
      · exact accepted_iff.trans (Option.some_inj.symm.and .rfl)
      · constructor
        · rintro ⟨⟩
        · rintro ⟨⟨⟩, _⟩

theorem groupSize_eq_ok {name : String} {pool : List String} {settings : GroupSettings}
    {size : Nat} (sized : groupSize name pool settings = .ok size) :
    (size * settings.numGroups ≤ pool.length ∨
      settings.allowReuse = true ∧ size ≤ pool.length) ∧
    (settings.numGroups ≠ 0 → 0 < size) := by
  obtain ⟨resolved, fits⟩ := groupSize_eq_ok_iff.mp sized
  refine ⟨fits, fun some => ?_⟩
  unfold GroupSettings.membersPerGroup? at resolved
  split at resolved
  · rename_i configured
    cases resolved
    exact configured
  · split at resolved
    · rename_i enough
      cases resolved
      exact Nat.div_pos enough (Nat.pos_of_ne_zero some)
    · split at resolved <;> cases resolved
      exact Nat.one_pos

private theorem windowGroups_spec {pool : List String} {size : Nat} (distinct : pool.Nodup)
    (room : size ≤ pool.length) (numGroups : Nat) :
    ∀ members ∈ windowGroups pool numGroups size,
      members.Nodup ∧ members.length = size ∧ members ⊆ pool := by
  intro members member
  obtain ⟨group, _, rfl⟩ := List.mem_map.mp member
  have wraps : ∀ member ∈ List.range size,
      (group * size + member) % pool.length < pool.length := fun member inside =>
    Nat.mod_lt _ (Nat.lt_of_lt_of_le (Nat.zero_lt_of_lt (List.mem_range.mp inside)) room)
  refine ⟨?_, by rw [List.length_map, List.length_range], ?_⟩
  · refine List.nodup_range.map_on fun first here second there same => ?_
    have equal : group * size + first ≡ group * size + second [MOD pool.length] :=
      getD_inj distinct (wraps first here) (wraps second there) same
    refine (Nat.ModEq.add_left_cancel' _ equal).eq_of_lt_of_lt ?_ ?_
    · exact Nat.lt_of_lt_of_le (List.mem_range.mp here) room
    · exact Nat.lt_of_lt_of_le (List.mem_range.mp there) room
  · intro server inside
    obtain ⟨member, here, rfl⟩ := List.mem_map.mp inside
    exact getD_mem (wraps member here)

theorem dealtGroups_spec {pool : List String} {numGroups size : Nat} (distinct : pool.Nodup)
    (room : size * numGroups ≤ pool.length) :
    (dealtGroups pool numGroups size).length = numGroups ∧
      Grouping pool size (dealtGroups pool numGroups size) ∧
      ∀ members ∈ dealtGroups pool numGroups size, members.length = size := by
  have inside : ∀ {group member}, group < numGroups → member < size →
      member * numGroups + group < pool.length := by
    intro group member known here
    have next : (member + 1) * numGroups ≤ size * numGroups := Nat.mul_le_mul_right _ here
    rw [Nat.succ_mul] at next
    omega
  have apart : ∀ {group other member another}, group < numGroups → other < numGroups →
      member < size → another < size →
      pool.getD (member * numGroups + group) "" = pool.getD (another * numGroups + other) "" →
      group = other ∧ member = another := by
    intro group other member another known also here there same
    have equal := getD_inj distinct (inside known here) (inside also there) same
    have groups := congrArg (· % numGroups) equal
    simp only [Nat.mul_add_mod', Nat.mod_eq_of_lt known, Nat.mod_eq_of_lt also] at groups
    subst groups
    exact ⟨rfl, Nat.eq_of_mul_eq_mul_right (Nat.zero_lt_of_lt known) (Nat.add_right_cancel equal)⟩
  refine ⟨by simp [dealtGroups], ⟨List.nodup_flatten.mpr ⟨?_, ?_⟩, ?_, ?_⟩, ?_⟩
  · intro members member
    obtain ⟨group, known, rfl⟩ := List.mem_map.mp member
    refine List.nodup_range.map_on fun first here second there same => ?_
    exact (apart (List.mem_range.mp known) (List.mem_range.mp known) (List.mem_range.mp here)
      (List.mem_range.mp there) same).2
  · refine List.pairwise_map.mpr (List.nodup_range.imp_of_mem fun known also different => ?_)
    intro server here there
    obtain ⟨first, within, rfl⟩ := List.mem_map.mp here
    obtain ⟨second, below, same⟩ := List.mem_map.mp there
    exact different (apart (List.mem_range.mp known) (List.mem_range.mp also)
      (List.mem_range.mp within) (List.mem_range.mp below) same.symm).1
  · intro server member
    obtain ⟨members, listed, here⟩ := List.mem_flatten.mp member
    obtain ⟨group, known, rfl⟩ := List.mem_map.mp listed
    obtain ⟨position, within, rfl⟩ := List.mem_map.mp here
    exact getD_mem (inside (List.mem_range.mp known) (List.mem_range.mp within))
  all_goals
    intro members member
    obtain ⟨group, _, rfl⟩ := List.mem_map.mp member
    simp

/-- Unless the pool is too small for it, the groups share no server. -/
theorem groups_grouping {pool : List String} {numGroups size : Nat} (distinct : pool.Nodup)
    (room : size * numGroups ≤ pool.length) (kept : Option Layout) :
    (groups pool numGroups size kept).length = numGroups ∧
      Grouping pool size (groups pool numGroups size kept) ∧
      ∀ members ∈ groups pool numGroups size kept, members.length = size := by
  unfold groups
  rw [if_neg (Nat.not_lt.mpr room)]
  cases kept with
  | none => exact dealtGroups_spec distinct room
  | some prior => exact steadyGroups_spec distinct room prior

theorem groups_spec {name : String} {pool : List String} {settings : GroupSettings} {size : Nat}
    (distinct : pool.Nodup) (sized : groupSize name pool settings = .ok size)
    (kept : Option Layout) :
    (groups pool settings.numGroups size kept).length = settings.numGroups ∧
      ∀ members ∈ groups pool settings.numGroups size kept,
        members.Nodup ∧ members.length = size ∧ members ⊆ pool := by
  by_cases crowded : pool.length < size * settings.numGroups
  · have room : size ≤ pool.length := by
      rcases (groupSize_eq_ok sized).1 with all | ⟨_, one⟩
      · omega
      · exact one
    unfold groups
    rw [if_pos crowded]
    exact ⟨by simp [windowGroups], windowGroups_spec distinct room settings.numGroups⟩
  · obtain ⟨length, grouping, full⟩ := groups_grouping distinct (Nat.le_of_not_lt crowded) kept
    refine ⟨length, fun members member => ⟨?_, full members member, ?_⟩⟩
    · exact (List.nodup_flatten.mp grouping.distinct).1 members member
    · exact fun server inside => grouping.pooled (List.mem_flatten_of_mem member inside)

private theorem formerGroups_grouping {pool : List String} {size numGroups : Nat} {next : Layout}
    {groups : List (List String)} (length : groups.length = numGroups)
    (grouping : Grouping pool size groups)
    (within : ∀ group members, groups[group]? = some members →
      next.groupMembers group ⊆ members) : Grouping pool size (next.formerGroups numGroups) := by
  have part : ∀ former ∈ (next.formerGroups numGroups), former.Nodup := by
    intro former member
    obtain ⟨group, _, rfl⟩ := List.mem_map.mp member
    split
    · exact OrderedMap.nodup_keys _
    · exact .nil
  have count : (next.formerGroups numGroups).length = numGroups := by simp [formerGroups]
  have inside : ∀ group (below : group < (next.formerGroups numGroups).length)
      (listed : group < groups.length),
      (next.formerGroups numGroups)[group] ⊆ groups[group] := by
    intro group below listed
    simp only [formerGroups, List.getElem_map, List.getElem_range]
    split
    · exact within group _ (List.getElem?_eq_getElem listed)
    · exact List.nil_subset _
  obtain ⟨_, disjoint⟩ := List.nodup_flatten.mp grouping.distinct
  refine ⟨List.nodup_flatten.mpr ⟨part, List.pairwise_iff_getElem.mpr ?_⟩, ?_, ?_⟩
  · intro first second here there before
    have apart := List.pairwise_iff_getElem.mp disjoint first second (by omega) (by omega) before
    exact fun server one other =>
      apart (inside first here (by omega) one) (inside second there (by omega) other)
  · intro server member
    obtain ⟨former, listed, here⟩ := List.mem_flatten.mp member
    obtain ⟨group, below, rfl⟩ := List.mem_iff_getElem.mp listed
    have held := inside group below (by omega) here
    exact grouping.pooled (List.mem_flatten_of_mem (List.getElem_mem _) held)
  · intro former listed
    obtain ⟨group, below, rfl⟩ := List.mem_iff_getElem.mp listed
    have fits := (part _ (List.getElem_mem below)).length_le_of_subset
      (inside group below (by omega))
    exact Nat.le_trans fits (grouping.bounded _ (List.getElem_mem _))

/-- A layout whose groups stay within those computed for another one keeps them. -/
theorem groups_keep {pool : List String} {numGroups size : Nat} {prior next : Layout}
    (distinct : pool.Nodup)
    (within : ∀ (group : Nat) members,
      (groups pool numGroups size (some prior))[group]? = some members →
        next.groupMembers group ⊆ members) {group : Nat} {members : List String}
    (listed : (groups pool numGroups size (some next))[group]? = some members)
    (known : group < next.numGroups) : next.groupMembers group ⊆ members := by
  by_cases crowded : pool.length < size * numGroups
  · simp only [groups, if_pos crowded] at within listed
    exact within group members listed
  · have room := Nat.le_of_not_lt crowded
    simp only [groups, if_neg crowded] at within listed
    obtain ⟨length, grouping, _⟩ := steadyGroups_spec distinct room prior
    have inside : group < numGroups := by
      have below := (List.getElem?_eq_some_iff.mp listed).1
      rwa [(steadyGroups_spec distinct room next).1] at below
    refine steadyGroups_keeps distinct room (formerGroups_grouping length grouping within) ?_ listed
    simp [formerGroups, inside, known]

end Layout

end SegmentPlacement

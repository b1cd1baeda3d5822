import SegmentPlacement.Proofs.MoveStep
import SegmentPlacement.Proofs.RoutingCandidates

/-! How many replicas that serve a step keeps. The floor counts the servers of a
segment in any state, first those that its target has as well and then the others
by name, so a server that does not serve may be kept where one that does is given
up. -/

namespace SegmentPlacement.Move

def leavers (current wanted : Replicas) : List String :=
  current.keys.filter fun server => !wanted.contains server

/-- How many of the servers that have to leave the floor still keeps. -/
def grace (current wanted : Replicas) (minAvailable : Nat) : Nat :=
  min minAvailable (wanted.size - 1) - (current.keys.filter wanted.contains).length

def keepers (current wanted : Replicas) (minAvailable : Nat) : List String :=
  current.keys.filter wanted.contains
    ++ (leavers current wanted).take (grace current wanted minAvailable)

def givenUp (current wanted : Replicas) (minAvailable : Nat) : List String :=
  (leavers current wanted).drop (grace current wanted minAvailable)

variable {current wanted : Replicas} {minAvailable : Nat}

private theorem keepers_append_givenUp_perm (current wanted : Replicas) (minAvailable : Nat) :
    (keepers current wanted minAvailable ++ givenUp current wanted minAvailable).Perm
      current.keys := by
  rw [keepers, givenUp, List.append_assoc, List.take_append_drop]
  exact List.filter_append_perm ..

theorem mem_nextReplicas_iff {server : String} (held : server ∈ current.keys) :
    server ∈ (nextReplicas current wanted minAvailable).keys ↔
      server ∈ keepers current wanted minAvailable := by
  have leaves : (current.filter fun server _ => ¬ wanted.contains server).keys =
      leavers current wanted := by
    rw [OrderedMap.keys_filter, leavers]
    exact List.filter_congr fun _ _ => by simp
  have floor : min minAvailable (wanted.size - 1) -
      (wanted.filter fun server _ => current.contains server).size =
        grace current wanted minAvailable := by
    rw [grace, ← OrderedMap.length_keys (wanted.filter _), OrderedMap.keys_filter,
      OrderedMap.length_filter_contains_comm]
  have arrives : server ∉ ((wanted.filter fun server _ => ¬ current.contains server).entries.take
      (wanted.size - ((wanted.filter fun server _ => current.contains server).size +
        ((current.filter fun server _ => ¬ wanted.contains server).entries.take
          (grace current wanted minAvailable)).length))).map Prod.fst := by
    intro member
    obtain ⟨entry, taken, rfl⟩ := List.mem_map.mp member
    have absent := (List.mem_filter.mp (List.mem_of_mem_take taken)).2
    simp [OrderedMap.contains_iff.mpr held] at absent
  rw [nextReplicas]
  simp only [floor]
  rw [OrderedMap.mem_keys_insertAll, or_iff_left arrives, OrderedMap.mem_keys_insertAll,
    OrderedMap.keys_filter, List.map_take, keepers, List.mem_append]
  change _ ∨ server ∈ (OrderedMap.keys _).take _ ↔ _
  rw [leaves, List.mem_filter, List.mem_filter, OrderedMap.contains_iff, OrderedMap.contains_iff]
  tauto

/-- What stays through a step are the servers that the target has as well, and as many of the others
as the floor keeps. -/
theorem staying_nextReplicas_perm :
    (staying current (nextReplicas current wanted minAvailable)).Perm
      (keepers current wanted minAvailable) := by
  have parts := keepers_append_givenUp_perm current wanted minAvailable
  have distinct := (List.nodup_append.mp (parts.nodup_iff.mpr current.nodup_keys)).1
  refine (List.perm_ext_iff_of_nodup (current.nodup_keys.filter _) distinct).mpr fun server => ?_
  rw [List.mem_filter, OrderedMap.contains_iff]
  constructor
  · rintro ⟨held, stays⟩
    exact (mem_nextReplicas_iff held).mp stays
  · intro kept
    have held := parts.subset (List.mem_append_left _ kept)
    exact ⟨held, (mem_nextReplicas_iff held).mpr kept⟩

/-- Of the servers that serve the segment, so many still hold it afterwards as the floor asks
for. -/
def KeepsServing (current wanted : Replicas) (minAvailable : Nat) (after : Replicas) : Prop :=
  min (min minAvailable (wanted.size - 1)) (current.keys.countP current.serves) ≤
    (staying current after).countP current.serves

/-- A server that serves is given up, although fewer of those that are kept serve than the floor
asks for. -/
def GivesUpServing (current wanted : Replicas) (minAvailable : Nat) : Prop :=
  (∃ server ∈ givenUp current wanted minAvailable, current.serves server = true) ∧
    (keepers current wanted minAvailable).countP current.serves <
      min minAvailable (wanted.size - 1)

private theorem keepsServing_self : KeepsServing current wanted minAvailable current := by
  have all : staying current current = current.keys :=
    List.filter_eq_self.mpr fun _ member => OrderedMap.contains_iff.mpr member
  rw [KeepsServing, all]
  exact Nat.min_le_right ..

theorem keepsServing_nextReplicas_iff :
    KeepsServing current wanted minAvailable (nextReplicas current wanted minAvailable) ↔
      ¬ GivesUpServing current wanted minAvailable := by
  have split := (keepers_append_givenUp_perm current wanted minAvailable).countP_eq current.serves
  rw [List.countP_append] at split
  have some := List.countP_pos_iff (p := current.serves)
    (l := givenUp current wanted minAvailable)
  rw [KeepsServing, GivesUpServing, ← some, staying_nextReplicas_perm.countP_eq, ← split]
  omega

theorem not_givesUpServing (serving : ∀ server ∈ current.keys, current.serves server = true) :
    ¬ GivesUpServing current wanted minAvailable := by
  rintro ⟨⟨server, lost, _⟩, few⟩
  have parts := keepers_append_givenUp_perm current wanted minAvailable
  have all : (keepers current wanted minAvailable).countP current.serves =
      (keepers current wanted minAvailable).length :=
    List.countP_eq_length.mpr fun server kept =>
      serving server (parts.subset (List.mem_append_left _ kept))
  have behind : grace current wanted minAvailable < (leavers current wanted).length := by
    have short := List.length_pos_of_mem lost
    rw [givenUp, List.length_drop] at short
    omega
  rw [all, keepers, List.length_append, List.length_take, grace] at few
  rw [grace] at behind
  omega

/-- The next assignment keeps the floor of serving servers for every segment that has a target. -/
def KeepsAllServing (current target : Assignment) (minAvailable : Nat) (after : Assignment) : Prop :=
  ∀ segment before wanted, current.get? segment = some before →
    target.get? segment = some wanted →
    ∃ replicas, after.get? segment = some replicas ∧
      KeepsServing before wanted minAvailable replicas

/-- A step keeps the floor of serving servers exactly if no segment that it changes gives up one
that serves for others that do not; where all replicas serve, none does. -/
theorem next_keepsServing_iff (current target : Assignment) (minAvailable : Nat)
    (batch : Option Nat) :
    (KeepsAllServing current target minAvailable (next current target minAvailable batch) ↔
      ∀ segment before wanted, current.get? segment = some before →
        target.get? segment = some wanted →
        (next current target minAvailable batch).get? segment ≠ some before →
        ¬ GivesUpServing before wanted minAvailable) ∧
    ∀ before wanted : Replicas, (∀ server ∈ before.keys, before.serves server = true) →
      ¬ GivesUpServing before wanted minAvailable := by
  refine ⟨⟨?_, ?_⟩, fun _ _ serving => not_givesUpServing serving⟩
  · intro keeps segment before wanted held aimed changed
    obtain ⟨after, found, enough⟩ := keeps segment before wanted held aimed
    rcases get?_next held with same | ⟨other, chosen, step⟩
    · exact absurd same changed
    · rw [aimed] at chosen
      cases chosen
      rw [found] at step
      cases step
      exact keepsServing_nextReplicas_iff.mp enough
  · intro spares segment before wanted held aimed
    by_cases same : (next current target minAvailable batch).get? segment = some before
    · exact ⟨before, same, keepsServing_self⟩
    · rcases get?_next held with put | ⟨other, chosen, step⟩
      · exact absurd put same
      · rw [aimed] at chosen
        cases chosen
        exact ⟨_, step, keepsServing_nextReplicas_iff.mpr
          (spares segment before wanted held aimed same)⟩

/-- One replica that is offline, and others that are online. -/
def partlyOffline (servers : List String) : Assignment :=
  .ofList [("s", .ofList (("a", .offline) :: servers.map fun server => (server, .online)))]

def onlineOn (servers : List String) : Assignment := .ofList [("s", .uniform servers .online)]

/-- The server that stays serves, so the offline one takes nobody's place. -/
theorem sharedServer_keepsServing :
    KeepsAllServing (partlyOffline ["b", "c"]) (onlineOn ["b", "d"]) 1
      (next (partlyOffline ["b", "c"]) (onlineOn ["b", "d"]) 1 none) := by
  refine (next_keepsServing_iff ..).1.mpr ?_
  rintro segment before wanted held aimed _ ⟨_, few⟩
  have inside := OrderedMap.get?_eq_some_iff.mp held
  have listed := OrderedMap.get?_eq_some_iff.mp aimed
  obtain ⟨rfl, rfl⟩ := Prod.mk.inj (List.mem_singleton.mp inside)
  obtain ⟨_, rfl⟩ := Prod.mk.inj (List.mem_singleton.mp listed)
  exact absurd few (by decide +kernel)

/-- Of two servers the one that is offline comes first by name, so it is the one that stays. -/
theorem not_all_steps_keep_serving :
    ¬ ∀ (current target : Assignment) (minAvailable : Nat) (batch : Option Nat),
      KeepsAllServing current target minAvailable (next current target minAvailable batch) := by
  intro keeps
  let before : Replicas := .ofList [("a", .offline), ("b", .online)]
  obtain ⟨after, found, enough⟩ := keeps (partlyOffline ["b"]) (onlineOn ["c", "d"]) 1 none "s"
    before (.uniform ["c", "d"] .online) (by decide +kernel) (by decide +kernel)
  have stepped : (next (partlyOffline ["b"]) (onlineOn ["c", "d"]) 1 none).get? "s" =
      some (.ofList [("a", .offline), ("c", .online)]) := by decide +kernel
  obtain rfl := Option.some.inj (stepped.symm.trans found)
  exact absurd enough (by unfold KeepsServing; decide +kernel)

end SegmentPlacement.Move

import Mathlib.Data.List.Induction
import SegmentPlacement.Proofs.MoveStep
import SegmentPlacement.Proofs.SummaryBalance

/-! A whole step, segment by segment. A segment on its way has as many replicas as
its target from the start: what it shares with the target, what the floor keeps,
and new servers for the rest. It goes on its way unless a server that it would
gain has had its batch, and the batches are filled in the order of the segments. -/

namespace SegmentPlacement.Move

section replicas

def sharedEntries (current wanted : Replicas) : List (String × ReplicaState) :=
  (wanted.filter fun server _ => current.contains server).entries

/-- The replicas that have to leave but stay through the step, to keep the floor. -/
def keptEntries (current wanted : Replicas) (minAvailable : Nat) :
    List (String × ReplicaState) :=
  (current.filter fun server _ => ¬ wanted.contains server).entries.take
    (min minAvailable (wanted.size - 1) - (sharedEntries current wanted).length)

/-- The replicas that come in with the step, up to the size of the target. -/
def newEntries (current wanted : Replicas) (minAvailable : Nat) : List (String × ReplicaState) :=
  (wanted.filter fun server _ => ¬ current.contains server).entries.take
    (wanted.size - ((sharedEntries current wanted).length +
      (keptEntries current wanted minAvailable).length))

variable {current wanted : Replicas} {minAvailable : Nat} {server : String}
  {entry : String × ReplicaState}

theorem mem_sharedEntries :
    entry ∈ sharedEntries current wanted ↔ entry ∈ wanted.entries ∧ entry.1 ∈ current.keys := by
  rw [← OrderedMap.contains_iff]
  exact List.mem_filter

private theorem of_mem_keptEntries (member : entry ∈ keptEntries current wanted minAvailable) :
    entry ∈ current.entries ∧ entry.1 ∉ wanted.keys := by
  obtain ⟨inside, apart⟩ := List.mem_filter.mp (List.mem_of_mem_take member)
  exact ⟨inside, by simpa [← OrderedMap.contains_iff] using apart⟩

private theorem of_mem_newEntries (member : entry ∈ newEntries current wanted minAvailable) :
    entry ∈ wanted.entries ∧ entry.1 ∉ current.keys := by
  obtain ⟨inside, apart⟩ := List.mem_filter.mp (List.mem_of_mem_take member)
  exact ⟨inside, by simpa [← OrderedMap.contains_iff] using apart⟩

private theorem mem_keys_of_mem {map : Replicas} (member : entry ∈ map.entries) :
    entry.1 ∈ map.keys := List.mem_map_of_mem member

private theorem nodup_keptEntries :
    ((keptEntries current wanted minAvailable).map Prod.fst).Nodup :=
  (OrderedMap.nodup_keys (current.filter _)).sublist ((List.take_sublist ..).map _)

private theorem nodup_newEntries :
    ((newEntries current wanted minAvailable).map Prod.fst).Nodup :=
  (OrderedMap.nodup_keys (wanted.filter _)).sublist ((List.take_sublist ..).map _)

private theorem entries_nextReplicas_perm (current wanted : Replicas) (minAvailable : Nat) :
    (nextReplicas current wanted minAvailable).entries.Perm
      (sharedEntries current wanted ++ keptEntries current wanted minAvailable ++
        newEntries current wanted minAvailable) := by
  let common := wanted.filter fun server _ => current.contains server
  have older : (common.insertAll (keptEntries current wanted minAvailable)).entries.Perm
      (sharedEntries current wanted ++ keptEntries current wanted minAvailable) := by
    refine OrderedMap.entries_insertAll_perm nodup_keptEntries fun entry member listed => ?_
    obtain ⟨other, shared, same⟩ := List.mem_map.mp listed
    have there := mem_keys_of_mem (mem_sharedEntries.mp shared).1
    exact (of_mem_keptEntries member).2 (same ▸ there)
  refine (OrderedMap.entries_insertAll_perm nodup_newEntries fun entry member listed => ?_).trans
    (older.append_right _)
  obtain ⟨other, former, same⟩ := List.mem_map.mp listed
  have held : other.1 ∈ current.keys := by
    rcases List.mem_append.mp (older.mem_iff.mp former) with shared | kept
    · exact (mem_sharedEntries.mp shared).2
    · exact mem_keys_of_mem (of_mem_keptEntries kept).1
  exact (of_mem_newEntries member).2 (same ▸ held)

theorem mem_nextReplicas :
    entry ∈ (nextReplicas current wanted minAvailable).entries ↔
      entry ∈ sharedEntries current wanted ∨ entry ∈ keptEntries current wanted minAvailable ∨
        entry ∈ newEntries current wanted minAvailable := by
  rw [(entries_nextReplicas_perm current wanted minAvailable).mem_iff, List.mem_append,
    List.mem_append, or_assoc]

theorem size_nextReplicas : (nextReplicas current wanted minAvailable).size = wanted.size := by
  have parts := List.length_eq_length_filter_add (l := wanted.entries)
    fun entry => current.contains entry.1
  have shared : (sharedEntries current wanted).length =
      (wanted.entries.filter fun entry => current.contains entry.1).length := rfl
  have missing : (wanted.filter fun server _ => ¬ current.contains server).entries.length =
      (wanted.entries.filter fun entry => !current.contains entry.1).length := by
    simp [OrderedMap.filter]
  have kept : (keptEntries current wanted minAvailable).length ≤
      min minAvailable (wanted.size - 1) - (sharedEntries current wanted).length :=
    List.length_take_le ..
  have new : (newEntries current wanted minAvailable).length =
      min (wanted.size - ((sharedEntries current wanted).length +
        (keptEntries current wanted minAvailable).length))
        (wanted.filter fun server _ => ¬ current.contains server).entries.length :=
    List.length_take
  have whole : wanted.size = wanted.entries.length := rfl
  have length := (entries_nextReplicas_perm current wanted minAvailable).length_eq
  rw [List.length_append, List.length_append] at length
  change (nextReplicas current wanted minAvailable).entries.length = _
  omega

/-- Replicas on the way from the current ones to those that are wanted: as many as are wanted, with
what both have and without what neither has, each in the state that its end of the way gives it,
and no fewer of the current servers than the floor asks for. -/
structure Underway (current wanted : Replicas) (minAvailable : Nat) (now : Replicas) : Prop where
  shared : ∀ server ∈ current.keys, server ∈ wanted.keys → server ∈ now.keys
  known : ∀ server ∈ now.keys, server ∈ current.keys ∨ server ∈ wanted.keys
  size : now.size = wanted.size
  floor : min (min minAvailable current.size) (wanted.size - 1) ≤ (staying current now).length
  aimed : ∀ server ∈ now.keys, server ∈ wanted.keys → now.get? server = wanted.get? server
  former : ∀ server ∈ now.keys, server ∉ wanted.keys → now.get? server = current.get? server

private theorem underway_nextReplicas (current wanted : Replicas) (minAvailable : Nat) :
    Underway current wanted minAvailable (nextReplicas current wanted minAvailable) := by
  refine ⟨fun server => mem_nextReplicas_of_common minAvailable,
    fun server => mem_of_mem_nextReplicas, size_nextReplicas,
    le_staying_nextReplicas current wanted minAvailable, ?_, ?_⟩
  · intro server member there
    obtain ⟨state, found⟩ := OrderedMap.mem_keys_iff.mp member
    have stated : (server, state) ∈ wanted.entries := by
      rcases mem_nextReplicas.mp (OrderedMap.get?_eq_some_iff.mp found) with shared | kept | new
      · exact (mem_sharedEntries.mp shared).1
      · exact absurd there (of_mem_keptEntries kept).2
      · exact (of_mem_newEntries new).1
    rw [found, OrderedMap.get?_eq_some_iff.mpr stated]
  · intro server member apart
    obtain ⟨state, found⟩ := OrderedMap.mem_keys_iff.mp member
    have stated : (server, state) ∈ current.entries := by
      rcases mem_nextReplicas.mp (OrderedMap.get?_eq_some_iff.mp found) with shared | kept | new
      · exact absurd (mem_keys_of_mem (mem_sharedEntries.mp shared).1) apart
      · exact (of_mem_keptEntries kept).1
      · exact absurd (mem_keys_of_mem (of_mem_newEntries new).1) apart
    rw [found, OrderedMap.get?_eq_some_iff.mpr stated]

end replicas

def gainedIn (before after : Assignment) (segments : List String) (server : String) : Nat :=
  segments.countP fun segment =>
    (gaining (before.replicasOf segment) (after.replicasOf segment)).contains server

private theorem gaining_self (replicas : Replicas) : gaining replicas replicas = [] := by
  refine List.filter_eq_nil_iff.mpr fun server member => ?_
  simp [OrderedMap.contains_iff.mpr member]

private theorem getD_get?_foldl_add (counts : OrderedMap String Nat) (servers : List String)
    (server : String) :
    ((servers.foldl (fun counts server => counts.add server 1) counts).get? server).getD 0 =
      (counts.get? server).getD 0 + servers.count server := by
  induction servers generalizing counts with
  | nil => rfl
  | cons first rest ih =>
    rw [List.foldl_cons, ih, OrderedMap.add, OrderedMap.get?_insert, List.count_cons]
    by_cases same : server = first
    · subst same
      simp only [if_true, Option.getD_some, beq_self_eq_true]
      omega
    · simp [same, Ne.symm same]

/-- With the numbers gained so far, the segment would give a server more than its batch. -/
def Full (batch : Option Nat) (gained : String → Nat) (before now : Replicas) : Prop :=
  ∃ size, batch = some size ∧ ∃ server ∈ gaining before now, size ≤ gained server

theorem full_some_iff {size : Nat} {gained : String → Nat} {before now : Replicas} :
    Full (some size) gained before now ↔
      ((gaining before now).any fun server => size ≤ gained server) = true := by
  rw [List.any_eq_true]
  constructor
  · rintro ⟨_, ⟨⟩, server, gains, most⟩
    exact ⟨server, gains, decide_eq_true most⟩
  · rintro ⟨server, gains, most⟩
    exact ⟨size, rfl, server, gains, of_decide_eq_true most⟩

section steps

variable {target : Assignment} {minAvailable : Nat} {batch : Option Nat}
  {gained : OrderedMap String Nat} {segment : String} {before wanted : Replicas}

private theorem nextSegment_of_full (aimed : target.get? segment = some wanted)
    (full : Full batch (fun server => (gained.get? server).getD 0) before
      (nextReplicas before wanted minAvailable)) :
    nextSegment target minAvailable batch gained segment before = (before, gained) := by
  obtain ⟨size, rfl, _⟩ := id full
  simp only [nextSegment, aimed, full_some_iff.mp full, if_true]

/-- The numbers after a segment has taken its step. They are kept only for batches. -/
def gainedAfter (batch : Option Nat) (gained : OrderedMap String Nat) (before now : Replicas) :
    OrderedMap String Nat :=
  match batch with
  | none => gained
  | some _ => (gaining before now).foldl (fun gained server => gained.add server 1) gained

private theorem nextSegment_of_room (aimed : target.get? segment = some wanted)
    (room : ¬ Full batch (fun server => (gained.get? server).getD 0) before
      (nextReplicas before wanted minAvailable)) :
    nextSegment target minAvailable batch gained segment before =
      (nextReplicas before wanted minAvailable,
        gainedAfter batch gained before (nextReplicas before wanted minAvailable)) := by
  cases batch with
  | none => simp only [nextSegment, aimed, gainedAfter]
  | some size => simp only [nextSegment, aimed, if_neg (room ∘ full_some_iff.mpr), gainedAfter]

theorem nextSegment_idle_or_room (target : Assignment) (minAvailable : Nat) (batch : Option Nat)
    (gained : OrderedMap String Nat) (segment : String) (before : Replicas) :
    nextSegment target minAvailable batch gained segment before = (before, gained) ∨
      ∃ now, ¬ Full batch (fun server => (gained.get? server).getD 0) before now ∧
        nextSegment target minAvailable batch gained segment before =
          (now, gainedAfter batch gained before now) := by
  cases aimed : target.get? segment with
  | none => exact Or.inl (by simp only [nextSegment, aimed])
  | some wanted =>
    by_cases full : Full batch (fun server => (gained.get? server).getD 0) before
        (nextReplicas before wanted minAvailable)
    · exact Or.inl (nextSegment_of_full aimed full)
    · exact Or.inr ⟨_, full, nextSegment_of_room aimed full⟩

private theorem nextSegment_gained (target : Assignment) (minAvailable size : Nat)
    (gained : OrderedMap String Nat) (segment : String) (before : Replicas) (server : String) :
    let step := nextSegment target minAvailable (some size) gained segment before
    (step.2.get? server).getD 0 = (gained.get? server).getD 0 +
        (if (gaining before step.1).contains server then 1 else 0) ∧
      ((gained.get? server).getD 0 ≤ size → (step.2.get? server).getD 0 ≤ size) := by
  intro step
  rcases nextSegment_idle_or_room target minAvailable (some size) gained segment before with
    same | ⟨now, room, same⟩
  · rw [show step = _ from same, gaining_self]
    exact ⟨rfl, id⟩
  have once : (gaining before now).Nodup := (OrderedMap.nodup_keys now).filter _
  have adds : ((gainedAfter (some size) gained before now).get? server).getD 0 =
      (gained.get? server).getD 0 + if (gaining before now).contains server then 1 else 0 := by
    rw [gainedAfter, getD_get?_foldl_add, once.count]
    simp only [List.contains_iff_mem]
  rw [show step = _ from same]
  refine ⟨adds, fun most => ?_⟩
  rw [adds]
  split
  · rename_i gains
    have below : ¬ size ≤ (gained.get? server).getD 0 := fun reached =>
      room ⟨size, rfl, server, List.contains_iff_mem.mp gains, reached⟩
    omega
  · exact most

end steps

section traversal

variable {current : Assignment} (target : Assignment) (minAvailable : Nat)

/-- A segment takes its step with what the segments before it have counted. -/
theorem get?_next_of_split (batch : Option Nat) {earlier later : List (String × Replicas)}
    {entry : String × Replicas} (split : current.entries = earlier ++ entry :: later) :
    (next current target minAvailable batch).get? entry.1 =
      some (nextSegment target minAvailable batch
        (OrderedMap.stateAfter (nextSegment target minAvailable batch) {} earlier)
        entry.1 entry.2).1 :=
  OrderedMap.get?_mapAccum_of_split _ _ split

/-- With batches, the counts are those of the segments that have taken their step, and no server
gets more than its batch. -/
theorem counted_of_split (size : Nat) (server : String) {earlier later : List (String × Replicas)}
    (split : current.entries = earlier ++ later) :
    let step := nextSegment target minAvailable (some size)
    let counted := ((OrderedMap.stateAfter step {} earlier).get? server).getD 0
    counted = gainedIn current (next current target minAvailable (some size))
        (earlier.map Prod.fst) server ∧
      counted ≤ size := by
  intro step counted
  -- The segments that have taken their step grow by one at their end.
  induction earlier using List.reverseRecOn generalizing later with
  | nil => exact ⟨rfl, Nat.zero_le _⟩
  | append_singleton earlier entry ih =>
    rw [List.append_assoc] at split
    obtain ⟨same, most⟩ := ih split
    have held : current.replicasOf entry.1 = entry.2 := by
      have member : entry ∈ current.entries :=
        split ▸ List.mem_append_right _ List.mem_cons_self
      rw [Assignment.replicasOf, OrderedMap.get?_eq_some_iff.mpr member, Option.getD_some]
    have stepped : (next current target minAvailable (some size)).replicasOf entry.1 =
        (step (OrderedMap.stateAfter step {} earlier) entry.1 entry.2).1 := by
      rw [Assignment.replicasOf, get?_next_of_split _ _ _ split, Option.getD_some]
    have reached : OrderedMap.stateAfter step {} (earlier ++ [entry]) =
        (step (OrderedMap.stateAfter step {} earlier) entry.1 entry.2).2 := by
      rw [OrderedMap.stateAfter, List.foldl_append]
      rfl
    obtain ⟨adds, bounded⟩ := nextSegment_gained target minAvailable size
      (OrderedMap.stateAfter step {} earlier) entry.1 entry.2 server
    have counts : counted = ((step (OrderedMap.stateAfter step {} earlier) entry.1
        entry.2).2.get? server).getD 0 := by
      rw [← reached]
    rw [counts]
    refine ⟨?_, bounded most⟩
    rw [gainedIn, List.map_append, List.countP_append, ← gainedIn, ← same, List.map_singleton,
      List.countP_singleton, held, stepped]
    exact adds

/-- A segment is put off exactly when one of the servers that it would gain has had its batch from
the segments before it. Otherwise it is on its way. -/
theorem steps_of_split (batch : Option Nat) {earlier later : List (String × Replicas)}
    {segment : String} {before wanted : Replicas} (split : current.entries = earlier ++ (segment, before) :: later)
    (aimed : target.get? segment = some wanted) :
    let after := next current target minAvailable batch
    let full := Full batch (gainedIn current after (earlier.map Prod.fst)) before
      (nextReplicas before wanted minAvailable)
    (full → after.get? segment = some before) ∧
      (¬ full → after.get? segment = some (nextReplicas before wanted minAvailable)) := by
  intro after full
  have stepped := get?_next_of_split target minAvailable batch split
  have same : full ↔ Full batch (fun server => ((OrderedMap.stateAfter
      (nextSegment target minAvailable batch) {} earlier).get? server).getD 0) before
      (nextReplicas before wanted minAvailable) := by
    refine exists_congr fun size => and_congr_right ?_
    rintro rfl
    refine exists_congr fun server => and_congr_right fun _ => ?_
    exact iff_of_eq
      (congrArg (size ≤ ·) (counted_of_split target minAvailable size server split).1.symm)
  constructor
  · intro reached
    exact stepped.trans (congrArg (some ·.1) (nextSegment_of_full aimed (same.mp reached)))
  · intro room
    exact stepped.trans (congrArg (some ·.1) (nextSegment_of_room aimed (room ∘ same.mpr)))

private theorem gainedIn_next_le (current : Assignment) (size : Nat) (server : String) :
    gainedIn current (next current target minAvailable (some size)) current.keys server ≤ size := by
  obtain ⟨same, most⟩ := counted_of_split target minAvailable size server
    (List.append_nil current.entries).symm
  exact same ▸ most

end traversal

/-- A step as a whole. It keeps the names of the segments, and the replicas of those without a
target. Every other segment is on its way, or it is put off because the segments before it have
filled the batch of a server that it would gain. With batches no server gains more than its own. -/
theorem next_step (current target : Assignment) (minAvailable : Nat) (batch : Option Nat) :
    let after := next current target minAvailable batch
    after.keys = current.keys ∧
    (∀ segment, target.get? segment = none → after.get? segment = current.get? segment) ∧
    (∀ earlier segment later before wanted, current.keys = earlier ++ segment :: later →
      current.get? segment = some before → target.get? segment = some wanted →
      let goal := nextReplicas before wanted minAvailable
      let full := Full batch (gainedIn current after earlier) before goal
      Underway before wanted minAvailable goal ∧ (full → after.get? segment = some before) ∧
        (¬ full → after.get? segment = some goal)) ∧
    ∀ size, batch = some size → ∀ server, gainedIn current after current.keys server ≤ size := by
  intro after
  refine ⟨keys_next .., fun segment => get?_next_of_untargeted minAvailable batch, ?_, ?_⟩
  · intro earlier segment later before wanted split held aimed
    obtain ⟨first, rest, entries, rfl, after⟩ := List.map_eq_append_iff.mp split
    obtain ⟨entry, last, rfl, rfl, rfl⟩ := List.map_eq_cons_iff.mp after
    have member : entry ∈ current.entries :=
      entries ▸ List.mem_append_right _ List.mem_cons_self
    have same := (OrderedMap.get?_eq_some_iff.mpr member).symm.trans held
    obtain ⟨name, stored⟩ := entry
    cases same
    exact ⟨underway_nextReplicas stored wanted minAvailable,
      steps_of_split target minAvailable batch entries aimed⟩
  · rintro size rfl server
    exact gainedIn_next_le target minAvailable current size server

/-- Two segments that are to go to the same server. -/
def sameWay (server : String) : Assignment :=
  OrderedMap.ofList [("s", .uniform [server] .online), ("t", .uniform [server] .online)]

/-- With a batch of one, the second of them waits for the first. -/
theorem next_step_puts_off :
    let after := next (sameWay "a") (sameWay "b") 1 (some 1)
    after.get? "s" = some (.uniform ["b"] .online) ∧
      after.get? "t" = some (.uniform ["a"] .online) ∧
      ∀ server, gainedIn (sameWay "a") after ["s", "t"] server ≤ 1 := by
  intro after
  obtain ⟨_, _, steps, most⟩ := next_step (sameWay "a") (sameWay "b") 1 (some 1)
  obtain ⟨_, _, first⟩ := steps [] "s" ["t"] (.uniform ["a"] .online) (.uniform ["b"] .online)
    (by decide +kernel) (by decide +kernel) (by decide +kernel)
  obtain ⟨_, second, _⟩ := steps ["s"] "t" [] (.uniform ["a"] .online) (.uniform ["b"] .online)
    (by decide +kernel) (by decide +kernel) (by decide +kernel)
  have goal : nextReplicas (.uniform ["a"] .online) (.uniform ["b"] .online) 1 =
      .uniform ["b"] .online := by decide +kernel
  refine ⟨(first ?_).trans (congrArg some goal), second ?_, most 1 rfl⟩
  · rintro ⟨_, ⟨⟩, server, _, reached⟩
    exact absurd reached (Nat.not_succ_le_zero 0)
  · exact ⟨1, rfl, "b", by decide +kernel, by decide +kernel⟩

end SegmentPlacement.Move

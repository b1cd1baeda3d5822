import SegmentPlacement.Proofs.MoveProgress
import SegmentPlacement.Proofs.SummaryAccount

/-! A move changes every replica at most once. Each step stays between the
assignment it starts from and the target, so what comes in was missing and stays,
and what goes was not wanted and stays away. Added up over the steps, the changes
are those that the summary announces, however the steps are cut. -/

namespace SegmentPlacement.Move

/-- The middle keeps what both ends have and has nothing that neither has. -/
structure Between (first middle last : Assignment) : Prop where
  keeps : ∀ pair ∈ first.holdings, pair ∈ last.holdings → pair ∈ middle.holdings
  brings : ∀ pair ∈ middle.holdings, pair ∈ first.holdings ∨ pair ∈ last.holdings

namespace Between

variable {first middle later last : Assignment}

theorem symm (between : Between first middle last) : Between last middle first :=
  ⟨fun pair here there => between.keeps pair there here,
    fun pair member => (between.brings pair member).symm⟩

theorem left (first last : Assignment) : Between first first last :=
  ⟨fun _ here _ => here, fun _ => Or.inl⟩

theorem before (between : Between first middle last) (step : Between middle later last) :
    Between first middle later := by
  constructor
  · intro pair here there
    rcases step.brings pair there with held | wanted
    · exact held
    · exact between.keeps pair here wanted
  · intro pair held
    exact (between.brings pair held).imp_right (step.keeps pair held)

theorem trans (between : Between first middle last) (step : Between middle later last) :
    Between first later last := by
  constructor
  · intro pair here wanted
    exact step.keeps pair (between.keeps pair here wanted) wanted
  · intro pair there
    rcases step.brings pair there with held | wanted
    · exact between.brings pair held
    · exact Or.inr wanted

/-- By way of the middle nothing is added that is not added directly, and nothing twice. -/
theorem additions_perm (between : Between first middle last) :
    (additions first middle ++ additions middle last).Perm (additions first last) := by
  have apart : (additions first middle).Disjoint (additions middle last) := by
    intro pair here there
    exact (mem_additions.mp there).2 (mem_additions.mp here).1
  refine (List.perm_ext_iff_of_nodup ((nodup_additions ..).append (nodup_additions ..) apart)
    (nodup_additions ..)).mpr fun pair => ?_
  simp only [List.mem_append, mem_additions]
  constructor
  · rintro (⟨held, new⟩ | ⟨wanted, missing⟩)
    · exact ⟨(between.brings pair held).resolve_left new, new⟩
    · exact ⟨wanted, fun here => missing (between.keeps pair here wanted)⟩
  · intro ⟨wanted, new⟩
    by_cases held : pair ∈ middle.holdings
    · exact Or.inl ⟨held, new⟩
    · exact Or.inr ⟨wanted, held⟩

end Between

theorem between_next (current target : Assignment) (minAvailable : Nat) (batch : Option Nat) :
    Between current (next current target minAvailable batch) target := by
  constructor
  · intro ⟨segment, server⟩ here there
    obtain ⟨before, held, inside⟩ := Assignment.mem_holdings.mp here
    obtain ⟨wanted, aimed, within⟩ := Assignment.mem_holdings.mp there
    refine Assignment.mem_holdings.mpr ?_
    rcases get?_next held with same | ⟨other, found, step⟩
    · exact ⟨before, same, inside⟩
    · rw [aimed] at found
      cases found
      exact ⟨_, step, mem_nextReplicas_of_common minAvailable inside within⟩
  · intro ⟨segment, server⟩ there
    obtain ⟨after, found, inside⟩ := Assignment.mem_holdings.mp there
    have listed : segment ∈ current.keys := by
      rw [← keys_next current target minAvailable batch]
      exact OrderedMap.mem_keys_iff.mpr ⟨after, found⟩
    obtain ⟨before, held⟩ := OrderedMap.mem_keys_iff.mp listed
    rcases get?_next held with same | ⟨wanted, aimed, step⟩
    · rw [found] at same
      cases same
      exact Or.inl (Assignment.mem_holdings.mpr ⟨after, held, inside⟩)
    · rw [found] at step
      cases step
      exact (mem_of_mem_nextReplicas inside).imp
        (fun here => Assignment.mem_holdings.mpr ⟨before, held, here⟩)
        fun there => Assignment.mem_holdings.mpr ⟨wanted, aimed, there⟩

/-- The assignment after so many steps. -/
def stage (current target : Assignment) (minAvailable : Nat) (batch : Option Nat) (steps : Nat) :
    Assignment :=
  (fun assignment => next assignment target minAvailable batch)^[steps] current

/-- What each of the first steps adds, one after the other. -/
def addedBy (stages : Nat → Assignment) : Nat → List (String × String)
  | 0 => []
  | steps + 1 => addedBy stages steps ++ additions (stages steps) (stages (steps + 1))

/-- What each of the first steps takes away, one after the other. -/
def removedBy (stages : Nat → Assignment) : Nat → List (String × String)
  | 0 => []
  | steps + 1 => removedBy stages steps ++ additions (stages (steps + 1)) (stages steps)

section stages

variable {current target : Assignment} {minAvailable : Nat} {batch : Option Nat}

private theorem stage_succ (steps : Nat) : stage current target minAvailable batch (steps + 1) =
    next (stage current target minAvailable batch steps) target minAvailable batch :=
  Function.iterate_succ_apply' ..

private theorem keys_stage (steps : Nat) :
    (stage current target minAvailable batch steps).keys = current.keys := by
  induction steps with
  | zero => rfl
  | succ steps ih => rw [stage_succ, keys_next, ih]

private theorem between_stage (steps : Nat) :
    Between current (stage current target minAvailable batch steps) target := by
  induction steps with
  | zero => exact .left current target
  | succ steps ih =>
    rw [stage_succ]
    exact ih.trans (between_next ..)

private theorem between_stage_succ (steps : Nat) :
    Between current (stage current target minAvailable batch steps)
      (stage current target minAvailable batch (steps + 1)) := by
  rw [stage_succ]
  exact (between_stage steps).before (between_next ..)

private theorem addedBy_perm (steps : Nat) :
    (addedBy (stage current target minAvailable batch) steps).Perm
      (additions current (stage current target minAvailable batch steps)) := by
  induction steps with
  | zero => exact .of_eq (additions_self current).symm
  | succ steps ih => exact (ih.append_right _).trans (between_stage_succ steps).additions_perm

private theorem removedBy_perm (steps : Nat) :
    (removedBy (stage current target minAvailable batch) steps).Perm
      (additions (stage current target minAvailable batch steps) current) := by
  induction steps with
  | zero => exact .of_eq (additions_self current).symm
  | succ steps ih =>
    exact ((ih.append_right _).trans List.perm_append_comm).trans
      (between_stage_succ steps).symm.additions_perm

end stages

/-- On the way to a target with the same segments, no replica is added twice or taken away twice;
what is taken away is not added by any step and is not in the target. Once the target is reached,
the replicas added and taken away are as many as the summary says, for the table and for every
server. -/
theorem steps_match_summary (current target : Assignment) (minAvailable : Nat)
    (batch : Option Nat) (roomy : ∀ size, batch = some size → 0 < size)
    (named : current.keys = target.keys) (table : TableConfig) (servers : List Server)
    (segments : OrderedMap String Segment) :
    let stages := stage current target minAvailable batch
    let summary := Summary.compute table current target servers segments
    (∃ steps ≤ stepsNeeded current target, reached (stages steps) target = true) ∧
    ∀ steps, (addedBy stages steps).Nodup ∧ (removedBy stages steps).Nodup ∧
      (∀ pair ∈ removedBy stages steps, pair ∉ addedBy stages steps ∧ pair ∉ target.holdings) ∧
      (reached (stages steps) target = true →
        (addedBy stages steps).length = summary.segments.moved ∧
        (removedBy stages steps).length = summary.segments.deleted ∧
        ∀ server,
          (addedBy stages steps).countP (fun pair => pair.2 = server) =
            (summary.servers.changes.get? server).elim 0 ServerChange.added ∧
          (removedBy stages steps).countP (fun pair => pair.2 = server) =
            (summary.servers.changes.get? server).elim 0 ServerChange.deleted) := by
  intro stages summary
  refine ⟨⟨_, Nat.le_refl _, reached_iterate minAvailable roomy (Nat.le_refl _)⟩, fun steps => ?_⟩
  have between : Between current (stages steps) target := between_stage steps
  have added : (addedBy stages steps).Perm (additions current (stages steps)) := addedBy_perm steps
  have removed : (removedBy stages steps).Perm (additions (stages steps) current) :=
    removedBy_perm steps
  refine ⟨added.nodup_iff.mpr (nodup_additions ..), removed.nodup_iff.mpr (nodup_additions ..),
    ?_, ?_⟩
  · intro pair member
    obtain ⟨here, gone⟩ := mem_additions.mp (removed.mem_iff.mp member)
    refine ⟨fun again => ?_, fun wanted => gone (between.keeps pair here wanted)⟩
    exact gone (mem_additions.mp (added.mem_iff.mp again)).1
  · intro done
    have there : stages steps = target := eq_of_reached done ((keys_stage steps).trans named)
    rw [there] at added removed
    obtain ⟨⟨moved, deleted⟩, changes⟩ :=
      Summary.compute_accounts table current target servers segments
    refine ⟨added.length_eq.trans moved.symm, removed.length_eq.trans deleted.symm, ?_⟩
    intro server
    obtain ⟨gains, losses⟩ := changes server
    exact ⟨(added.countP_eq _).trans gains.symm, (removed.countP_eq _).trans losses.symm⟩

/-- Two segments that both go to server `c`, which takes one of them in a step. -/
def sharedStart : Assignment :=
  OrderedMap.ofList [("s", .uniform ["a", "b"] .online), ("u", .uniform ["a"] .online)]

def sharedEnd : Assignment :=
  OrderedMap.ofList [("s", .uniform ["c", "d"] .online), ("u", .uniform ["c"] .online)]

theorem shared_matches_summary :
    sharedStart.keys = sharedEnd.keys ∧
      ∃ steps, reached (stage sharedStart sharedEnd 1 (some 1) steps) sharedEnd = true ∧
        (addedBy (stage sharedStart sharedEnd 1 (some 1)) steps).length = 3 ∧
        (removedBy (stage sharedStart sharedEnd 1 (some 1)) steps).length = 3 ∧
        (addedBy (stage sharedStart sharedEnd 1 (some 1)) steps).countP
          (fun pair => pair.2 = "c") = 2 := by
  have roomy : ∀ size, some 1 = some size → 0 < size := by
    intro size same
    cases same
    decide
  have named : sharedStart.keys = sharedEnd.keys := by decide +kernel
  obtain ⟨⟨steps, _, done⟩, counts⟩ := steps_match_summary sharedStart sharedEnd 1 (some 1) roomy
    named (.offline "t" 2 "T") [] {}
  obtain ⟨_, _, _, totals⟩ := counts steps
  obtain ⟨added, removed, servers⟩ := totals done
  refine ⟨named, steps, done, added.trans ?_, removed.trans ?_, (servers "c").1.trans ?_⟩
  all_goals decide +kernel

end SegmentPlacement.Move

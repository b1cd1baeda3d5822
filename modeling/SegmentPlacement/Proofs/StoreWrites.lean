import SegmentPlacement.Proofs.ApplyLoop
import SegmentPlacement.Proofs.MoveProgress
import SegmentPlacement.Proofs.MoveStep
import SegmentPlacement.Proofs.SettledPlan
import SegmentPlacement.Rebalance.Run

/-! What a rebalance leaves in a store. The layouts of its plan are stored and
dropped, the tiers that it records are not seen by the next one, and if the loop
says that it is done, the target is the assignment that is stored. -/

namespace SegmentPlacement

namespace ApplyJob
open Program

/-- The store holds an assignment of the given segments, and all else as before. -/
structure Stores (table : String) (contents : Contents) (assignment : Assignment)
    (store : Store) : Prop where
  names : assignment.keys = contents.assignment.keys
  stored : store.contents? table = some { contents with assignment }

private theorem sustains_stores (apply : ApplyJob) (contents : Contents) :
    apply.Sustains Store.respond (fun _ store => ∃ assignment,
        Stores apply.table contents assignment store)
      (fun _ => Stores apply.table contents)
      fun _ current => Stores apply.table contents current.assignment where
  between _ _ _ reads held := by rwa [Store.respond_of_reads reads]
  lasts _ _ _ _ reads stored := by rwa [Store.respond_of_reads reads]
  held _ assignment _ stored := ⟨assignment, stored⟩
  read _ current store held answered := by
    obtain ⟨assignment, names, stored⟩ := held
    simp only [Store.respond, Except.ok.injEq] at answered
    obtain ⟨state, found, rfl⟩ := Option.map_eq_some_iff.mp answered
    have same : state.ideal.assignment = assignment := by
      rw [Store.contents?, found] at stored
      exact congrArg Contents.assignment (Option.some.inj stored)
    exact ⟨same ▸ names, same ▸ stored⟩
  known _ _ _ stored := stored
  write _ current next store stored changed := by
    have step : next =
        Move.next current.assignment apply.target apply.minAvailable apply.batch := by
      unfold change at changed
      split at changed
      · cases changed
      · exact (Option.some.inj changed).symm
    have names : next.keys = contents.assignment.keys := by
      rw [step, Move.keys_next, stored.names]
    rcases store.compareAndSet_cases apply.table current.version next with
      ⟨refused, same⟩ | ⟨_, written⟩
    · exact ⟨⟨_, stored.names, same.trans stored.stored⟩, fun accepted => absurd accepted refused⟩
    · have after : Stores apply.table contents next
          (Store.respond (.compareAndSet apply.table current.version next) store).2 :=
        ⟨names, written.trans (by rw [stored.stored]; rfl)⟩
      exact ⟨⟨next, after⟩, fun _ => after⟩

private theorem run_stores (apply : ApplyJob) (contents : Contents)
    (names : apply.target.keys = contents.assignment.keys) (current : Assignment) :
    Ensures Store.respond (fun store => store.contents? apply.table = some contents)
      (apply.run current) fun outcome store => ∀ steps, outcome = .done steps →
        store.contents? apply.table = some { contents with assignment := apply.target } := by
  refine .weaken ((sustains_stores apply contents).run_finishes current)
    (fun store held => ⟨contents.assignment, rfl, held⟩) ?_
  rintro outcome store ⟨_, finishes⟩ steps done
  obtain ⟨assignment, stored, reached⟩ := finishes steps done
  rw [stored.stored, Move.eq_of_reached reached (stored.names.trans names.symm)]

end ApplyJob

namespace Rebalance
open Program

variable {name : String} {contents : Contents}

private theorem storeLayouts_stores (layouts : List Layout) :
    Ensures Store.respond (fun store => store.contents? name = some contents)
      (storeLayouts layouts) fun _ store => store.contents? name = some
        { contents with
          layouts := layouts.foldl (fun layouts layout => layouts.insert layout.name layout)
            contents.layouts } := by
  induction layouts generalizing contents with
  | nil => exact .pure fun _ held => held
  | cons layout rest ih =>
    rw [storeLayouts]
    have put : Ensures Store.respond (fun store => store.contents? name = some contents)
        (Program.call (.putLayout layout)) fun reply store => reply = .ok () ∧
          store.contents? name = some
            { contents with layouts := contents.layouts.insert layout.name layout } :=
      .call fun store held => ⟨rfl, (store.contents?_putLayout layout name).trans (by rw [held]; rfl)⟩
    refine .bind put fun reply => ?_
    split
    · exact .pure fun _ stored => by cases stored.1
    · exact .weaken ih (fun _ stored => stored.2) fun _ _ held => held

private theorem dropLayouts_stores (names : List String) :
    Ensures Store.respond (fun store => store.contents? name = some contents)
      (dropLayouts names) fun _ store => store.contents? name = some
        { contents with layouts := names.foldl OrderedMap.erase contents.layouts } := by
  induction names generalizing contents with
  | nil => exact .pure fun _ held => held
  | cons dropped rest ih =>
    rw [dropLayouts]
    have erased : Ensures Store.respond (fun store => store.contents? name = some contents)
        (Program.call (.removeLayout dropped)) fun reply store => reply = .ok () ∧
          store.contents? name = some
            { contents with layouts := contents.layouts.erase dropped } :=
      .call fun store held =>
        ⟨rfl, (store.contents?_removeLayout dropped name).trans (by rw [held]; rfl)⟩
    refine .bind erased fun reply => ?_
    split
    · exact .pure fun _ stored => by cases stored.1
    · exact .weaken ih (fun _ stored => stored.2) fun _ _ held => held

private theorem recordTiers_stores (table : TableConfig) (options : RebalanceOptions)
    (segments : OrderedMap String Segment) (target : Target) :
    Ensures Store.respond (fun store => store.contents? table.name = some contents)
      (recordTiers table options segments target)
      fun _ store => store.contents? table.name = some contents := by
  unfold recordTiers
  split
  · have recorded : Ensures Store.respond (fun store => store.contents? table.name = some contents)
        (Program.call (.setTargetTiers table.name
          (segments.map fun name _ => target.segmentTiers.get? name)))
        fun _ store => store.contents? table.name = some contents :=
      .call fun store held => (store.contents?_setTargetTiers ..).trans held
    exact .bind recorded fun _ => .pure fun _ held => held
  · exact .pure fun _ held => held

/-- What is left in the store once a plan and its target have been carried out. -/
theorem carryOut_stores (setup : RebalanceSetup) (table : TableConfig) (options : RebalanceOptions)
    (job : String) (facts : TableFacts) (plan : LayoutPlan) (target : Target) (minAvailable : Nat)
    (current : facts.ideal.assignment = contents.assignment)
    (names : target.assignment.keys = contents.assignment.keys) :
    Ensures Store.respond (fun store => store.contents? table.name = some contents)
      (carryOut setup table options job facts plan target minAvailable)
      fun ended store => ended.1 = .done → store.contents? table.name = some
        { contents with
          layouts := plan.applied contents.layouts, assignment := target.assignment } := by
  unfold carryOut
  refine .bind (storeLayouts_stores plan.toStore) fun stored => ?_
  split
  · exact .pure fun _ _ done => by cases done
  · refine .bind (dropLayouts_stores plan.toDrop) fun dropped => ?_
    split
    · exact .pure fun _ _ done => by cases done
    · refine .bind (recordTiers_stores table options facts.segments target) fun _ => ?_
      split
      · rename_i unchanged
        exact .pure fun store held _ => held.trans (by rw [unchanged, current]; rfl)
      · let apply := applyJob setup table options job target.assignment minAvailable
        let planned : Contents := { contents with layouts := plan.applied contents.layouts }
        refine .bind (apply.run_stores planned names facts.ideal.assignment) fun outcome => ?_
        split
        · rename_i steps
          exact .pure fun store held _ => held steps rfl
        · exact .pure fun _ _ done => by cases done
        · exact .pure fun _ _ done => by cases done

end Rebalance

end SegmentPlacement

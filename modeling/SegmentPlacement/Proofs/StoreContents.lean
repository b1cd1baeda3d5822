import SegmentPlacement.Cluster.Store
import SegmentPlacement.Proofs.OrderedMap
import SegmentPlacement.Proofs.ProgramLogic

/-! What a rebalance gets to see of a store, and what its requests do to that. A
program that only reads leaves the store as it was, so its runs are evaluated. -/

namespace SegmentPlacement

/-- What is known of a segment apart from the tier that was recorded for it. -/
def Segment.untiered (segment : Segment) : Segment := { segment with targetTier := none }

/-- What a store holds that placement depends on. -/
structure Contents where
  servers : List Server
  layouts : OrderedMap String Layout
  segments : List Segment
  assignment : Assignment

namespace Store

def contents? (store : Store) (table : String) : Option Contents :=
  (store.table? table).map fun state =>
    { servers := store.snapshot.servers
      layouts := store.snapshot.layouts
      segments := state.segments.values.map Segment.untiered
      assignment := state.ideal.assignment }

theorem respond_of_reads {request : Request} (reads : request.writes = false) (store : Store) :
    (respond request store).2 = store := by
  cases request <;> first | rfl | cases reads

theorem contents?_putLayout (store : Store) (layout : Layout) (table : String) :
    (store.putLayout layout).contents? table = (store.contents? table).map fun contents =>
      { contents with layouts := contents.layouts.insert layout.name layout } := by
  simp only [contents?, Option.map_map]
  rfl

theorem contents?_removeLayout (store : Store) (name table : String) :
    (store.removeLayout name).contents? table = (store.contents? table).map fun contents =>
      { contents with layouts := contents.layouts.erase name } := by
  simp only [contents?, Option.map_map]
  rfl

private theorem contents?_setTable (store : Store) (name : String) (state : TableState) :
    (store.setTable name state).contents? name = some
      { servers := store.snapshot.servers
        layouts := store.snapshot.layouts
        segments := state.segments.values.map Segment.untiered
        assignment := state.ideal.assignment } := by
  have stored : (store.setTable name state).table? name = some state :=
    OrderedMap.get?_insert_self ..
  rw [contents?, stored]
  rfl

theorem contents?_setTargetTiers (store : Store) (table : String)
    (tiers : OrderedMap String (Option String)) :
    (store.setTargetTiers table tiers).2.contents? table = store.contents? table := by
  unfold setTargetTiers
  split
  · rfl
  · rename_i state found
    rw [contents?_setTable, contents?, found]
    simp only [OrderedMap.values, OrderedMap.map, List.map_map]
    refine congrArg (fun segments => some (Contents.mk _ _ segments _)) ?_
    refine List.map_congr_left fun entry _ => ?_
    simp only [Function.comp_apply]
    split <;> rfl

/-- A write takes place exactly if it is acknowledged, and replaces nothing but the assignment. -/
theorem compareAndSet_cases (store : Store) (table : String) (version : Nat)
    (assignment : Assignment) :
    ((store.compareAndSet table version assignment).1 ≠ .ok true ∧
      (store.compareAndSet table version assignment).2.contents? table = store.contents? table) ∨
    ((store.compareAndSet table version assignment).1 = .ok true ∧
      (store.compareAndSet table version assignment).2.contents? table =
        (store.contents? table).map fun contents => { contents with assignment }) := by
  unfold compareAndSet
  split
  · exact Or.inl ⟨nofun, rfl⟩
  · rename_i state found
    simp only
    split
    · refine Or.inl ⟨nofun, (contents?_setTable ..).trans ?_⟩
      rw [contents?, found]
      rfl
    · split
      · exact Or.inl ⟨nofun, rfl⟩
      · refine Or.inr ⟨rfl, (contents?_setTable ..).trans ?_⟩
        rw [contents?, found]
        rfl

end Store

namespace Program

/-- With the store as its other side the program answers `value`, and only reads. -/
structure Reads (program : Program α) (store : Store) (value : α) : Prop where
  value : (program.run Store.respond store).value = value
  state : (program.run Store.respond store).state = store
  quiet : ∀ exchange ∈ (program.run Store.respond store).exchanges, exchange.request.writes = false

namespace Reads

variable {store : Store}

theorem pure (value : α) : (Pure.pure value : Program α).Reads store value :=
  ⟨rfl, rfl, fun _ member => absurd member List.not_mem_nil⟩

theorem call {request : Request} (reads : request.writes = false) :
    (Program.call request).Reads store (Store.respond request store).1 := by
  refine ⟨rfl, Store.respond_of_reads reads store, fun exchange member => ?_⟩
  obtain rfl := List.mem_singleton.mp member
  exact reads

theorem run_bind {program : Program α} {value : α} (reads : program.Reads store value)
    (next : α → Program β) :
    (program >>= next).run Store.respond store =
      { (next value).run Store.respond store with
        exchanges := (program.run Store.respond store).exchanges ++
          ((next value).run Store.respond store).exchanges } := by
  rw [Program.run_bind]
  simp only [reads.value, reads.state]

theorem bind {program : Program α} {value : α} {next : α → Program β} {result : β}
    (first : program.Reads store value) (rest : (next value).Reads store result) :
    (program >>= next).Reads store result := by
  refine ⟨?_, ?_, ?_⟩ <;> rw [first.run_bind]
  · exact rest.value
  · exact rest.state
  · intro exchange member
    rcases List.mem_append.mp member with before | after
    · exact first.quiet exchange before
    · exact rest.quiet exchange after

end Reads

/-- With the store as its other side the program only reads until it goes on as `rest`. -/
def Reaches (program : Program α) (store : Store) (rest : Program α) : Prop :=
  ∃ exchanges : List Exchange, (∀ exchange ∈ exchanges, exchange.request.writes = false) ∧
    program.run Store.respond store = { rest.run Store.respond store with
      exchanges := exchanges ++ (rest.run Store.respond store).exchanges }

namespace Reaches

variable {store : Store}

theorem refl (program : Program α) : program.Reaches store program :=
  ⟨[], fun _ member => absurd member List.not_mem_nil, rfl⟩

theorem bind {program : Program α} {value : α} {next : α → Program β} {rest : Program β}
    (first : program.Reads store value) (reaches : (next value).Reaches store rest) :
    (program >>= next).Reaches store rest := by
  obtain ⟨exchanges, quiet, same⟩ := reaches
  refine ⟨(program.run Store.respond store).exchanges ++ exchanges, ?_, ?_⟩
  · intro exchange member
    rcases List.mem_append.mp member with before | after
    · exact first.quiet exchange before
    · exact quiet exchange after
  · rw [first.run_bind, same, List.append_assoc]

theorem reads {program : Program α} {value : α} {rest : Program α}
    (reaches : program.Reaches store rest) (last : rest.Reads store value) :
    program.Reads store value := by
  obtain ⟨exchanges, quiet, same⟩ := reaches
  refine ⟨same ▸ last.value, same ▸ last.state, fun exchange member => ?_⟩
  rw [same] at member
  rcases List.mem_append.mp member with before | after
  · exact quiet exchange before
  · exact last.quiet exchange after

end Reaches

end Program

end SegmentPlacement

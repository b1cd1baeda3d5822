import SegmentPlacement.Proofs.StoreOperations

/-! What the version of an ideal state tells a writer who read it earlier in a run
of operations. Every write takes the next version. Only the registration of a
table that is already there starts again at the first one. -/

namespace SegmentPlacement

/-- What is stored now, as a writer who read an earlier ideal state has to find it. -/
structure Follows (read current : IdealState) : Prop where
  grows : read.version ≤ current.version
  distinct : current.version = read.version → current.assignment = read.assignment

namespace Follows

theorem refl (ideal : IdealState) : Follows ideal ideal := ⟨Nat.le_refl _, fun _ => rfl⟩

theorem trans {first second third : IdealState} (before : Follows first second)
    (after : Follows second third) : Follows first third where
  grows := Nat.le_trans before.grows after.grows
  distinct same := by
    -- The version in the middle is between two equal ones.
    have upper := after.grows
    have lower := before.grows
    exact (after.distinct (by omega)).trans (before.distinct (by omega))

theorem of_written {read current : IdealState} (written : current.version = read.version + 1) :
    Follows read current where
  grows := written ▸ Nat.le_succ _
  distinct same := absurd (written.symm.trans same) (Nat.succ_ne_self _)

end Follows

namespace Store

/-- The stored ideal state of a table. -/
def ideal? (store : Store) (name : String) : Option IdealState :=
  (store.table? name).map TableState.ideal

/-- The store after operations, each of which may fail. -/
def runAll (store : Store) (operations : List Operation) : Store :=
  operations.foldl (fun store operation => (store.perform operation).2) store

private theorem runAll_append (store : Store) (first second : List Operation) :
    store.runAll (first ++ second) = (store.runAll first).runAll second := List.foldl_append

/-- A table is registered in place of one of its name that has been written. -/
structure Overwrites (store : Store) (name : String) (operation : Operation) : Prop where
  registers : ∃ table, operation = .addTable table ∧ table.name = name
  accepted : (store.perform operation).1 = .ok true
  written : ∃ ideal, store.ideal? name = some ideal ∧
    ¬ (ideal.version = 0 ∧ ideal.assignment = {})

variable {store : Store} {name : String} {read : IdealState}

theorem ideal?_setTable (store : Store) (other : String) (state : TableState) (name : String) :
    (store.setTable other state).ideal? name =
      if name = other then some state.ideal else store.ideal? name := by
  have table : (store.setTable other state).table? name =
      if name = other then some state else store.table? name := OrderedMap.get?_insert ..
  rw [ideal?, table]
  split <;> rfl

/-- What is stored after `after` follows what was stored before. -/
def Keeps (name : String) (store after : Store) : Prop :=
  ∀ read, store.ideal? name = some read →
    ∃ current, after.ideal? name = some current ∧ Follows read current

namespace Keeps

theorem of_same {after : Store} (same : after.ideal? name = store.ideal? name) :
    Keeps name store after := fun read found => ⟨read, same.trans found, .refl read⟩

theorem trans {first second third : Store} (before : Keeps name first second)
    (after : Keeps name second third) : Keeps name first third := by
  intro read found
  obtain ⟨middle, there, one⟩ := before read found
  obtain ⟨current, now, other⟩ := after middle there
  exact ⟨current, now, one.trans other⟩

theorem setTable {other : String} {state changed : TableState}
    (present : store.table? other = some state) (follows : Follows state.ideal changed.ideal) :
    Keeps name store (store.setTable other changed) := by
  intro read found
  rw [ideal?_setTable]
  split
  · rename_i same
    subst same
    rw [ideal?, present] at found
    cases found
    exact ⟨changed.ideal, rfl, follows⟩
  · exact ⟨read, found, .refl read⟩

theorem changeTable {other : String} {change : TableState → TableState}
    (same : ∀ state, (change state).ideal = state.ideal) :
    Keeps name store (store.changeTable other change) := by
  unfold Store.changeTable
  split
  · rename_i state present
    exact setTable present (same state ▸ .refl _)
  · exact .of_same rfl

theorem addSegment (other : String) (segment : Segment) :
    Keeps name store (store.addSegment other segment).2 := by
  unfold Store.addSegment
  split
  · exact .of_same rfl
  · rename_i state present
    split
    · exact .of_same rfl
    · exact setTable present (.of_written rfl)

theorem compareAndSet (other : String) (version : Nat) (assignment : Assignment) :
    Keeps name store (store.compareAndSet other version assignment).2 := by
  unfold Store.compareAndSet
  split
  · exact .of_same rfl
  · rename_i state present
    simp only
    split
    · exact setTable present (.of_written rfl)
    · split
      · exact .of_same rfl
      · exact setTable present (.of_written rfl)

theorem setTargetTiers (other : String) (tiers : OrderedMap String (Option String)) :
    Keeps name store (store.setTargetTiers other tiers).2 := by
  unfold Store.setTargetTiers
  split
  · exact .of_same rfl
  · rename_i state present
    exact setTable present (.refl _)

theorem updateTable (table : TableConfig) : Keeps name store (store.updateTable table).2 := by
  unfold Store.updateTable
  split
  · exact .of_same rfl
  · rename_i state present
    exact setTable present (.refl _)

end Keeps

private theorem table?_storeLayouts (table : TableConfig) (kinds : List LayoutKind) (store : Store)
    (name : String) : (storeLayouts table kinds store).2.table? name = store.table? name := by
  induction kinds generalizing store with
  | nil => rfl
  | cons kind rest ih =>
    rw [storeLayouts]
    split
    · split
      · exact ih _
      · rfl
    · exact ih store

private theorem ideal?_addTable (store : Store) (table : TableConfig) (name : String) :
    (store.addTable table).2.ideal? name =
      if name = table.name ∧ (store.addTable table).1 = .ok () then some { table := table.name }
      else store.ideal? name := by
  unfold addTable
  split
  · rw [if_neg (fun registered => by cases registered.2)]
  · have stored := table?_storeLayouts table table.layoutKinds store name
    split
    · rename_i refused
      rw [refused] at stored
      rw [if_neg (fun registered => by cases registered.2), ideal?, stored]
      rfl
    · rename_i done
      rw [done] at stored
      rw [ideal?_setTable, ideal?, stored]
      simp only [and_true]
      rfl

theorem Keeps.addTable {table : TableConfig} (apart : ¬ store.Overwrites name (.addTable table)) :
    Keeps name store (store.addTable table).2 := by
  intro read found
  rw [ideal?_addTable]
  split
  · rename_i registered
    have unwritten : read.version = 0 ∧ read.assignment = {} := by
      by_contra written
      exact apart ⟨⟨table, rfl, registered.1.symm⟩, acknowledged_eq_ok_iff.mpr registered.2,
        read, found, written⟩
    exact ⟨_, rfl, Nat.le_of_eq unwritten.1, fun _ => unwritten.2.symm⟩
  · exact ⟨read, found, .refl read⟩

theorem Overwrites.ideal? {operation : Operation} (overwrites : store.Overwrites name operation) :
    (store.perform operation).2.ideal? name = some { table := name } := by
  obtain ⟨table, rfl, rfl⟩ := overwrites.registers
  rw [perform, acknowledged_snd, ideal?_addTable,
    if_pos ⟨rfl, acknowledged_eq_ok_iff.mp overwrites.accepted⟩]

/-- Every operation keeps what a writer has read, but for a registration over written state. -/
theorem keeps_perform {operation : Operation} (apart : ¬ store.Overwrites name operation) :
    Keeps name store (store.perform operation).2 := by
  cases operation with
  | addTable table => exact (acknowledged_snd _).symm ▸ .addTable apart
  | updateTable table => exact (acknowledged_snd _).symm ▸ .updateTable table
  | addSegment other segment => exact (acknowledged_snd _).symm ▸ .addSegment other segment
  | compareAndSet other version assignment => exact .compareAndSet other version assignment
  | setView other view => exact .changeTable fun _ => rfl
  | setTargetTiers other tiers => exact .setTargetTiers other tiers
  | setStreamOffset other partition offset => exact .changeTable fun _ => rfl
  | _ => exact .of_same rfl

private theorem keeps_runAll {operations : List Operation}
    (apart : ∀ before operation after, operations = before ++ operation :: after →
      ¬ (store.runAll before).Overwrites name operation) :
    Keeps name store (store.runAll operations) := by
  induction operations generalizing store with
  | nil => exact .of_same rfl
  | cons operation rest ih =>
    refine (keeps_perform (apart [] operation rest rfl)).trans (ih ?_)
    rintro before later after rfl
    exact apart (operation :: before) later after rfl

private theorem version_of_accepted {version : Nat} {assignment : Assignment} {current : IdealState}
    (found : store.ideal? name = some current)
    (accepted : (store.perform (.compareAndSet name version assignment)).1 = .ok true) :
    current.version = version := by
  obtain ⟨state, present, rfl⟩ := Option.map_eq_some_iff.mp found
  simp only [perform, compareAndSet, present] at accepted
  split at accepted
  · cases accepted
  · split at accepted
    · cases accepted
    · rename_i same
      exact not_not.mp same

/-- Whatever the run of operations, an ideal state of the table that is read at one time of it is
followed by all later ones, and a compare-and-set with its version is accepted only as long as its
assignment is stored. -/
def VersionsTell (store : Store) (name : String) (operations : List Operation) : Prop :=
  ∀ first second rest, operations = first ++ second ++ rest → ∀ read current,
    (store.runAll first).ideal? name = some read →
    (store.runAll (first ++ second)).ideal? name = some current →
    Follows read current ∧ ∀ assignment,
      ((store.runAll (first ++ second)).perform
        (.compareAndSet name read.version assignment)).1 = .ok true →
      current.assignment = read.assignment

/-- Versions tell the writes of a table apart over a run, exactly if the run registers no table in
place of one that has been written. -/
theorem versionsTell_iff (store : Store) (name : String) (operations : List Operation) :
    store.VersionsTell name operations ↔
      ∀ before operation after, operations = before ++ operation :: after →
        ¬ (store.runAll before).Overwrites name operation := by
  constructor
  · rintro tell before operation after rfl overwrites
    obtain ⟨read, found, written⟩ := overwrites.written
    have now : (store.runAll (before ++ [operation])).ideal? name = some { table := name } := by
      rw [runAll_append]
      exact overwrites.ideal?
    obtain ⟨follows, _⟩ := tell before [operation] after (by simp) read _ found now
    have first : read.version = 0 := Nat.le_zero.mp follows.grows
    exact written ⟨first, (follows.distinct first.symm).symm⟩
  · rintro apart first second rest rfl read current found now
    have follows : Follows read current := by
      have kept : Keeps name (store.runAll first) ((store.runAll first).runAll second) := by
        refine keeps_runAll ?_
        rintro before operation after rfl
        have here := apart (first ++ before) operation (after ++ rest) (by simp)
        rwa [runAll_append] at here
      obtain ⟨later, stored, follows⟩ := kept read found
      rw [← runAll_append, now] at stored
      cases stored
      exact follows
    exact ⟨follows, fun assignment accepted =>
      follows.distinct (version_of_accepted now accepted)⟩

def plainTable : TableConfig := .offline "t" 1 "T"

/-- The table is registered again between two uploads, so each of them takes version 1. -/
def registeredTwice : List Operation :=
  [.addTable plainTable, .addSegment "t_OFFLINE" { name := "s" },
    .addTable plainTable, .addSegment "t_OFFLINE" { name := "u" }]

/-- Up to the second registration versions do tell. -/
theorem registeredOnce_tells : oneServer.VersionsTell "t_OFFLINE" (registeredTwice.take 2) := by
  refine (versionsTell_iff ..).mpr fun before operation after split overwrites => ?_
  obtain ⟨table, rfl, _⟩ := overwrites.registers
  obtain ⟨ideal, found, _⟩ := overwrites.written
  cases before with
  | nil =>
    have missing : (oneServer.runAll []).ideal? "t_OFFLINE" = none := rfl
    rw [missing] at found
    cases found
  | cons first rest =>
    have later : .addTable table ∈ (registeredTwice.take 2).tail := by
      rw [split]
      simp
    cases List.mem_singleton.mp later

/-- What was read before the second registration still has the version that is expected after it, and
a write over the second upload is accepted. -/
theorem not_all_versions_tell :
    ¬ ∀ (store : Store) (name : String) (operations : List Operation),
      store.VersionsTell name operations := by
  intro tell
  let placed (segment : String) : IdealState :=
    { table := "t_OFFLINE", version := 1, assignment := .ofList [(segment, .uniform ["a"] .online)] }
  obtain ⟨_, guarded⟩ := tell oneServer "t_OFFLINE" registeredTwice
    (registeredTwice.take 2) (registeredTwice.drop 2) [] rfl (placed "s") (placed "u")
    (by decide +kernel) (by decide +kernel)
  exact absurd (guarded {} (by decide +kernel)) (by decide +kernel)

end Store

end SegmentPlacement

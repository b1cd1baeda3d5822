import SegmentPlacement.Cluster.Store
import SegmentPlacement.Proofs.Chains
import SegmentPlacement.Proofs.OrderedMap

/-! What the operations of a store leave behind when they fail. An operation
checks and computes before it changes anything, with one exception: a realtime
table stores its layouts one at a time. -/

namespace SegmentPlacement

namespace Store

/-- The changes that a store accepts, from its owner, its servers and a rebalance. -/
inductive Operation where
  | addTable (table : TableConfig)
  | updateTable (table : TableConfig)
  | addServer (server : Server)
  | setEnabled (id : String) (enabled : Bool)
  | addSegment (table : String) (segment : Segment)
  | compareAndSet (table : String) (version : Nat) (assignment : Assignment)
  | setView (table : String) (view : Assignment)
  | setTargetTiers (table : String) (tiers : OrderedMap String (Option String))
  | putLayout (layout : Layout)
  | removeLayout (name : String)
  | setStreamOffset (table : String) (partition : Nat) (offset : Int)
  | setDiskUsage (server : String) (usage : DiskUsage)
  | setNeedsReload (server : String)
  /-- Lets the next writes lose to another writer. -/
  | injectConflicts (count : Nat)

def acknowledged : Except Error Unit × Store → Reply Bool × Store
  | (.ok (), after) => (.ok true, after)
  | (.error error, after) => (.error error.message, after)

/-- An operation carried out. Only a compare-and-set that finds another version, or loses, is
answered with `false`. -/
def perform : Operation → Store → Reply Bool × Store
  | .addTable table, store => acknowledged (store.addTable table)
  | .updateTable table, store => acknowledged (store.updateTable table)
  | .addServer server, store => (.ok true, store.addServer server)
  | .setEnabled id enabled, store => (.ok true, store.setEnabled id enabled)
  | .addSegment table segment, store => acknowledged (store.addSegment table segment)
  | .compareAndSet table version assignment, store => store.compareAndSet table version assignment
  | .setView table view, store => (.ok true, store.setView table view)
  | .setTargetTiers table tiers, store =>
    let (reply, after) := store.setTargetTiers table tiers
    (reply.map fun _ => true, after)
  | .putLayout layout, store => (.ok true, store.putLayout layout)
  | .removeLayout name, store => (.ok true, store.removeLayout name)
  | .setStreamOffset table partition offset, store =>
    (.ok true, store.setStreamOffset table partition offset)
  | .setDiskUsage server usage, store => (.ok true, store.setDiskUsage server usage)
  | .setNeedsReload server, store => (.ok true, store.setNeedsReload server)
  | .injectConflicts count, store => (.ok true, { store with pendingConflicts := count })

/-- A table is refused for its second layout once the first has been computed, and stored. -/
structure HalfRegisters (store : Store) (table : TableConfig) (layout : Layout) : Prop where
  valid : table.validate = .ok ()
  realtime : table.kind = .realtime
  separate : table.layouts.contains .consuming = true ∧ table.layouts.contains .completed = true
  first : table.computeLayout .consuming store.snapshot.servers none none = .ok layout
  second : ∃ error, table.computeLayout .completed store.snapshot.servers none none = .error error

variable {store : Store} {table : TableConfig}

private theorem storeLayouts_of_error {kinds : List LayoutKind} {error : Error} {stored : Store}
    (failed : storeLayouts table kinds store = (.error error, stored)) :
    ∃ before kind after layouts, kinds = before ++ kind :: after ∧
      (before.filter table.layouts.contains).mapM (fun kind =>
        table.computeLayout kind store.snapshot.servers none none) = .ok layouts ∧
      table.layouts.contains kind = true ∧
      table.computeLayout kind store.snapshot.servers none none = .error error ∧
      stored = layouts.foldl putLayout store := by
  induction kinds generalizing store with
  | nil => cases failed
  | cons kind rest ih =>
    rw [storeLayouts, ← OrderedMap.contains] at failed
    cases settings : table.layouts.contains kind with
    | false =>
      rw [settings] at failed
      obtain ⟨before, other, after, layouts, rfl, computed, others⟩ := ih failed
      refine ⟨kind :: before, other, after, layouts, rfl, ?_, others⟩
      rwa [List.filter_cons_of_neg (by simp [settings])]
    | true =>
      rw [settings, if_pos rfl] at failed
      cases here : table.computeLayout kind store.snapshot.servers none none with
      | ok layout =>
        rw [here] at failed
        -- Storing a layout leaves the servers that the other layouts are computed from.
        obtain ⟨before, other, after, layouts, rfl, computed, others⟩ := ih failed
        refine ⟨kind :: before, other, after, layout :: layouts, rfl, ?_, others⟩
        rw [List.filter_cons_of_pos settings, List.mapM_cons, here]
        exact bind_eq_ok_iff.mpr ⟨layout, rfl, bind_eq_ok_iff.mpr ⟨layouts, computed, rfl⟩⟩
      | error cause =>
        rw [here] at failed
        cases failed
        exact ⟨[], kind, rest, [], rfl, rfl, settings, here, rfl⟩

private theorem layoutKinds_cases (table : TableConfig) :
    (∃ kind, table.layoutKinds = [kind]) ∨
      (table.kind = .realtime ∧ table.layoutKinds = [.consuming, .completed]) := by
  unfold TableConfig.layoutKinds
  split
  · exact Or.inl ⟨_, rfl⟩
  · rename_i realtime
    split
    · exact Or.inr ⟨realtime, rfl⟩
    · exact Or.inl ⟨_, rfl⟩

private theorem storeLayouts_layoutKinds_of_error {error : Error} {stored : Store}
    (valid : table.validate = .ok ())
    (failed : storeLayouts table table.layoutKinds store = (.error error, stored)) :
    stored = store ∨ ∃ layout, HalfRegisters store table layout ∧ stored = store.putLayout layout := by
  obtain ⟨before, kind, after, layouts, kinds, computed, settings, second, rfl⟩ :=
    storeLayouts_of_error failed
  cases before with
  | nil =>
    cases computed
    exact Or.inl rfl
  | cons first others =>
    rcases layoutKinds_cases table with ⟨only, single⟩ | ⟨realtime, double⟩
    · rw [single] at kinds
      exact absurd (congrArg List.length kinds) (by simp)
    · rw [double] at kinds
      obtain ⟨rfl, rest⟩ := List.cons.inj kinds
      obtain ⟨rfl, last⟩ | ⟨_, none⟩ := List.singleton_eq_append_iff.mp rest
      · obtain ⟨rfl, _⟩ := List.cons.inj last
        cases consuming : table.layouts.contains .consuming with
        | false =>
          rw [List.filter_cons_of_neg (by simp [consuming])] at computed
          cases computed
          exact Or.inl rfl
        | true =>
          rw [List.filter_cons_of_pos consuming, List.mapM_cons] at computed
          obtain ⟨layout, here, later⟩ := bind_eq_ok_iff.mp computed
          cases later
          exact Or.inr ⟨layout, ⟨valid, realtime, ⟨consuming, settings⟩, here, error, second⟩, rfl⟩
      · cases none

theorem addTable_of_error {error : Error} (failed : (store.addTable table).1 = .error error) :
    (store.addTable table).2 = store ∨
      ∃ layout, HalfRegisters store table layout ∧
        (store.addTable table).2 = store.putLayout layout := by
  unfold addTable at failed ⊢
  split at failed
  · exact Or.inl rfl
  · rename_i valid
    split at failed
    · rename_i refused
      exact storeLayouts_layoutKinds_of_error valid refused
    · cases failed

theorem HalfRegisters.addTable {layout : Layout} (half : HalfRegisters store table layout) :
    (store.addTable table).2 = store.putLayout layout := by
  obtain ⟨cause, second⟩ := half.second
  have kinds : table.layoutKinds = [.consuming, .completed] := by
    simp only [TableConfig.layoutKinds, half.realtime, half.separate.2, if_true]
  have servers : (store.putLayout layout).snapshot.servers = store.snapshot.servers := rfl
  have stored : storeLayouts table [.consuming, .completed] store =
      (.error cause, store.putLayout layout) := by
    have consuming : (table.layouts.get? .consuming).isSome = true := half.separate.1
    have completed : (table.layouts.get? .completed).isSome = true := half.separate.2
    simp only [storeLayouts, consuming, completed, if_true, half.first, servers, second]
  simp only [Store.addTable, half.valid, kinds, stored]

private theorem updateTable_of_error {error : Error}
    (failed : (store.updateTable table).1 = .error error) : (store.updateTable table).2 = store := by
  unfold updateTable at failed ⊢
  split at failed
  · rfl
  · cases failed

private theorem addSegment_of_error {name : String} {segment : Segment} {error : Error}
    (failed : (store.addSegment name segment).1 = .error error) :
    (store.addSegment name segment).2 = store := by
  unfold addSegment at failed ⊢
  split at failed
  · rfl
  · split at failed
    · rfl
    · cases failed

private theorem compareAndSet_of_error {name : String} {version : Nat} {assignment : Assignment}
    {text : String} (failed : (store.compareAndSet name version assignment).1 = .error text) :
    (store.compareAndSet name version assignment).2 = store := by
  unfold compareAndSet at failed ⊢
  split at failed
  · rfl
  · -- A table that is there is answered, whether or not the write takes place.
    simp only at failed
    split at failed
    · cases failed
    · split at failed <;> cases failed

theorem setTargetTiers_of_error {name text : String} {tiers : OrderedMap String (Option String)}
    (failed : (store.setTargetTiers name tiers).1 = .error text) :
    (store.setTargetTiers name tiers).2 = store := by
  unfold setTargetTiers at failed ⊢
  split at failed
  · rfl
  · cases failed

@[simp] theorem acknowledged_snd (result : Except Error Unit × Store) :
    (acknowledged result).2 = result.2 := by
  obtain ⟨reply, after⟩ := result
  cases reply <;> rfl

theorem acknowledged_eq_ok_iff {result : Except Error Unit × Store} :
    (acknowledged result).1 = .ok true ↔ result.1 = .ok () := by
  obtain ⟨reply, after⟩ := result
  cases reply with
  | ok => exact ⟨fun _ => rfl, fun _ => rfl⟩
  | error error => exact ⟨nofun, nofun⟩

private theorem exists_of_acknowledged {result : Except Error Unit × Store} {text : String}
    (failed : (acknowledged result).1 = .error text) : ∃ error, result.1 = .error error := by
  obtain ⟨reply, after⟩ := result
  cases reply with
  | ok => cases failed
  | error error => exact ⟨error, rfl⟩

/-- Every operation that fails leaves the store as it was, but for a half registered table. -/
theorem perform_of_error {operation : Operation} {text : String}
    (failed : (store.perform operation).1 = .error text) :
    (store.perform operation).2 = store ∨
      ∃ table layout, operation = .addTable table ∧ HalfRegisters store table layout ∧
        (store.perform operation).2 = store.putLayout layout := by
  cases operation with
  | addTable table =>
    obtain ⟨error, refused⟩ := exists_of_acknowledged failed
    rw [perform, acknowledged_snd]
    refine (addTable_of_error refused).imp_right ?_
    intro ⟨layout, half, left⟩
    exact ⟨table, layout, rfl, half, left⟩
  | updateTable table =>
    obtain ⟨error, refused⟩ := exists_of_acknowledged failed
    exact Or.inl ((acknowledged_snd _).trans (updateTable_of_error refused))
  | addSegment name segment =>
    obtain ⟨error, refused⟩ := exists_of_acknowledged failed
    exact Or.inl ((acknowledged_snd _).trans (addSegment_of_error refused))
  | compareAndSet name version assignment => exact Or.inl (compareAndSet_of_error failed)
  | setTargetTiers name tiers =>
    cases reply : (store.setTargetTiers name tiers).1 with
    | ok => simp [perform, reply, Except.map] at failed
    | error text => exact Or.inl (setTargetTiers_of_error reply)
  | _ => cases failed

/-- A failed operation leaves everything as it was, exactly unless it registers a realtime table
whose layout for consuming segments can be computed, its layout for completed segments cannot,
and the former is not what the store already holds under its name. -/
theorem failed_perform_keeps_iff {operation : Operation} {text : String}
    (failed : (store.perform operation).1 = .error text) :
    (store.perform operation).2.snapshot = store.snapshot ↔
      ∀ table layout, operation = .addTable table → HalfRegisters store table layout →
        store.snapshot.layouts.get? layout.name = some layout := by
  constructor
  · rintro same table layout rfl half
    rw [perform, acknowledged_snd, half.addTable] at same
    have layouts : store.snapshot.layouts.insert layout.name layout = store.snapshot.layouts :=
      congrArg Snapshot.layouts same
    rw [← layouts, OrderedMap.get?_insert_self]
  · intro known
    rcases perform_of_error failed with same | ⟨table, layout, rfl, half, left⟩
    · rw [same]
    · have stored := known table layout rfl half
      rw [left, putLayout, update, OrderedMap.insert_of_get? stored]

/-- A realtime table whose completed segments belong to servers of another tag. -/
def splitEvents : TableConfig :=
  { TableConfig.realtime "events" 1 "T" 1 with
    layouts := .ofList [(.consuming, { tag := "T" }), (.completed, { tag := "X" })] }

def oneServer : Store := { snapshot := { servers := [{ id := "a", tags := ["T"] }] } }

/-- Once the layout that was left behind is stored, the same refusal changes nothing. -/
theorem splitEvents_refused_again :
    let store := (oneServer.perform (.addTable splitEvents)).2
    let again := store.perform (.addTable splitEvents)
    again.1 = .error "No enabled instances with tag: X" ∧ again.2.snapshot = store.snapshot := by
  intro store again
  have failed : again.1 = .error "No enabled instances with tag: X" := by decide +kernel
  refine ⟨failed, (failed_perform_keeps_iff failed).mpr ?_⟩
  intro table layout same half
  cases same
  have stored : (splitEvents.computeLayout .consuming store.snapshot.servers none none).toOption.all
      (fun layout => decide (store.snapshot.layouts.get? layout.name = some layout)) = true := by
    decide +kernel
  rw [half.first] at stored
  exact of_decide_eq_true stored

/-- The layout of the consuming segments is stored before that of the completed ones is refused, and
it is not taken back. -/
theorem not_all_failures_keep :
    ¬ ∀ (operation : Operation) (store : Store) (text : String),
      (store.perform operation).1 = .error text →
        (store.perform operation).2.snapshot = store.snapshot := by
  intro kept
  have same := kept (.addTable splitEvents) oneServer "No enabled instances with tag: X"
    (by decide +kernel)
  exact absurd same (by decide +kernel)

end Store

end SegmentPlacement

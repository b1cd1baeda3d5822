import SegmentPlacement.Error
import SegmentPlacement.OrderedMap

/-! Layouts of a table's servers: for every partition and replica group the
ordered list of servers that share the work of that slot. Slots are stored under
the text `partition_group`, and a layout that was read from outside may hold
anything under any key until it has been checked. -/

namespace SegmentPlacement

structure Layout where
  name : String
  numPartitions : Nat
  numGroups : Nat
  slots : OrderedMap String (List String)
  deriving DecidableEq

/-- Whether `holds` is true of every number below `count`, tried from 0 up. -/
def everyBelow (count : Nat) (holds : Nat → Bool) : Bool := go count 0
where
  go : Nat → Nat → Bool
    | 0, _ => true
    | left + 1, next => holds next && go left (next + 1)

theorem everyBelow_iff (count : Nat) (holds : Nat → Bool) :
    everyBelow count holds = true ↔ ∀ number < count, holds number = true := by
  have step : ∀ left next, everyBelow.go holds left next = true ↔
      ∀ number, next ≤ number → number < next + left → holds number = true := by
    intro left
    induction left with
    | zero =>
      intro next
      simp only [everyBelow.go, true_iff]
      omega
    | succ left ih =>
      intro next
      simp only [everyBelow.go, Bool.and_eq_true, ih]
      constructor
      · rintro ⟨here, later⟩ number least most
        by_cases same : number = next
        · exact same ▸ here
        · exact later number (by omega) (by omega)
      · exact fun all => ⟨all next (by omega) (by omega),
          fun number least most => all number (by omega) (by omega)⟩
  simp only [everyBelow, step, Nat.zero_le, Nat.zero_add, forall_const]

namespace Layout

/-- The key of a slot. -/
def key (partition group : Nat) : String := toString partition ++ "_" ++ toString group

/-- A layout without any slot filled. -/
def create (name : String) (numPartitions numGroups : Nat) : Except Error Layout :=
  if numPartitions = 0 ∨ numGroups = 0 then
    .error (.invalidLayout (.noSlots numPartitions numGroups))
  else .ok { name, numPartitions, numGroups, slots := {} }

/-- One partition and one group: all servers stand in one list. -/
def isFlat (layout : Layout) : Bool := layout.numPartitions = 1 ∧ layout.numGroups = 1

/-- The servers of a slot. -/
def servers? (layout : Layout) (partition group : Nat) : Option (List String) :=
  layout.slots.get? (key partition group)

/-- Fills a slot of the layout with distinct servers, of which there must be one. -/
def setServers (layout : Layout) (partition group : Nat) (servers : List String) :
    Except Error Layout :=
  if layout.numPartitions ≤ partition ∨ layout.numGroups ≤ group then
    .error (.invalidLayout (.slotOutOfRange partition group layout.numPartitions layout.numGroups))
  else if servers.isEmpty then .error (.invalidLayout (.slotEmpty partition group))
  else if ¬ servers.Nodup then .error (.invalidLayout (.slotRepeats partition group))
  else .ok { layout with slots := layout.slots.insert (key partition group) servers }

/-- One slot that holds all servers. -/
def single (name : String) (servers : List String) : Except Error Layout := do
  let layout ← create name 1 1
  layout.setServers 0 0 servers

/-- Whether a slot is filled. -/
def isFilled (layout : Layout) (partition group : Nat) : Bool :=
  match layout.servers? partition group with
  | some servers => !servers.isEmpty
  | none => false

/-- Every slot is filled. -/
def isComplete (layout : Layout) : Bool :=
  everyBelow layout.numPartitions fun partition =>
    everyBelow layout.numGroups fun group => layout.isFilled partition group

/-- Checks a layout that was not filled slot by slot. Stored lists may not repeat a server,
whatever their key. -/
def validate (layout : Layout) : Except Error Unit :=
  if layout.numPartitions = 0 ∨ layout.numGroups = 0 then
    .error (.invalidLayout (.sizes layout.name layout.numPartitions layout.numGroups))
  else if ¬ layout.isComplete then .error (.invalidLayout (.incomplete layout.name))
  else match layout.slots.entries.find? fun slot => ¬ slot.2.Nodup with
    | some slot => .error (.invalidLayout (.keyRepeats slot.1 layout.name))
    | none => .ok ()

/-- All servers of the layout. -/
def allServers (layout : Layout) : NameSet := OrderedMap.ofKeys layout.slots.values.flatten

/-- The servers of one group over all partitions, in increasing order. -/
def groupMembers (layout : Layout) (group : Nat) : List String :=
  (OrderedMap.ofKeys ((List.range layout.numPartitions).flatMap fun partition =>
    (layout.servers? partition group).getD [])).keys

/-- How often each server occurs in a slot. -/
def slotCounts (layout : Layout) : OrderedMap String Nat :=
  layout.slots.values.flatten.foldl (fun counts server => counts.add server 1) {}

/-- The lists of all groups for one partition; they must be equally long. -/
def partitionLists (layout : Layout) (partition : Nat) : Except Error (List (List String)) := do
  let lists ← (List.range layout.numGroups).mapM fun group =>
    match layout.servers? partition group with
    | some servers => .ok servers
    | none => .error (.invalidLayout (.slotUnset layout.name partition group))
  let size := (lists.headD []).length
  if lists.all fun list => list.length = size then return lists
  else .error (.invalidLayout (.groupsDiffer layout.name partition))

end Layout

end SegmentPlacement

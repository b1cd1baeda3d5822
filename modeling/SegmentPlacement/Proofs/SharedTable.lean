import SegmentPlacement.Cluster.Store
import SegmentPlacement.Proofs.ProgramLogic

/-! A table that a program shares with other writers. Its ideal state is a
versioned register: every write raises the version, and a compare-and-set is
accepted exactly if the stored version is the expected one. Nobody registers the
table anew, which would begin the versions again. A schedule tells
what others write before each request is served, which requests fail, and how
everything else is answered, so the schedules are the interleavings. -/

namespace SegmentPlacement

def Request.replacesIdeal : Request → Bool
  | .compareAndSet .. => true
  | _ => false

theorem Request.replacesIdeal_of_reads {request : Request} (reads : request.writes = false) :
    request.replacesIdeal = false := by
  cases request <;> first | rfl | cases reads

/-- How a request for the ideal state is treated. -/
inductive Treatment where
  | served
  /-- A read finds no table and a write is refused. -/
  | missed
  /-- A failure is answered, although a write may have been carried out. -/
  | failed (text : String) (carriedOut : Bool)

/-- What happens at one request. -/
structure Turn where
  /-- What others write before the request is served, one after the other. -/
  others : List (Assignment → Assignment) := []
  treatment : Treatment := .served
  /-- The answers to requests that do not concern the ideal state. -/
  answer : (request : Request) → request.Answer

/-- A write that the program made. -/
structure Write where
  /-- The state that the program had read last. -/
  read : Option IdealState
  before : IdealState
  after : Assignment
  /-- The assignment that another writer had left last. -/
  foreign : Assignment
  deriving DecidableEq

structure SharedTable where
  ideal : IdealState
  schedule : Nat → Turn
  requests : Nat
  lastRead : Option IdealState
  foreign : Assignment
  writes : List Write

namespace SharedTable

/-- A table before the first request. What is stored then counts as written by another. -/
def start (ideal : IdealState) (schedule : Nat → Turn) : SharedTable :=
  { ideal, schedule, requests := 0, lastRead := none, foreign := ideal.assignment, writes := [] }

def overtake (shared : SharedTable) (change : Assignment → Assignment) : SharedTable :=
  let assignment := change shared.ideal.assignment
  { shared with
    ideal := { shared.ideal with version := shared.ideal.version + 1, assignment }
    foreign := assignment }

def turn (shared : SharedTable) : Turn := shared.schedule shared.requests

/-- The table as the next request finds it. -/
def arrive (shared : SharedTable) : SharedTable :=
  { shared.turn.others.foldl overtake shared with requests := shared.requests + 1 }

def compareAndSet (shared : SharedTable) (version : Nat) (assignment : Assignment) :
    Bool × SharedTable :=
  if shared.ideal.version = version then
    (true,
      { shared with
        ideal := { shared.ideal with version := shared.ideal.version + 1, assignment }
        writes := shared.writes ++ [⟨shared.lastRead, shared.ideal, assignment, shared.foreign⟩] })
  else (false, shared)

/-- The shared table as the other side of a program that works on it. -/
def respond : Responder SharedTable
  | .idealState _, shared =>
    match shared.turn.treatment with
    | .served =>
      (.ok (some shared.arrive.ideal), { shared.arrive with lastRead := some shared.arrive.ideal })
    | .missed => (.ok none, shared.arrive)
    | .failed text _ => (.error text, shared.arrive)
  | .compareAndSet table version assignment, shared =>
    let (accepted, after) := shared.arrive.compareAndSet version assignment
    match shared.turn.treatment with
    | .served => (.ok accepted, after)
    | .missed => (.error (Store.unknownTable table), shared.arrive)
    | .failed text carriedOut => (.error text, if carriedOut then after else shared.arrive)
  | request, shared => (shared.turn.answer request, shared.arrive)

theorem foldl_overtake_version (changes : List (Assignment → Assignment)) (shared : SharedTable) :
    (changes.foldl overtake shared).ideal.version = shared.ideal.version + changes.length := by
  induction changes generalizing shared with
  | nil => rfl
  | cons change rest ih =>
    rw [List.foldl_cons, ih, List.length_cons]
    simp only [overtake]
    omega

theorem arrive_of_version {shared : SharedTable}
    (same : shared.arrive.ideal.version = shared.ideal.version) :
    shared.arrive = { shared with requests := shared.requests + 1 } := by
  have versions := foldl_overtake_version shared.turn.others shared
  change (shared.turn.others.foldl overtake shared).ideal.version = _ at same
  have nobody : shared.turn.others = [] := List.length_eq_zero_iff.mp (by omega)
  simp only [arrive, nobody, List.foldl_nil]

private theorem foldl_overtake_cases (changes : List (Assignment → Assignment))
    (shared : SharedTable) :
    let overtaken := changes.foldl overtake shared
    overtaken.writes = shared.writes ∧ overtaken.lastRead = shared.lastRead ∧
      (overtaken.ideal = shared.ideal ∧ overtaken.foreign = shared.foreign ∨
        overtaken.foreign = overtaken.ideal.assignment) := by
  induction changes generalizing shared with
  | nil => exact ⟨rfl, rfl, Or.inl ⟨rfl, rfl⟩⟩
  | cons change rest ih =>
    obtain ⟨writes, reads, same | latest⟩ := ih (shared.overtake change)
    · refine ⟨writes, reads, Or.inr ?_⟩
      rw [List.foldl_cons, same.1, same.2]
      rfl
    · exact ⟨writes, reads, Or.inr latest⟩

theorem arrive_cases (shared : SharedTable) :
    shared.arrive.writes = shared.writes ∧ shared.arrive.lastRead = shared.lastRead ∧
      (shared.arrive.ideal = shared.ideal ∧ shared.arrive.foreign = shared.foreign ∨
        shared.arrive.foreign = shared.arrive.ideal.assignment) :=
  foldl_overtake_cases shared.turn.others shared

theorem respond_of_no_write {request : Request} (shared : SharedTable)
    (reads : request.replacesIdeal = false) :
    ∃ read, (respond request shared).2 = { shared.arrive with lastRead := read } := by
  cases request with
  | compareAndSet table version assignment => cases reads
  | idealState table =>
    cases treatment : shared.turn.treatment with
    | served => exact ⟨some shared.arrive.ideal, by simp only [respond, treatment]⟩
    | missed => exact ⟨shared.arrive.lastRead, by simp only [respond, treatment]⟩
    | failed text carriedOut => exact ⟨shared.arrive.lastRead, by simp only [respond, treatment]⟩
  | _ => exact ⟨shared.arrive.lastRead, rfl⟩

/-- A write takes place only if the expected version is the stored one, and it is acknowledged only
if it takes place. -/
theorem respond_compareAndSet (table : String) (version : Nat) (assignment : Assignment)
    (shared : SharedTable) :
    let reply := respond (.compareAndSet table version assignment) shared
    reply.1 ≠ .ok true ∧ reply.2 = shared.arrive ∨
      shared.arrive.ideal.version = version ∧
        reply.2 =
          { shared.arrive with
            ideal := { shared.arrive.ideal with version := version + 1, assignment }
            writes := shared.arrive.writes ++
              [⟨shared.arrive.lastRead, shared.arrive.ideal, assignment, shared.arrive.foreign⟩] } := by
  by_cases same : shared.arrive.ideal.version = version
  · cases treatment : shared.turn.treatment with
    | served => exact Or.inr ⟨same, by simp [respond, compareAndSet, treatment, same]⟩
    | missed => exact Or.inl (by simp [respond, treatment])
    | failed text carriedOut =>
      cases carriedOut
      · exact Or.inl (by simp [respond, treatment])
      · exact Or.inr ⟨same, by simp [respond, compareAndSet, treatment, same]⟩
  · refine Or.inl ?_
    cases treatment : shared.turn.treatment <;> simp [respond, compareAndSet, treatment, same]

end SharedTable

end SegmentPlacement

import SegmentPlacement.Program

/-! What can be said of a program without running it. `Asks` bounds the requests
that it may make, whatever it is answered; `Ensures` is the usual triple, over
any responder; `Heeds` holds every request against what the program has seen so
far. -/

namespace SegmentPlacement.Program

theorem run_bind (respond : Responder σ) (program : Program α) (next : α → Program β) (state : σ) :
    (program >>= next).run respond state =
      let first := program.run respond state
      let rest := (next first.value).run respond first.state
      { rest with exchanges := first.exchanges ++ rest.exchanges } := by
  change (program.bind next).run respond state = _
  induction program generalizing state with
  | done value => simp [bind, run_done]
  | ask request rest ih => simp only [bind, run_ask, ih, List.cons_append]

/-- The program asks nothing but what is allowed. -/
def Asks (allowed : Request → Prop) : Program α → Prop
  | .done _ => True
  | .ask request next => allowed request ∧ ∀ answer, (next answer).Asks allowed

namespace Asks

variable {allowed : Request → Prop}

theorem pure (value : α) : (Pure.pure value : Program α).Asks allowed := trivial

theorem call {request : Request} (permitted : allowed request) :
    (Program.call request).Asks allowed := ⟨permitted, fun _ => trivial⟩

theorem bind {program : Program α} {next : α → Program β} (first : program.Asks allowed)
    (rest : ∀ value, (next value).Asks allowed) : (program >>= next).Asks allowed := by
  change (program.bind next).Asks allowed
  induction program with
  | done value => exact rest value
  | ask request later ih => exact ⟨first.1, fun answer => ih answer (first.2 answer)⟩

theorem mono {program : Program α} {others : Request → Prop} (asks : program.Asks allowed)
    (permits : ∀ request, allowed request → others request) : program.Asks others := by
  induction program with
  | done value => trivial
  | ask request next ih => exact ⟨permits request asks.1, fun answer => ih answer (asks.2 answer)⟩

/-- What every permitted request keeps, the program keeps. -/
theorem keeps {respond : Responder σ} {property : σ → Prop} {program : Program α}
    (asks : program.Asks allowed)
    (kept : ∀ request state, allowed request → property state →
      property (respond request state).2) {state : σ} (holds : property state) :
    property (program.run respond state).state := by
  induction program generalizing state with
  | done value => exact holds
  | ask request next ih =>
    rw [run_ask]
    exact ih _ (asks.2 _) (kept request state asks.1 holds)

end Asks

/-- Begun in a state with `pre`, the program ends with a value and in a state that satisfy
`post`. -/
def Ensures (respond : Responder σ) (pre : σ → Prop) (program : Program α)
    (post : α → σ → Prop) : Prop :=
  ∀ state, pre state →
    post (program.run respond state).value (program.run respond state).state

namespace Ensures

variable {respond : Responder σ} {pre : σ → Prop}

theorem pure {value : α} {post : α → σ → Prop} (holds : ∀ state, pre state → post value state) :
    Ensures respond pre (Pure.pure value) post := holds

theorem call {request : Request} {post : request.Answer → σ → Prop}
    (answered : ∀ state, pre state → post (respond request state).1 (respond request state).2) :
    Ensures respond pre (Program.call request) post := answered

theorem bind {program : Program α} {next : α → Program β} {middle : α → σ → Prop}
    {post : β → σ → Prop} (first : Ensures respond pre program middle)
    (rest : ∀ value, Ensures respond (middle value) (next value) post) :
    Ensures respond pre (program >>= next) post := by
  intro state holds
  rw [run_bind]
  exact rest _ _ (first state holds)

theorem weaken {stronger : σ → Prop} {program : Program α} {post weaker : α → σ → Prop}
    (ensures : Ensures respond pre program post) (begins : ∀ state, stronger state → pre state)
    (ends : ∀ value state, post value state → weaker value state) :
    Ensures respond stronger program weaker :=
  fun state holds => ends _ _ (ensures state (begins state holds))

theorem and {program : Program α} {other : σ → Prop} {first second : α → σ → Prop}
    (one : Ensures respond pre program first) (two : Ensures respond other program second) :
    Ensures respond (fun state => pre state ∧ other state) program
      fun value state => first value state ∧ second value state :=
  fun state holds => ⟨one state holds.1, two state holds.2⟩

theorem of_asks {program : Program α} {allowed : Request → Prop} (asks : program.Asks allowed)
    (kept : ∀ request state, allowed request → pre state → pre (respond request state).2) :
    Ensures respond pre program fun _ => pre :=
  fun _ holds => asks.keeps kept holds

theorem trivially {program : Program α} : Ensures respond pre program fun _ _ => True :=
  fun _ _ => trivial

end Ensures

/-- The exchanges add up to what has been seen. Whatever it is answered, the program makes only
requests that are allowed after what it has seen, and ends as that demands. -/
def Heeds (see : ω → Exchange → ω) (allowed : ω → Request → Prop) (ends : α → ω → Prop) :
    Program α → ω → Prop
  | .done value, seen => ends value seen
  | .ask request next, seen =>
    allowed seen request ∧
      ∀ answer, (next answer).Heeds see allowed ends (see seen ⟨request, answer⟩)

namespace Heeds

variable {see : ω → Exchange → ω} {allowed : ω → Request → Prop} {seen : ω}

theorem pure {value : α} {ends : α → ω → Prop} (ended : ends value seen) :
    (Pure.pure value : Program α).Heeds see allowed ends seen := ended

theorem call {request : Request} {ends : request.Answer → ω → Prop} (permitted : allowed seen request)
    (answered : ∀ answer, ends answer (see seen ⟨request, answer⟩)) :
    (Program.call request).Heeds see allowed ends seen := ⟨permitted, answered⟩

theorem bind {program : Program α} {next : α → Program β} {middle : α → ω → Prop}
    {ends : β → ω → Prop} (first : program.Heeds see allowed middle seen)
    (rest : ∀ value now, middle value now → (next value).Heeds see allowed ends now) :
    (program >>= next).Heeds see allowed ends seen := by
  change (program.bind next).Heeds see allowed ends seen
  induction program generalizing seen with
  | done value => exact rest value seen first
  | ask request later ih => exact ⟨first.1, fun answer => ih answer (first.2 answer)⟩

/-- What permits all that is asked and is kept by every answer, the program keeps. -/
theorem of_asks {program : Program α} {asked : Request → Prop} {holds : ω → Prop}
    (asks : program.Asks asked)
    (permitted : ∀ request now, asked request → holds now → allowed now request)
    (kept : ∀ request answer now, asked request → holds now → holds (see now ⟨request, answer⟩))
    (begun : holds seen) : program.Heeds see allowed (fun _ => holds) seen := by
  induction program generalizing seen with
  | done value => exact begun
  | ask request next ih =>
    exact ⟨permitted request seen asks.1 begun, fun answer =>
      ih answer (asks.2 answer) (kept request answer seen asks.1 begun)⟩

theorem run {program : Program α} {ends : α → ω → Prop} (heeds : program.Heeds see allowed ends seen)
    (respond : Responder σ) (state : σ) :
    let ended := program.run respond state
    (∀ before exchange after, ended.exchanges = before ++ exchange :: after →
      allowed (before.foldl see seen) exchange.request) ∧
    ends ended.value (ended.exchanges.foldl see seen) := by
  induction program generalizing seen state with
  | done value => exact ⟨fun before exchange after split => by simp [run_done] at split, heeds⟩
  | ask request next ih =>
    obtain ⟨permitted, heeds⟩ := heeds
    obtain ⟨later, ended⟩ := ih _ (heeds (respond request state).1) (respond request state).2
    rw [run_ask]
    refine ⟨fun before exchange after split => ?_, ended⟩
    cases before with
    | nil =>
      obtain ⟨rfl, _⟩ := List.cons.inj split
      exact permitted
    | cons first before =>
      obtain ⟨rfl, rest⟩ := List.cons.inj split
      exact later before exchange after rest

end Heeds

def record (seen : List Exchange) (exchange : Exchange) : List Exchange := seen ++ [exchange]

theorem foldl_record (exchanges seen : List Exchange) :
    exchanges.foldl record seen = seen ++ exchanges := by
  induction exchanges generalizing seen with
  | nil => exact (List.append_nil _).symm
  | cons first rest ih => rw [List.foldl_cons, ih, record, List.append_assoc, List.singleton_append]

/-- Whatever it is answered, the program ends with a value and with exchanges, those in `seen` the
first of them, that satisfy `ends`. -/
abbrev Records (program : Program α) (ends : α → List Exchange → Prop) (seen : List Exchange) :
    Prop :=
  program.Heeds record (fun _ _ => True) ends seen

namespace Records

theorem call (request : Request) (seen : List Exchange) :
    (Program.call request).Records (fun answer now => now = seen ++ [⟨request, answer⟩]) seen :=
  ⟨trivial, fun _ => rfl⟩

theorem run {program : Program α} {ends : α → List Exchange → Prop}
    (records : program.Records ends []) (respond : Responder σ) (state : σ) :
    ends (program.run respond state).value (program.run respond state).exchanges := by
  have ended := (Heeds.run records respond state).2
  rwa [foldl_record, List.nil_append] at ended

end Records

/-- What takes notice of requests and answers only is told by the exchanges of a run. -/
theorem run_state {respond : Responder σ} {notice : σ → Exchange → σ}
    (notices : ∀ request state,
      (respond request state).2 = notice state ⟨request, (respond request state).1⟩)
    (program : Program α) (state : σ) :
    (program.run respond state).state =
      (program.run respond state).exchanges.foldl notice state := by
  induction program generalizing state with
  | done value => rfl
  | ask request next ih => rw [run_ask, List.foldl_cons, ← notices, ih]

end SegmentPlacement.Program

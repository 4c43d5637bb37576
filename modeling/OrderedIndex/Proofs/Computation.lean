import OrderedIndex.Store.Backend

namespace OrderedIndex

/-!
# Computations

How a computation that can fail, or that calls a store backend, is taken apart
into its steps.  What is known of the backend is a regime: the plans of failures
that may be in force, and whether they allow a call to fail at all.  The same
rules serve backends that never fail and backends that may fail at any call.
-/

/-! ## Computations that can fail -/

/-- A step that succeeds gives its result to the next one. -/
@[simp] theorem ok_bind
    {Failure First Second : Type}
    (item : First)
    (next : First → Except Failure Second) :
    Except.ok item >>= next = next item :=
  rfl

/-- A sequence of two steps succeeds exactly when both do. -/
theorem bind_eq_ok_iff
    {Failure First Second : Type}
    {first : Except Failure First}
    {second : First → Except Failure Second}
    {result : Second} :
    first >>= second = .ok result ↔ ∃ middle, first = .ok middle ∧ second middle = .ok result := by
  cases first with
  | error cause =>
      simp [bind, Except.bind]
  | ok middle =>
      simp [bind, Except.bind]

/-! ## Computations that call a backend -/

/-- What is known of the failures of a backend while it is being called. -/
structure Regime where
  /-- The plans that may be in force. -/
  admits : Option FailurePlan → Prop
  /-- Whether a call may fail. -/
  mayFail : Prop
  /-- Meeting a planned outage leads to another admitted plan. -/
  meets :
    ∀ planned call,
      admits (some planned) →
      admits (some { planned with outages := (planned.outages.meet call).2 })
  /-- Only a regime of failures plans an outage. -/
  outage :
    ∀ planned call cause,
      admits (some planned) →
      (planned.outages.meet call).1 = some cause →
      mayFail
  /-- Only a regime of failures has a capacity. -/
  full : ∀ planned, admits (some planned) → planned.capacity ≠ none → mayFail

namespace Regime

/-- No call fails: the backend cannot, or nothing is planned. -/
def reliable : Regime where
  admits plan := plan = none ∨ plan = some ⟨none, []⟩
  mayFail := False
  meets := by
    rintro planned call (isNone | isClear)
    · contradiction
    · cases isClear
      exact Or.inr rfl
  outage := by
    rintro planned call cause (isNone | isClear) fails
    · contradiction
    · cases isClear
      contradiction
  full := by
    rintro planned (isNone | isClear) limited
    · contradiction
    · cases isClear
      exact limited rfl

/-- Any call may fail. -/
def arbitrary : Regime where
  admits _ := True
  mayFail := True
  meets _ _ _ := trivial
  outage _ _ _ _ _ := trivial
  full _ _ _ := trivial

end Regime

/-- The expected answer, or a failure where calls may fail. -/
def Regime.Tells {Failure Answer : Type} (regime : Regime) (expected : Answer) :
    Except Failure Answer → Prop
  | .ok answer => answer = expected
  | .error _ => regime.mayFail

/-- Where no call fails, the expected answer is given. -/
theorem Regime.eq_ok_of_reliable
    {Failure Answer : Type}
    {expected : Answer}
    {answer : Except Failure Answer}
    (told : Regime.reliable.Tells expected answer) :
    answer = .ok expected := by
  cases answer with
  | error cause =>
      exact told.elim
  | ok given =>
      rw [show given = expected from told]

/-- The expected answer and outcome, or where calls may fail a failure that changes nothing. -/
def Regime.Changes {Failure Answer State : Type} (regime : Regime)
    (expected : Answer) (before after : State) :
    Except Failure Answer × State → Prop
  | (.ok answer, state) => answer = expected ∧ state = after
  | (.error _, state) => regime.mayFail ∧ state = before

/-- A backend whose calls never fail. -/
def Backend.Reliable (backend : Backend) : Prop := Regime.reliable.admits backend.failures?

/-- A sequence of two steps goes on from where the first leaves the backend. -/
theorem bind_apply
    {First Second : Type}
    (first : StoreM First)
    (second : First → StoreM Second)
    (backend : Backend) :
    (first >>= second) backend = second (first backend).1 (first backend).2 :=
  rfl

variable {regime : Regime} {Answer Other : Type}

/-- Under a regime, a computation answers as described, and the regime stays. -/
def Ensures (regime : Regime) (computation : StoreM Answer) (post : Answer → Prop) : Prop :=
  ∀ backend,
    regime.admits backend.failures? →
    post (computation backend).1 ∧ regime.admits (computation backend).2.failures?

namespace Ensures

theorem pure
    {post : Answer → Prop}
    {answer : Answer}
    (holds : post answer) :
    Ensures regime (pure answer) post :=
  fun _ admitted => ⟨holds, admitted⟩

theorem bind
    {computation : StoreM Other}
    {next : Other → StoreM Answer}
    {middle : Other → Prop}
    {post : Answer → Prop}
    (first : Ensures regime computation middle)
    (second : ∀ answer, middle answer → Ensures regime (next answer) post) :
    Ensures regime (computation >>= next) post := by
  intro backend admitted
  obtain ⟨answered, stays⟩ := first backend admitted
  exact second _ answered _ stays

/-- Where no call fails, a computation goes on from the expected answer. -/
theorem bind_tells
    {Failure : Type}
    {computation : StoreM (Except Failure Other)}
    {next : Except Failure Other → StoreM Answer}
    {expected : Other}
    {post : Answer → Prop}
    (told : Ensures .reliable computation (Regime.reliable.Tells expected))
    (continued : Ensures .reliable (next (.ok expected)) post) :
    Ensures .reliable (computation >>= next) post := by
  refine told.bind ?_
  intro answer answered
  rw [Regime.eq_ok_of_reliable answered]
  exact continued

theorem weaken
    {computation : StoreM Answer}
    {post weaker : Answer → Prop}
    (ensures : Ensures regime computation post)
    (implies : ∀ answer, post answer → weaker answer) :
    Ensures regime computation weaker := by
  intro backend admitted
  obtain ⟨answered, stays⟩ := ensures backend admitted
  exact ⟨implies _ answered, stays⟩

theorem get :
    Ensures regime (get : StoreM Backend) fun backend => regime.admits backend.failures? :=
  fun _ admitted => ⟨admitted, admitted⟩

theorem set
    {backend : Backend}
    (admitted : regime.admits backend.failures?) :
    Ensures regime (set backend : StoreM Unit) fun _ => True :=
  fun _ _ => ⟨trivial, admitted⟩

/-- What does not touch the planned failures keeps the regime. -/
theorem modify
    {change : Backend → Backend}
    (untouched : ∀ backend, (change backend).failures? = backend.failures?) :
    Ensures regime (modify change : StoreM Unit) fun _ => True := by
  intro backend admitted
  refine ⟨trivial, ?_⟩
  have same : (change backend).failures? = backend.failures? := untouched backend
  exact same ▸ admitted

end Ensures

namespace Backend

theorem ensures_record (change : Journal → Journal) :
    Ensures regime (record change) fun _ => True :=
  Ensures.modify fun _ => rfl

theorem ensures_remember (call : StoreCall) (store : StoreId) :
    Ensures regime (remember call store) fun _ => True :=
  Ensures.modify fun _ => rfl

/-- A call goes through, or fails where calls may fail. -/
theorem ensures_meet (call : StoreCall) :
    Ensures regime (meet call) (regime.Tells ()) := by
  refine Ensures.bind Ensures.get ?_
  intro backend admitted
  cases plan : backend.failures? with
  | none =>
      exact Ensures.pure rfl
  | some planned =>
      rw [plan] at admitted
      dsimp only
      refine Ensures.bind (Ensures.set (regime.meets planned call admitted)) ?_
      intro _ _
      cases failure : (planned.outages.meet call).1 with
      | none =>
          exact Ensures.pure rfl
      | some cause =>
          exact Ensures.pure (regime.outage planned call cause admitted failure)

variable {backend : Backend}

namespace Reliable

theorem meet_eq
    (reliable : backend.Reliable)
    (call : StoreCall) :
    meet call backend = (.ok (), backend) := by
  obtain ⟨name, exact, tunable, plan, nextId, settings, history, journal⟩ := backend
  rcases reliable with isNone | isClear
  · cases isNone
    rfl
  · cases isClear
    rfl

theorem configure_eq
    (reliable : backend.Reliable)
    (tunable : backend.tunable = true)
    (call : StoreCall)
    (setting : BackendSetting)
    (operation : String) :
    configure call setting operation backend =
      (.ok (), { backend with settings := setting :: backend.settings }) := by
  rw [configure, bind_apply, reliable.meet_eq]
  dsimp only
  rw [bind_apply]
  show (if backend.tunable then _ else _ : StoreM _) backend = _
  rw [if_pos tunable]
  rfl

end Reliable

end Backend

end OrderedIndex

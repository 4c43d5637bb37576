import OrderedIndex.Proofs.Store.Trace

namespace OrderedIndex

/-!
# Custody of stores

A computation is handed some open stores and leaves some open.  In between it
creates stores under consecutive numbers, calls only stores that are open at that
moment, and a store that has been asked to close is out of its hands, whether
closing it has failed or not.
-/

/-- A call that neither creates a store nor closes one. -/
def StoreCall.Plain (call : StoreCall) : Prop := call ≠ .create ∧ call ≠ .close

instance (call : StoreCall) : Decidable call.Plain :=
  inferInstanceAs (Decidable (call ≠ .create ∧ call ≠ .close))

/--
How calls, the latest first, lead from some open stores and the number of the
next one to others.
-/
inductive Custody (first : StoreId) (before : List StoreId) :
    List StoreEvent → StoreId → List StoreId → Prop where
  | start : Custody first before [] first before
  | created
      {earlier : List StoreEvent}
      {next : StoreId}
      {held : List StoreId}
      (custody : Custody first before earlier next held) :
      Custody first before (⟨.create, next⟩ :: earlier) (next + 1) (next :: held)
  | called
      {earlier : List StoreEvent}
      {next id : StoreId}
      {held : List StoreId}
      {call : StoreCall}
      (custody : Custody first before earlier next held)
      (plain : call.Plain)
      (isOpen : id ∈ held) :
      Custody first before (⟨call, id⟩ :: earlier) next held
  | closed
      {earlier : List StoreEvent}
      {next id : StoreId}
      {held : List StoreId}
      (custody : Custody first before earlier next (id :: held)) :
      Custody first before (⟨.close, id⟩ :: earlier) next held
  | reordered
      {events : List StoreEvent}
      {next : StoreId}
      {held others : List StoreId}
      (custody : Custody first before events next held)
      (same : held.Perm others) :
      Custody first before events next others

namespace Custody

variable
  {first between next : StoreId}
  {before held after : List StoreId}
  {earlier later events : List StoreEvent}

/-- Two stretches of calls, one after the other, are one. -/
theorem trans
    (custody : Custody first before earlier between held)
    (continued : Custody between held later next after) :
    Custody first before (later ++ earlier) next after := by
  induction continued with
  | start =>
      exact custody
  | created _ inductionHypothesis =>
      exact inductionHypothesis.created
  | called _ plain isOpen inductionHypothesis =>
      exact inductionHypothesis.called plain isOpen
  | closed _ inductionHypothesis =>
      exact inductionHypothesis.closed
  | reordered _ same inductionHypothesis =>
      exact inductionHypothesis.reordered same

/-- Whatever came before the last call was managed properly, and the last call met an open store. -/
theorem before_last
    {event : StoreEvent}
    (custody : Custody first before (event :: earlier) next held) :
    ∃ between others,
      Custody first before earlier between others ∧
        (event.call ≠ .create → event.store ∈ others) := by
  generalize events_eq : event :: earlier = events at custody
  induction custody with
  | start =>
      contradiction
  | created custody =>
      cases events_eq
      exact ⟨_, _, custody, fun notCreated => absurd rfl notCreated⟩
  | called custody _ isOpen =>
      cases events_eq
      exact ⟨_, _, custody, fun _ => isOpen⟩
  | closed custody =>
      cases events_eq
      exact ⟨_, _, custody, fun _ => List.mem_cons_self⟩
  | reordered _ _ inductionHypothesis =>
      exact inductionHypothesis events_eq

/-- The calls before the later ones leave some stores open as well. -/
theorem before_later (custody : Custody first before (later ++ earlier) next held) :
    ∃ between others, Custody first before earlier between others := by
  induction later generalizing next held with
  | nil =>
      exact ⟨next, held, custody⟩
  | cons event later inductionHypothesis =>
      obtain ⟨_, _, shorter, _⟩ := custody.before_last
      exact inductionHypothesis shorter

/-- Stores that were handed over or created are open or have been closed. -/
theorem balance
    (custody : Custody first before events next held)
    (id : StoreId) :
    before.count id + events.count ⟨.create, id⟩ = held.count id + events.count ⟨.close, id⟩ := by
  induction custody with
  | start =>
      rfl
  | created _ inductionHypothesis =>
      simp only [List.count_cons, beq_iff_eq, StoreEvent.mk.injEq, reduceCtorEq, false_and,
        true_and]
      simp only [if_false]
      omega
  | called _ plain _ inductionHypothesis =>
      simp only [List.count_cons, beq_iff_eq, StoreEvent.mk.injEq, plain.1, plain.2, false_and]
      exact inductionHypothesis
  | closed _ inductionHypothesis =>
      simp only [List.count_cons, beq_iff_eq, StoreEvent.mk.injEq, reduceCtorEq, false_and,
        true_and] at inductionHypothesis ⊢
      simp only [if_false]
      omega
  | reordered _ same inductionHypothesis =>
      rw [inductionHypothesis, same.count_eq]

end Custody

/-! ## Computations that manage stores -/

/--
A computation that is handed some open stores manages them properly, and leaves
stores open that the postcondition relates to its answer.
-/
def Manages {Answer : Type}
    (held : List StoreId)
    (computation : StoreM Answer)
    (post : Answer → List StoreId → Prop) :
    Prop :=
  ∀ backend,
    ∃ events after,
      (computation backend).2.history = events ++ backend.history ∧
        Custody backend.nextId held events (computation backend).2.nextId after ∧
          post (computation backend).1 after

/-- A computation that leaves open just the stores that it was handed. -/
abbrev Borrows {Answer : Type}
    (held : List StoreId)
    (computation : StoreM Answer)
    (post : Answer → Prop) :
    Prop :=
  Manages held computation fun answer after => after = held ∧ post answer

variable {Answer Other : Type} {held : List StoreId}

namespace Manages

/-- A computation without calls manages what its answer ensures. -/
theorem pure
    {post : Answer → List StoreId → Prop}
    {answer : Answer}
    (holds : post answer held) :
    Manages held (pure answer) post :=
  fun _ => ⟨[], held, rfl, .start, holds⟩

/-- A second step is handed the stores that the first leaves open. -/
theorem bind
    {computation : StoreM Other}
    {next : Other → StoreM Answer}
    {middle : Other → List StoreId → Prop}
    {post : Answer → List StoreId → Prop}
    (first : Manages held computation middle)
    (second : ∀ answer between, middle answer between → Manages between (next answer) post) :
    Manages held (computation >>= next) post := by
  intro backend
  obtain ⟨earlier, between, began, custody, answered⟩ := first backend
  obtain ⟨later, after, went, continued, holds⟩ :=
    second (computation backend).1 between answered (computation backend).2
  refine ⟨later ++ earlier, after, ?_, custody.trans continued, holds⟩
  rw [bind_apply, went, began, List.append_assoc]

/-- What a computation ensures whatever fails holds beside what is said of the stores. -/
theorem and_ensures
    {computation : StoreM Answer}
    {post : Answer → List StoreId → Prop}
    {answered : Answer → Prop}
    (manages : Manages held computation post)
    (ensures : Ensures .arbitrary computation answered) :
    Manages held computation fun answer after => answered answer ∧ post answer after := by
  intro backend
  obtain ⟨events, after, history, custody, holds⟩ := manages backend
  exact ⟨events, after, history, custody, (ensures backend trivial).1, holds⟩

/-- The order in which the stores are listed does not matter. -/
theorem reorder
    {others : List StoreId}
    {computation : StoreM Answer}
    {post : Answer → List StoreId → Prop}
    (manages : Manages others computation post)
    (same : held.Perm others) :
    Manages held computation post := by
  intro backend
  obtain ⟨events, after, history, custody, holds⟩ := manages backend
  have handed : Custody backend.nextId held [] backend.nextId others := Custody.start.reordered same
  have whole := handed.trans custody
  rw [List.append_nil] at whole
  exact ⟨events, after, history, whole, holds⟩

/-- A computation goes on with the history that a backend has. -/
theorem custody
    {computation : StoreM Answer}
    {post : Answer → List StoreId → Prop}
    (manages : Manages held computation post)
    {first : StoreId}
    {before : List StoreId}
    {backend : Backend}
    (earlier : Custody first before backend.history backend.nextId held) :
    ∃ after,
      post (computation backend).1 after ∧
        Custody first before (computation backend).2.history (computation backend).2.nextId
          after := by
  obtain ⟨events, after, history, later, holds⟩ := manages backend
  rw [history]
  exact ⟨after, holds, earlier.trans later⟩

end Manages

namespace Borrows

variable {post : Answer → Prop}

/-- A computation without calls borrows what its answer ensures. -/
theorem pure
    {answer : Answer}
    (holds : post answer) :
    Borrows held (pure answer) post :=
  Manages.pure ⟨rfl, holds⟩

/-- What follows a computation that only borrows manages as if it came first. -/
theorem bind
    {computation : StoreM Other}
    {next : Other → StoreM Answer}
    {middle : Other → Prop}
    {post : Answer → List StoreId → Prop}
    (first : Borrows held computation middle)
    (second : ∀ answer, middle answer → Manages held (next answer) post) :
    Manages held (computation >>= next) post := by
  refine Manages.bind first ?_
  rintro answer _ ⟨rfl, answered⟩
  exact second answer answered

/-- A computation that borrows answers as it promises. -/
theorem answered
    {computation : StoreM Answer}
    (borrows : Borrows held computation post)
    (backend : Backend) :
    post (computation backend).1 := by
  obtain ⟨_, _, _, _, _, holds⟩ := borrows backend
  exact holds

/-- A computation that borrows leaves the same stores open. -/
theorem custody
    {computation : StoreM Answer}
    (borrows : Borrows held computation post)
    {first : StoreId}
    {before : List StoreId}
    {backend : Backend}
    (earlier : Custody first before backend.history backend.nextId held) :
    Custody first before (computation backend).2.history (computation backend).2.nextId held := by
  obtain ⟨_, ⟨rfl, _⟩, later⟩ := Manages.custody borrows earlier
  exact later

/-- What makes no calls on stores needs none. -/
theorem quiet
    {computation : StoreM Answer}
    (sameHistory : ∀ backend, (computation backend).2.history = backend.history)
    (sameNext : ∀ backend, (computation backend).2.nextId = backend.nextId) :
    Borrows held computation fun _ => True := by
  intro backend
  refine ⟨[], held, sameHistory backend, ?_, rfl, trivial⟩
  rw [sameNext]
  exact .start

end Borrows

/-! ## Calls -/

namespace OrderedStore

variable {Value : Type} {store result : OrderedStore Value} {value : Value} {answer : Bool}

/-- An insertion does not change the identifier of a store. -/
theorem id_of_insert (inserted : store.insert value = .ok (answer, result)) :
    result.id = store.id := by
  obtain ⟨_, _, rest⟩ := bind_eq_ok_iff.mp inserted
  split at rest
  · cases rest
    rfl
  · cases rest
    rfl

/-- A removal does not change the identifier of a store. -/
theorem id_of_remove (removed : store.remove value = .ok (answer, result)) :
    result.id = store.id := by
  obtain ⟨_, _, rest⟩ := bind_eq_ok_iff.mp removed
  split at rest
  · cases rest
    rfl
  · cases rest
    rfl

end OrderedStore

namespace Backend

variable {Value : Type} {store : OrderedStore Value}

theorem borrows_record (change : Journal → Journal) :
    Borrows held (record change) fun _ => True :=
  Borrows.quiet (fun _ => rfl) fun _ => rfl

theorem borrows_get : Borrows held (get : StoreM Backend) fun _ => True :=
  Borrows.quiet (fun _ => rfl) fun _ => rfl

/-- Looking out for a planned failure opens and closes no store. -/
theorem borrows_meet (call : StoreCall) : Borrows held (meet call) fun _ => True := by
  have same (backend : Backend) :
      (meet call backend).2.history = backend.history ∧
        (meet call backend).2.nextId = backend.nextId := by
    have got : (get : StoreM Backend) backend = (backend, backend) := rfl
    rw [meet, bind_apply, got]
    dsimp only
    cases backend.failures? with
    | none =>
        exact ⟨rfl, rfl⟩
    | some planned =>
        dsimp only
        rw [bind_apply]
        cases (planned.outages.meet call).1 with
        | none =>
            exact ⟨rfl, rfl⟩
        | some cause =>
            exact ⟨rfl, rfl⟩
  exact Borrows.quiet (fun backend => (same backend).1) fun backend => (same backend).2

/-- A setting of the backend opens and closes no store. -/
theorem borrows_configure (call : StoreCall) (setting : BackendSetting) (operation : String) :
    Borrows held (configure call setting operation) fun _ => True := by
  refine Borrows.bind (borrows_meet call) ?_
  rintro (cause | ⟨⟩) _
  · exact Borrows.pure trivial
  · refine Borrows.quiet ?_ ?_
    · intro backend
      show ((if backend.tunable then _ else _ : StoreM _) backend).2.history = _
      split <;> rfl
    · intro backend
      show ((if backend.tunable then _ else _ : StoreM _) backend).2.nextId = _
      split <;> rfl

/-- A call on an open store that is neither its creation nor its end leaves it open. -/
theorem borrows_remember
    {call : StoreCall}
    {id : StoreId}
    (plain : call.Plain)
    (isOpen : id ∈ held) :
    Borrows held (remember call id) fun _ => True :=
  fun _ => ⟨[⟨call, id⟩], held, rfl, Custody.start.called plain isOpen, rfl, trivial⟩

/-- The call that closes a store gives it back. -/
theorem manages_remember_close (id : StoreId) :
    Manages (id :: held) (remember .close id) fun _ after => after = held :=
  fun _ => ⟨[⟨.close, id⟩], held, rfl, Custody.start.closed, rfl⟩

/-- A store that is created is open. -/
theorem manages_create (order : Order Value) :
    Manages held (create order) fun
      | .ok store, after => after = store.id :: held
      | .error _, after => after = held := by
  refine Borrows.bind (borrows_meet .create) ?_
  rintro (cause | ⟨⟩) _
  · exact Manages.pure rfl
  · intro backend
    exact ⟨[⟨.create, backend.nextId⟩], backend.nextId :: held, rfl, Custody.start.created, rfl⟩

theorem borrows_checkCapacity (store : OrderedStore Value) :
    Borrows held (checkCapacity store) fun _ => True := by
  refine Borrows.bind borrows_get ?_
  intro backend _
  cases backend.failures?.bind (·.capacity) with
  | none =>
      exact Borrows.pure trivial
  | some capacity =>
      rcases store.size with cause | size
      · exact Borrows.pure trivial
      · dsimp only
        split
        · exact Borrows.pure trivial
        · exact Borrows.pure trivial

/-- An insertion calls no store but the open one. -/
theorem borrows_insert
    (isOpen : store.id ∈ held)
    (value : Value) :
    Borrows held (insert store value) fun outcome => outcome.2.id = store.id := by
  refine Borrows.bind (borrows_remember (by decide) isOpen) ?_
  intro _ _
  refine Borrows.bind (borrows_meet .insert) ?_
  rintro (cause | ⟨⟩) _
  · exact Borrows.pure rfl
  · refine Borrows.bind (borrows_checkCapacity store) ?_
    rintro (cause | ⟨⟩) _
    · exact Borrows.pure rfl
    · cases inserted : store.insert value with
      | error cause =>
          exact Borrows.pure rfl
      | ok outcome =>
          obtain ⟨added, result⟩ := outcome
          have sameId := OrderedStore.id_of_insert inserted
          cases added with
          | false =>
              exact Borrows.pure sameId
          | true =>
              exact Borrows.bind (borrows_record _) fun _ _ => Borrows.pure sameId

/-- A removal calls no store but the open one. -/
theorem borrows_remove
    (isOpen : store.id ∈ held)
    (value : Value) :
    Borrows held (remove store value) fun outcome => outcome.2.id = store.id := by
  refine Borrows.bind (borrows_remember (by decide) isOpen) ?_
  intro _ _
  refine Borrows.bind (borrows_meet .remove) ?_
  rintro (cause | ⟨⟩) _
  · exact Borrows.pure rfl
  · cases taken : store.remove value with
    | error cause =>
        exact Borrows.pure rfl
    | ok outcome =>
        obtain ⟨removed, result⟩ := outcome
        have sameId := OrderedStore.id_of_remove taken
        cases removed with
        | false =>
            exact Borrows.pure sameId
        | true =>
            exact Borrows.bind (borrows_record _) fun _ _ => Borrows.pure sameId

/-- A question calls no store but the open one. -/
theorem borrows_consult
    {call : StoreCall}
    (plain : call.Plain)
    (isOpen : store.id ∈ held)
    (answer : Except StoreError Answer) :
    Borrows held (consult call store answer) fun _ => True := by
  refine Borrows.bind (borrows_remember plain isOpen) ?_
  intro _ _
  refine Borrows.bind (borrows_meet call) ?_
  rintro (cause | ⟨⟩) _
  · exact Borrows.pure trivial
  · exact Borrows.pure trivial

/-- A store that has been asked to close is gone, even if it could not be closed. -/
theorem manages_close (store : OrderedStore Value) :
    Manages (store.id :: held) (close store) fun _ after => after = held := by
  refine Manages.bind (manages_remember_close store.id) ?_
  rintro _ _ rfl
  refine Borrows.bind (borrows_meet .close) ?_
  rintro (cause | ⟨⟩) _
  · exact Manages.pure rfl
  · dsimp only
    split
    · exact Borrows.bind (borrows_record _) fun _ _ => Manages.pure rfl
    · exact Manages.pure rfl

/-- Crossing a value of a browser is no call on its store. -/
theorem borrows_next (browser : Browser Value) : Borrows held (next browser) fun _ => True := by
  refine Borrows.bind (borrows_meet .next) ?_
  rintro (cause | ⟨⟩) _
  · exact Borrows.pure trivial
  · exact Borrows.pure trivial

/-- A step backward calls no store but the one that is browsed. -/
theorem borrows_previous (browser : Browser Value) :
    Borrows held (previous browser) fun _ => True := by
  refine Borrows.bind (borrows_meet .previous) ?_
  rintro (cause | ⟨⟩) _
  · exact Borrows.pure trivial
  · exact Borrows.pure trivial

end Backend

end OrderedIndex

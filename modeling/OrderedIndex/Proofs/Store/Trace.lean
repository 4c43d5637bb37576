import OrderedIndex.Proofs.Computation

namespace OrderedIndex

/-!
# Traces of calls

A computation only adds to the history of its backend.  What it adds is its
trace, and a postcondition may speak of the answer and the trace together: where
a computation has failed is told by its last calls.
-/

/-- What a computation adds to the history of a backend, the latest first. -/
def Backend.eventsOf {Answer : Type} (backend : Backend) (computation : StoreM Answer) :
    List StoreEvent :=
  (computation backend).2.history.take
    ((computation backend).2.history.length - backend.history.length)

/-- The given calls, the latest first, end a trace. -/
def LastCalls (calls : List StoreCall) (events : List StoreEvent) : Prop :=
  calls <+: events.map StoreEvent.call

instance (calls : List StoreCall) (events : List StoreEvent) :
    Decidable (LastCalls calls events) :=
  inferInstanceAs (Decidable (calls <+: events.map StoreEvent.call))

/-- The last calls of a step that follows another, and of that other. -/
theorem LastCalls.append
    {lastly before : List StoreCall}
    {later earlier : List StoreEvent}
    (calls : later.map StoreEvent.call = lastly)
    (last : LastCalls before earlier) :
    LastCalls (lastly ++ before) (later ++ earlier) := by
  rw [LastCalls, List.map_append, calls]
  exact (List.prefix_append_right_inj lastly).mpr last

/-- A trace has one last call. -/
theorem LastCalls.head_eq
    {first second : StoreCall}
    {before others : List StoreCall}
    {events : List StoreEvent}
    (last : LastCalls (first :: before) events)
    (alsoLast : LastCalls (second :: others) events) :
    first = second := by
  obtain ⟨_, calls⟩ := last
  obtain ⟨_, sameCalls⟩ := alsoLast
  exact (List.cons.inj (calls.trans sameCalls.symm)).1

variable {regime : Regime} {Answer Other : Type}

/-- Under a regime, a computation only adds to the history and answers as described. -/
def Performs
    (regime : Regime)
    (computation : StoreM Answer)
    (post : Answer → List StoreEvent → Prop) :
    Prop :=
  ∀ backend,
    regime.admits backend.failures? →
    ∃ events,
      (computation backend).2.history = events ++ backend.history ∧
        post (computation backend).1 events ∧
          regime.admits (computation backend).2.failures?

namespace Performs

/-- What is described of a computation holds of its trace. -/
theorem post_eventsOf
    {computation : StoreM Answer}
    {post : Answer → List StoreEvent → Prop}
    (performs : Performs regime computation post)
    {backend : Backend}
    (admitted : regime.admits backend.failures?) :
    post (computation backend).1 (backend.eventsOf computation) := by
  obtain ⟨events, history, holds, _⟩ := performs backend admitted
  rw [Backend.eventsOf, history, List.length_append, Nat.add_sub_cancel, List.take_left]
  exact holds

/-- What holds of an answer whatever the trace is ensured. -/
theorem ensures
    {computation : StoreM Answer}
    {post : Answer → List StoreEvent → Prop}
    {answered : Answer → Prop}
    (performs : Performs regime computation post)
    (implies : ∀ answer events, post answer events → answered answer) :
    Ensures regime computation answered := by
  intro backend admitted
  obtain ⟨events, _, holds, stays⟩ := performs backend admitted
  exact ⟨implies _ events holds, stays⟩

/-- A computation that only answers makes no call. -/
theorem pure
    {post : Answer → List StoreEvent → Prop}
    {answer : Answer}
    (holds : post answer []) :
    Performs regime (pure answer) post :=
  fun _ admitted => ⟨[], rfl, holds, admitted⟩

/-- The events of a second step come on top of those of the first. -/
theorem bind
    {computation : StoreM Other}
    {next : Other → StoreM Answer}
    {middle : Other → List StoreEvent → Prop}
    {post : Answer → List StoreEvent → Prop}
    (first : Performs regime computation middle)
    (second :
      ∀ answer earlier,
        middle answer earlier →
        Performs regime (next answer) fun result later => post result (later ++ earlier)) :
    Performs regime (computation >>= next) post := by
  intro backend admitted
  obtain ⟨earlier, began, answered, between⟩ := first backend admitted
  obtain ⟨later, continued, holds, stays⟩ := second _ _ answered _ between
  refine ⟨later ++ earlier, ?_, holds, stays⟩
  rw [bind_apply, continued, began, List.append_assoc]

/-- What a computation does may be described more loosely. -/
theorem weaken
    {computation : StoreM Answer}
    {post weaker : Answer → List StoreEvent → Prop}
    (performs : Performs regime computation post)
    (implies : ∀ answer events, post answer events → weaker answer events) :
    Performs regime computation weaker := by
  intro backend admitted
  obtain ⟨events, history, holds, stays⟩ := performs backend admitted
  exact ⟨events, history, implies _ _ holds, stays⟩

/-- What a computation ensures holds beside what is said of its trace. -/
theorem and_ensures
    {computation : StoreM Answer}
    {post : Answer → List StoreEvent → Prop}
    {answered : Answer → Prop}
    (performs : Performs regime computation post)
    (ensures : Ensures regime computation answered) :
    Performs regime computation fun answer events => answered answer ∧ post answer events := by
  intro backend admitted
  obtain ⟨events, history, holds, stays⟩ := performs backend admitted
  exact ⟨events, history, ⟨(ensures backend admitted).1, holds⟩, stays⟩

/-- What leaves the history alone has an empty trace. -/
theorem silent
    {computation : StoreM Answer}
    {answered : Answer → Prop}
    (ensures : Ensures regime computation answered)
    (untouched : ∀ backend, (computation backend).2.history = backend.history) :
    Performs regime computation fun _ events => events = [] :=
  fun backend admitted => ⟨[], untouched backend, rfl, (ensures backend admitted).2⟩

/-- What touches neither the planned failures nor the history has an empty trace. -/
theorem modify
    {change : Backend → Backend}
    (sameFailures : ∀ backend, (change backend).failures? = backend.failures?)
    (sameHistory : ∀ backend, (change backend).history = backend.history) :
    Performs regime (modify change : StoreM Unit) fun _ events => events = [] :=
  .silent (Ensures.modify sameFailures) sameHistory

/-- A step with an empty trace can be left out of the account. -/
theorem bind_silent
    {computation : StoreM Other}
    {next : Other → StoreM Answer}
    {post : Answer → List StoreEvent → Prop}
    (first : Performs regime computation fun _ events => events = [])
    (second : ∀ answer, Performs regime (next answer) post) :
    Performs regime (computation >>= next) post := by
  refine first.bind ?_
  rintro answer _ rfl
  refine (second answer).weaken ?_
  intro result later holds
  rw [List.append_nil]
  exact holds

end Performs

/-! ## Calls -/

namespace Backend

variable {Value : Type}

/-- Changing the journal is no call. -/
theorem performs_record (change : Journal → Journal) :
    Performs regime (record change) fun _ events => events = [] :=
  .modify (fun _ => rfl) fun _ => rfl

theorem performs_get :
    Performs regime (get : StoreM Backend) fun _ events => events = [] :=
  .silent Ensures.get fun _ => rfl

/-- Looking out for a planned failure is no call. -/
theorem performs_meet (call : StoreCall) :
    Performs regime (meet call) fun _ events => events = [] := by
  refine .silent (ensures_meet call) ?_
  intro backend
  have got : (get : StoreM Backend) backend = (backend, backend) := rfl
  rw [meet, bind_apply, got]
  dsimp only
  cases backend.failures? with
  | none =>
      rfl
  | some planned =>
      dsimp only
      rw [bind_apply]
      cases (planned.outages.meet call).1 <;> rfl

/-- A call is remembered as it is. -/
theorem performs_remember (call : StoreCall) (store : StoreId) :
    Performs regime (remember call store) fun _ events => events = [⟨call, store⟩] :=
  fun _ admitted => ⟨[⟨call, store⟩], rfl, rfl, admitted⟩

/-- A call that is remembered and then answered leaves one event. -/
theorem performs_remembered
    {rest : StoreM Answer}
    (call : StoreCall)
    (store : StoreId)
    (silent : Performs regime rest fun _ events => events = []) :
    Performs regime (remember call store >>= fun _ => rest) fun _ events =>
      events = [⟨call, store⟩] := by
  refine (performs_remember call store).bind ?_
  rintro _ _ rfl
  refine silent.weaken ?_
  rintro _ _ rfl
  rfl

/-- A question is one call on its store. -/
theorem performs_consult
    (call : StoreCall)
    (store : OrderedStore Value)
    (answer : Except StoreError Answer) :
    Performs regime (consult call store answer) fun _ events => events = [⟨call, store.id⟩] := by
  refine performs_remembered call store.id ?_
  refine (performs_meet call).bind_silent ?_
  rintro (cause | ⟨⟩)
  · exact .pure rfl
  · exact .pure rfl

/-- Only a store that is created leaves an event. -/
theorem performs_create (order : Order Value) :
    Performs regime (create order) fun
      | .ok store, events => events = [⟨.create, store.id⟩]
      | .error _, events => events = [] := by
  refine (performs_meet .create).bind_silent ?_
  rintro (cause | ⟨⟩)
  · exact .pure rfl
  · refine performs_get.bind_silent ?_
    intro backend
    refine Performs.bind_silent (.modify (fun _ => rfl) fun _ => rfl) ?_
    intro _
    refine (performs_remember .create backend.nextId).bind ?_
    rintro _ _ rfl
    exact (performs_record _).bind_silent fun _ => .pure rfl

/-- Looking at the capacity is no call. -/
theorem performs_checkCapacity (store : OrderedStore Value) :
    Performs regime (checkCapacity store) fun _ events => events = [] := by
  refine performs_get.bind_silent ?_
  intro backend
  cases backend.failures?.bind (·.capacity) with
  | none =>
      exact .pure rfl
  | some capacity =>
      rcases store.size with cause | size
      · exact .pure rfl
      · dsimp only
        split
        · exact .pure rfl
        · exact .pure rfl

/-- An insertion is one call on its store. -/
theorem performs_insert (store : OrderedStore Value) (value : Value) :
    Performs regime (insert store value) fun _ events => events = [⟨.insert, store.id⟩] := by
  refine performs_remembered .insert store.id ?_
  refine (performs_meet .insert).bind_silent ?_
  rintro (cause | ⟨⟩)
  · exact .pure rfl
  · refine (performs_checkCapacity store).bind_silent ?_
    rintro (cause | ⟨⟩)
    · exact .pure rfl
    · rcases store.insert value with cause | ⟨added, result⟩
      · exact .pure rfl
      · cases added with
        | false =>
            exact .pure rfl
        | true =>
            exact (performs_record _).bind_silent fun _ => .pure rfl

/-- A removal is one call on its store. -/
theorem performs_remove (store : OrderedStore Value) (value : Value) :
    Performs regime (remove store value) fun _ events => events = [⟨.remove, store.id⟩] := by
  refine performs_remembered .remove store.id ?_
  refine (performs_meet .remove).bind_silent ?_
  rintro (cause | ⟨⟩)
  · exact .pure rfl
  · rcases store.remove value with cause | ⟨removed, result⟩
    · exact .pure rfl
    · cases removed with
      | false =>
          exact .pure rfl
      | true =>
          exact (performs_record _).bind_silent fun _ => .pure rfl

/-- Closing is one call on its store. -/
theorem performs_close (store : OrderedStore Value) :
    Performs regime (close store) fun _ events => events = [⟨.close, store.id⟩] := by
  refine performs_remembered .close store.id ?_
  refine (performs_meet .close).bind_silent ?_
  rintro (cause | ⟨⟩)
  · exact .pure rfl
  · dsimp only
    split
    · exact (performs_record _).bind_silent fun _ => .pure rfl
    · exact .pure rfl

end Backend

end OrderedIndex

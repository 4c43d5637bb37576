import OrderedIndex.Proofs.Store.PlannedFailures

namespace OrderedIndex

/-!
# What does not depend on closing

Closing a store can fail like any other call.  A computation that closes a store
on the way, but makes nothing of how that goes, gives the same answer over two
backends that plan different failures for closing.
-/

/-! ## Backends that differ in closing -/

/-- The planned outages of all calls but closing. -/
def Outages.besidesClosing (outages : Outages) : Outages :=
  outages.filter fun planned => planned.1 != .close

/-- What the calls other than closing depend on: the next number and what is planned for them. -/
def Backend.besidesClosing (backend : Backend) : StoreId × FailurePlan :=
  (backend.nextId,
    backend.failures?.elim ⟨none, []⟩ fun planned =>
      { planned with outages := planned.outages.besidesClosing })

/-- Two backends that differ, as far as answers are concerned, in planned failures of closing. -/
def Backend.AlikeButForClosing (backend other : Backend) : Prop :=
  backend.besidesClosing = other.besidesClosing

namespace Outages

/-- A call other than closing meets the outages planned for calls other than closing. -/
theorem meet_besidesClosing
    {call : StoreCall}
    (isOther : call ≠ .close)
    (outages : Outages) :
    outages.besidesClosing.meet call =
      ((outages.meet call).1, (outages.meet call).2.besidesClosing) := by
  induction outages with
  | nil =>
      rfl
  | cons first rest inductionHypothesis =>
      obtain ⟨planned, outage⟩ := first
      unfold besidesClosing at inductionHypothesis ⊢
      by_cases same : planned = call
      · subst same
        rw [List.filter_cons_of_pos (by simp [isOther]), meet, meet, if_pos rfl, if_pos rfl]
        rcases outage.meet with ⟨failure, _ | remaining⟩
        · rfl
        · rw [List.filter_cons_of_pos (by simp [isOther])]
      · by_cases closing : planned = .close
        · rw [List.filter_cons_of_neg (by simp [closing]), inductionHypothesis, meet, if_neg same]
          rw [List.filter_cons_of_neg (by simp [closing])]
        · rw [List.filter_cons_of_pos (by simp [closing]), meet, meet, if_neg same, if_neg same,
            inductionHypothesis, List.filter_cons_of_pos (by simp [closing])]

/-- Closing meets no outages but its own. -/
theorem besidesClosing_meet_close (outages : Outages) :
    (outages.meet .close).2.besidesClosing = outages.besidesClosing := by
  induction outages with
  | nil =>
      rfl
  | cons first rest inductionHypothesis =>
      obtain ⟨planned, outage⟩ := first
      unfold besidesClosing at inductionHypothesis ⊢
      by_cases closing : planned = .close
      · subst closing
        rw [List.filter_cons_of_neg (by simp), meet, if_pos rfl]
        rcases outage.meet with ⟨failure, _ | remaining⟩
        · rfl
        · exact List.filter_cons_of_neg (by simp)
      · rw [List.filter_cons_of_pos (by simp [closing]), meet, if_neg closing,
          List.filter_cons_of_pos (by simp [closing]), inductionHypothesis]

end Outages

/-! ## Computations -/

/-- A computation goes the same way over backends that differ in failures of closing. -/
def IgnoresClosing {Answer : Type} (computation : StoreM Answer) : Prop :=
  ∀ backend other : Backend,
    backend.AlikeButForClosing other →
    (computation backend).1 = (computation other).1 ∧
      (computation backend).2.AlikeButForClosing (computation other).2

/-- A computation gives an answer over every backend, and the calls after it go as without it. -/
def GivesAnyway {Answer : Type} (computation : StoreM Answer) (answer : Answer) : Prop :=
  ∀ backend : Backend,
    (computation backend).1 = answer ∧
      (computation backend).2.besidesClosing = backend.besidesClosing

variable {Answer Other : Type}

/-- A computation that gives its answer anyway ignores failures of closing. -/
theorem GivesAnyway.ignoresClosing
    {computation : StoreM Answer}
    {answer : Answer}
    (gives : GivesAnyway computation answer) :
    IgnoresClosing computation := by
  intro backend other alike
  obtain ⟨answer_eq, after⟩ := gives backend
  obtain ⟨otherAnswer_eq, otherAfter⟩ := gives other
  refine ⟨answer_eq.trans otherAnswer_eq.symm, ?_⟩
  rw [Backend.AlikeButForClosing, after, otherAfter]
  exact alike

namespace IgnoresClosing

/-- A computation without calls ignores failures of closing. -/
theorem pure (answer : Answer) : IgnoresClosing (pure answer) :=
  fun _ _ alike => ⟨rfl, alike⟩

/-- Two computations that ignore failures of closing do so in a row. -/
theorem bind
    {computation : StoreM Other}
    {next : Other → StoreM Answer}
    (first : IgnoresClosing computation)
    (second : ∀ answer, IgnoresClosing (next answer)) :
    IgnoresClosing (computation >>= next) := by
  intro backend other alike
  obtain ⟨answer_eq, between⟩ := first backend other alike
  rw [bind_apply, bind_apply, answer_eq]
  exact second _ _ _ between

/-- What is computed from what calls other than closing depend on. -/
theorem ofView
    {computation : StoreM Answer}
    {result : StoreId × FailurePlan → Answer × StoreId × FailurePlan}
    (computes :
      ∀ backend : Backend,
        ((computation backend).1, (computation backend).2.besidesClosing) =
          result backend.besidesClosing) :
    IgnoresClosing computation := by
  intro backend other alike
  have same := (computes backend).trans ((congrArg result alike).trans (computes other).symm)
  exact Prod.mk.inj same

/-- What leaves the next number and the planned failures alone. -/
theorem modify
    {change : Backend → Backend}
    (untouched : ∀ backend, (change backend).besidesClosing = backend.besidesClosing) :
    IgnoresClosing (modify change : StoreM Unit) :=
  GivesAnyway.ignoresClosing fun backend => ⟨rfl, untouched backend⟩

end IgnoresClosing

/-! ## Calls -/

namespace Backend

variable {Value : Type}

/-- What a call other than closing answers and leaves, by what is planned for such calls. -/
def meetPlan (call : StoreCall) (view : StoreId × FailurePlan) :
    Except StoreError Unit × StoreId × FailurePlan :=
  let (failure, outages) := view.2.outages.meet call
  (failure.elim (.ok ()) .error, view.1, { view.2 with outages := outages })

/-- A call other than closing meets the same failures. -/
theorem ignoresClosing_meet
    {call : StoreCall}
    (isOther : call ≠ .close) :
    IgnoresClosing (meet call) := by
  have computes (backend : Backend) :
      ((meet call backend).1, (meet call backend).2.besidesClosing) =
        meetPlan call backend.besidesClosing := by
    obtain ⟨name, exact, tunable, failures?, nextId, settings, history, journal⟩ := backend
    cases failures? with
    | none =>
        rfl
    | some planned =>
        rw [meet_eq_of_planned rfl]
        dsimp only [besidesClosing, Option.elim_some, meetPlan]
        rw [Outages.meet_besidesClosing isOther]
  exact .ofView computes

/-- Looking out for a failure of closing changes nothing else. -/
theorem besidesClosing_meet_close (backend : Backend) :
    (meet .close backend).2.besidesClosing = backend.besidesClosing := by
  obtain ⟨name, exact, tunable, failures?, nextId, settings, history, journal⟩ := backend
  cases failures? with
  | none =>
      rfl
  | some planned =>
      rw [meet_eq_of_planned rfl]
      dsimp only [besidesClosing, Option.elim_some]
      rw [Outages.besidesClosing_meet_close]

/-- Remembering a call ignores failures of closing. -/
theorem ignoresClosing_remember (call : StoreCall) (store : StoreId) :
    IgnoresClosing (remember call store) :=
  .modify fun _ => rfl

theorem ignoresClosing_record (change : Journal → Journal) : IgnoresClosing (record change) :=
  .modify fun _ => rfl

/-- A question ignores failures of closing. -/
theorem ignoresClosing_consult
    {call : StoreCall}
    (isOther : call ≠ .close)
    (store : OrderedStore Value)
    (answer : Except StoreError Answer) :
    IgnoresClosing (consult call store answer) := by
  refine (ignoresClosing_remember call store.id).bind ?_
  intro _
  refine (ignoresClosing_meet isOther).bind ?_
  rintro (cause | ⟨⟩)
  · exact .pure _
  · exact .pure _

theorem ignoresClosing_create (order : Order Value) : IgnoresClosing (create order) := by
  refine (ignoresClosing_meet (by decide)).bind ?_
  rintro (cause | ⟨⟩)
  · exact .pure _
  · -- The number of the store is the next one, and the one after it is next.
    exact @IgnoresClosing.ofView _ _
      (fun view => (.ok (.empty view.1 order), view.1 + 1, view.2)) fun _ => rfl

theorem ignoresClosing_checkCapacity (store : OrderedStore Value) :
    IgnoresClosing (checkCapacity store) := by
  have capacity_eq (backend : Backend) :
      backend.failures?.bind (·.capacity) = backend.besidesClosing.2.capacity := by
    rw [besidesClosing]
    cases backend.failures? <;> rfl
  have got (backend : Backend) : (get : StoreM Backend) backend = (backend, backend) := rfl
  intro backend other alike
  rw [checkCapacity, bind_apply, bind_apply, got, got]
  dsimp only
  rw [capacity_eq, capacity_eq, alike]
  cases other.besidesClosing.2.capacity with
  | none =>
      exact ⟨rfl, alike⟩
  | some capacity =>
      rcases store.size with cause | size
      · exact ⟨rfl, alike⟩
      · dsimp only
        split
        · exact ⟨rfl, alike⟩
        · exact ⟨rfl, alike⟩

/-- An insertion into a store ignores failures of closing. -/
theorem ignoresClosing_insert (store : OrderedStore Value) (value : Value) :
    IgnoresClosing (insert store value) := by
  refine (ignoresClosing_remember .insert store.id).bind ?_
  intro _
  refine (ignoresClosing_meet (by decide)).bind ?_
  rintro (cause | ⟨⟩)
  · exact .pure _
  · refine (ignoresClosing_checkCapacity store).bind ?_
    rintro (cause | ⟨⟩)
    · exact .pure _
    · rcases store.insert value with cause | ⟨added, result⟩
      · exact .pure _
      · cases added with
        | false =>
            exact .pure _
        | true =>
            exact (ignoresClosing_record _).bind fun _ => .pure _

/-- A removal from a store ignores failures of closing. -/
theorem ignoresClosing_remove (store : OrderedStore Value) (value : Value) :
    IgnoresClosing (remove store value) := by
  refine (ignoresClosing_remember .remove store.id).bind ?_
  intro _
  refine (ignoresClosing_meet (by decide)).bind ?_
  rintro (cause | ⟨⟩)
  · exact .pure _
  · rcases store.remove value with cause | ⟨removed, result⟩
    · exact .pure _
    · cases removed with
      | false =>
          exact .pure _
      | true =>
          exact (ignoresClosing_record _).bind fun _ => .pure _

/-- Closing leaves the other calls as they were. -/
theorem besidesClosing_close (store : OrderedStore Value) (backend : Backend) :
    (close store backend).2.besidesClosing = backend.besidesClosing := by
  have met := besidesClosing_meet_close (remember .close store.id backend).2
  rw [close, bind_apply, bind_apply]
  rcases (meet .close (remember .close store.id backend).2).1 with cause | ⟨⟩
  · exact met
  · dsimp only
    split
    · exact met
    · exact met

/-- What is given however closing goes depends on no failure of closing. -/
theorem ignoresClosing_close_bind
    {store : OrderedStore Value}
    {next : Except StoreError Unit × OrderedStore Value → StoreM Answer}
    (answer : Answer)
    (gives : ∀ closed, GivesAnyway (next closed) answer) :
    IgnoresClosing (close store >>= next) := by
  have givesAfter : GivesAnyway (close store >>= next) answer := by
    intro backend
    obtain ⟨answer_eq, after⟩ := gives (close store backend).1 (close store backend).2
    exact ⟨answer_eq, after.trans (besidesClosing_close store backend)⟩
  exact givesAfter.ignoresClosing

end Backend

end OrderedIndex

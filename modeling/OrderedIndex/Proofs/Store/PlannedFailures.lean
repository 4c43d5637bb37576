import OrderedIndex.Proofs.Computation
import OrderedIndex.Table.ValueCursor

namespace OrderedIndex

/-!
# Planned failures that run out

A plan with an end has a number of failures left.  A computation never raises
that number, and where it does not go as it would over a backend that cannot
fail, it has used up one of them.  So of all attempts at something that such a
backend answers, no more fail than the plan has failures left.
-/

/-! ## Counting what is left -/

/-- The failures that a plan has left, if it has an end. -/
def Outage.failuresLeft? : Outage → Option Nat
  | .plan _ _ none _ => none
  | .plan _ _ (some failing) none => some failing
  | .plan _ _ (some failing) (some afterwards) =>
      afterwards.failuresLeft?.map fun later => failing + later

/-- The failures that plans for several kinds of calls have left, if all have an end. -/
def Outages.failuresLeft? : Outages → Option Nat
  | [] => some 0
  | (_, outage) :: rest => do
      let own ← outage.failuresLeft?
      let others ← failuresLeft? rest
      return own + others

/-- The failures that a backend has left, if its plans have an end. -/
def Backend.failuresLeft? (backend : Backend) : Option Nat :=
  match backend.failures? with
  | some planned => planned.outages.failuresLeft?
  | none => some 0

/-- Meeting a call uses up the failure that the call gets. -/
theorem Outage.failuresLeft?_meet
    {outage : Outage}
    {count : Nat}
    (left : outage.failuresLeft? = some count) :
    ∃ rest,
      (outage.meet.2.elim (some 0) failuresLeft?) = some rest ∧
        rest + outage.meet.1.isSome.toNat ≤ count := by
  obtain ⟨cause, passing, failing, afterwards⟩ := outage
  cases passing with
  | succ passing =>
      refine ⟨count, ?_, Nat.le_refl count⟩
      rw [← left]
      cases failing with
      | none =>
          rfl
      | some failing =>
          cases afterwards <;> rfl
  | zero =>
      cases failing with
      | none =>
          contradiction
      | some failing =>
          match failing, afterwards with
          | 0, _ =>
              exact ⟨0, rfl, Nat.zero_le count⟩
          | 1, none =>
              cases left
              exact ⟨0, rfl, Nat.le_refl 1⟩
          | 1, some afterwards =>
              obtain ⟨later, laterLeft, rfl⟩ := Option.map_eq_some_iff.mp left
              refine ⟨later, laterLeft, ?_⟩
              show later + 1 ≤ 1 + later
              omega
          | failing + 2, none =>
              cases left
              exact ⟨failing + 1, rfl, Nat.le_refl _⟩
          | failing + 2, some afterwards =>
              obtain ⟨later, laterLeft, rfl⟩ := Option.map_eq_some_iff.mp left
              refine ⟨failing + 1 + later, ?_, ?_⟩
              · show (failuresLeft? afterwards).map _ = _
                rw [laterLeft]
                rfl
              · show failing + 1 + later + 1 ≤ failing + 2 + later
                omega

/-- A call that meets a failure leaves one failure less. -/
theorem Outages.failuresLeft?_meet
    (call : StoreCall)
    {outages : Outages}
    {count : Nat}
    (left : outages.failuresLeft? = some count) :
    ∃ rest,
      (outages.meet call).2.failuresLeft? = some rest ∧
        rest + (outages.meet call).1.isSome.toNat ≤ count := by
  induction outages generalizing count with
  | nil =>
      exact ⟨count, left, Nat.le_refl count⟩
  | cons first rest inductionHypothesis =>
      obtain ⟨other, outage⟩ := first
      obtain ⟨own, ownLeft, left⟩ := Option.bind_eq_some_iff.mp left
      obtain ⟨others, othersLeft, left⟩ := Option.bind_eq_some_iff.mp left
      cases left
      unfold meet
      split
      · obtain ⟨remaining, remainingLeft, used⟩ := outage.failuresLeft?_meet ownLeft
        rcases met : outage.meet with ⟨failure, _ | follows⟩
        · rw [met] at remainingLeft used
          cases remainingLeft
          refine ⟨others, othersLeft, ?_⟩
          dsimp only at used ⊢
          omega
        · rw [met] at remainingLeft used
          have followsLeft : follows.failuresLeft? = some remaining := remainingLeft
          refine ⟨remaining + others, ?_, ?_⟩
          · simp [failuresLeft?, followsLeft, othersLeft]
          · dsimp only at used ⊢
            omega
      · obtain ⟨remaining, remainingLeft, used⟩ := inductionHypothesis othersLeft
        refine ⟨own + remaining, ?_, ?_⟩
        · simp [failuresLeft?, ownLeft, remainingLeft]
        · dsimp only
          omega

/-! ## Computations -/

/-- The backend without planned failures. -/
def Backend.calm (backend : Backend) : Backend := { backend with failures? := none }

/-- A backend without planned failures is reliable. -/
theorem Backend.reliable_calm (backend : Backend) : backend.calm.Reliable := Or.inl rfl

/--
A computation adds no failures to those left, and goes as it would without any
unless it uses one of them up.
-/
def Spends {Answer : Type} (computation : StoreM Answer) : Prop :=
  ∀ backend count,
    backend.failuresLeft? = some count →
    ∃ rest ≤ count,
      (computation backend).2.failuresLeft? = some rest ∧
        (computation backend.calm = ((computation backend).1, (computation backend).2.calm) ∨
          rest < count)

namespace Spends

variable {Answer Other : Type}

/-- A computation without calls uses up no failure. -/
theorem pure (answer : Answer) : Spends (pure answer) :=
  fun _ count left => ⟨count, Nat.le_refl count, left, Or.inl rfl⟩

/-- Two computations in a row use up failures as each of them does. -/
theorem bind
    {computation : StoreM Other}
    {next : Other → StoreM Answer}
    (first : Spends computation)
    (second : ∀ answer, Spends (next answer)) :
    Spends (computation >>= next) := by
  intro backend count left
  obtain ⟨between, betweenLe, betweenLeft, goes⟩ := first backend count left
  obtain ⟨rest, restLe, restLeft, goesOn⟩ := second _ _ between betweenLeft
  refine ⟨rest, Nat.le_trans restLe betweenLe, restLeft, ?_⟩
  rcases goes with same | used
  · rcases goesOn with sameAgain | used
    · refine Or.inl ?_
      rw [bind_apply, same]
      exact sameAgain
    · exact Or.inr (Nat.lt_of_lt_of_le used betweenLe)
  · exact Or.inr (Nat.lt_of_le_of_lt restLe used)

/-- What leaves the planned failures alone spends none. -/
theorem modify
    {change : Backend → Backend}
    (untouched : ∀ backend, (change backend).failures? = backend.failures?)
    (apart : ∀ backend, change backend.calm = (change backend).calm) :
    Spends (modify change : StoreM Unit) := by
  intro backend count left
  refine ⟨count, Nat.le_refl count, ?_, Or.inl ?_⟩
  · show (change backend).failuresLeft? = some count
    rw [Backend.failuresLeft?, untouched]
    exact left
  · exact Prod.ext rfl (apart backend)

end Spends

/-! ## Calls -/

namespace Backend

variable {Value : Type}

/-- A call meets the plans of a backend that can fail. -/
theorem meet_eq_of_planned
    {backend : Backend}
    {planned : FailurePlan}
    (plan : backend.failures? = some planned)
    (call : StoreCall) :
    meet call backend =
      ((planned.outages.meet call).1.elim (.ok ()) .error,
        { backend with
          failures? := some { planned with outages := (planned.outages.meet call).2 } }) := by
  obtain ⟨name, exact, tunable, failures?, nextId, settings, history, journal⟩ := backend
  cases plan
  have got : (get : StoreM Backend) = fun backend => (backend, backend) := rfl
  rw [meet, got]
  cases failure : (planned.outages.meet call).1 with
  | none =>
      simp only [bind, StateT.bind, failure]
      rfl
  | some cause =>
      simp only [bind, StateT.bind, failure]
      rfl

/-- A call goes as it would without failures unless it meets one. -/
theorem spends_meet (call : StoreCall) : Spends (meet call) := by
  intro backend count left
  have calm := backend.reliable_calm.meet_eq call
  cases plan : backend.failures? with
  | none =>
      have same : backend.calm = backend := by
        rw [Backend.calm, ← plan]
      rw [same] at calm ⊢
      rw [calm]
      exact ⟨count, Nat.le_refl count, left, Or.inl (by rw [same])⟩
  | some planned =>
      rw [failuresLeft?, plan] at left
      obtain ⟨rest, restLeft, used⟩ := planned.outages.failuresLeft?_meet call left
      rw [calm, meet_eq_of_planned plan]
      cases failure : (planned.outages.meet call).1 with
      | none =>
          rw [failure] at used
          exact ⟨rest, used, restLeft, Or.inl rfl⟩
      | some cause =>
          rw [failure] at used
          exact ⟨rest, Nat.le_of_lt used, restLeft, Or.inr used⟩

theorem spends_remember (call : StoreCall) (store : StoreId) : Spends (remember call store) :=
  .modify (fun _ => rfl) fun _ => rfl

/-- A question goes as it would without failures unless it meets one. -/
theorem spends_consult
    {Answer : Type}
    (call : StoreCall)
    (store : OrderedStore Value)
    (answer : Except StoreError Answer) :
    Spends (consult call store answer) := by
  refine (spends_remember call store.id).bind ?_
  intro _
  refine (spends_meet call).bind ?_
  rintro (cause | ⟨⟩)
  · exact .pure _
  · exact .pure _

end Backend

/-! ## Cursors over a store -/

namespace StoreCursor

variable {Value : Type}

/-- A new store cursor is made unless a failure is used up. -/
theorem spends_new (store : OrderedStore Value) (order : Order Value) :
    Spends (new store order) := by
  refine (Backend.spends_consult .browse store _).bind ?_
  rintro (cause | browser)
  · exact .pure _
  · exact .pure _

/-- A placement of a store cursor goes as planned unless a failure is used up. -/
theorem spends_reposition (cursor : StoreCursor Value) (start : BrowseStart Value) :
    Spends (cursor.reposition start) := by
  refine (Backend.spends_consult .browse cursor.store _).bind ?_
  rintro (cause | browser)
  · exact .pure _
  · exact .pure _

/-- A step forward of a store cursor goes as planned unless a failure is used up. -/
theorem spends_stepForward (cursor : StoreCursor Value) (behind ahead : List Value) :
    Spends (cursor.stepForward behind ahead) := by
  induction ahead generalizing behind with
  | nil =>
      refine (Backend.spends_meet .next).bind ?_
      rintro (cause | ⟨⟩)
      · exact .pure _
      · exact .pure _
  | cons value ahead inductionHypothesis =>
      refine (Backend.spends_meet .next).bind ?_
      rintro (cause | ⟨⟩)
      · exact .pure _
      · dsimp only
        split
        · exact inductionHypothesis (value :: behind)
        · exact .pure _

/-- A step backward of a store cursor goes as planned unless a failure is used up. -/
theorem spends_stepBackward (cursor : StoreCursor Value) (ahead behind : List Value) :
    Spends (cursor.stepBackward ahead behind) := by
  induction behind generalizing ahead with
  | nil =>
      refine (Backend.spends_meet .previous).bind ?_
      rintro (cause | ⟨⟩)
      · exact .pure _
      · exact .pure _
  | cons value behind inductionHypothesis =>
      refine (Backend.spends_meet .previous).bind ?_
      rintro (cause | ⟨⟩)
      · exact .pure _
      · dsimp only
        split
        · exact inductionHypothesis (value :: ahead)
        · exact .pure _

end StoreCursor

end OrderedIndex

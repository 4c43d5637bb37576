import OrderedIndex.Cursor
import OrderedIndex.Proofs.Store.PlannedFailures

namespace OrderedIndex.Cursor

/-!
# Scans that try again

A scan makes one step after the other until a step finds nothing more, and tries
a step that has failed again.  Where a failed step leaves the same elements
ahead, no failure makes the scan show an element twice or pass over one, and once
the failures have run out it gets to the end.
-/

variable {State Element : Type} [Cursor State Element]

/-- What a scan has come to. -/
structure Scan (Element : Type) where
  /-- What the cursor shows after each step that has found an element. -/
  shown : List (Except IndexError Element)
  /-- Number of steps that have failed. -/
  failures : Nat
  /-- Whether a step has found nothing more. -/
  ended : Bool

/-- Make steps, as many as are attempted at most, failed ones included. -/
def scan (step : State → StoreM (Moved Bool State)) :
    (attempts : Nat) → State → StoreM (Scan Element)
  | 0, _ => return ⟨[], 0, false⟩
  | attempts + 1, state => do
      match ← step state with
      | (.error _, failed) =>
          let rest ← scan step attempts failed
          return { rest with failures := rest.failures + 1 }
      | (.ok true, moved) =>
          let rest ← scan step attempts moved
          return { rest with shown := get moved :: rest.shown }
      | (.ok false, _) => return ⟨[], 0, true⟩

/-- A step shows the first of the elements ahead, if there is one, or fails and keeps them ahead. -/
def Crosses
    (regime : Regime)
    (ahead : State → List Element → Prop)
    (elements : List Element) :
    Moved Bool State → Prop
  | (.error _, failed) => regime.mayFail ∧ ahead failed elements
  | (.ok true, moved) =>
      ∃ element rest, elements = element :: rest ∧ get moved = .ok element ∧ ahead moved rest
  | (.ok false, _) => elements = []

/-- Steps over the elements ahead of a cursor that can be tried again. -/
structure Retriable
    (step : State → StoreM (Moved Bool State))
    (ahead : State → List Element → Prop) :
    Prop where
  spends : ∀ state, Spends (step state)
  crosses :
    ∀ regime {state elements},
      ahead state elements →
      Ensures regime (step state) (Crosses regime ahead elements)

/--
How a scan over elements compares with its attempts: it shows the elements in
their order, all of them if it has ended, and until then every attempt has shown
one or has failed.
-/
structure Scan.Covers (scan : Scan Element) (elements : List Element) (attempts : Nat) : Prop where
  in_order : scan.shown <+: elements.map .ok
  complete : scan.ended = true → scan.shown = elements.map .ok
  attempts_eq : scan.ended = false → scan.shown.length + scan.failures = attempts

variable
  {step : State → StoreM (Moved Bool State)}
  {ahead : State → List Element → Prop}
  {state : State}
  {elements : List Element}

namespace Scan

variable {scan : Scan Element} {attempts : Nat}

/-- An attempt that fails is one more failure of the scan that goes on. -/
theorem Covers.failed (covers : scan.Covers elements attempts) :
    Covers { scan with failures := scan.failures + 1 } elements (attempts + 1) where
  in_order := covers.in_order
  complete := covers.complete
  attempts_eq stillOpen := congrArg (· + 1) (covers.attempts_eq stillOpen)

/-- An attempt that finds an element shows it in front of the others. -/
theorem Covers.found
    (covers : scan.Covers elements attempts)
    (element : Element) :
    Covers { scan with shown := .ok element :: scan.shown } (element :: elements)
      (attempts + 1) where
  in_order := (List.prefix_cons_inj _).mpr covers.in_order
  complete ended := congrArg (.ok element :: ·) (covers.complete ended)
  attempts_eq stillOpen := by
    have counted := covers.attempts_eq stillOpen
    simp only [List.length_cons]
    omega

/-- A scan with an attempt for each element and failure, and one more, has ended. -/
theorem Covers.ended
    (covers : scan.Covers elements attempts)
    (enough : elements.length + scan.failures < attempts) :
    scan.ended = true := by
  cases ended : scan.ended with
  | true =>
      rfl
  | false =>
      have counted := covers.attempts_eq ended
      have fewer := covers.in_order.length_le
      rw [List.length_map] at fewer
      omega

end Scan

namespace Retriable

/-- Whatever fails, a scan shows the elements ahead in their order. -/
theorem covers
    (retriable : Retriable step ahead)
    (isAhead : ahead state elements)
    (attempts : Nat)
    (backend : Backend) :
    (scan step attempts state backend).1.Covers elements attempts := by
  induction attempts generalizing state elements backend with
  | zero =>
      refine ⟨List.nil_prefix, ?_, fun _ => rfl⟩
      intro ended
      contradiction
  | succ attempts inductionHypothesis =>
      have crosses := (retriable.crosses .arbitrary isAhead backend trivial).1
      rw [scan, bind_apply]
      generalize step state backend = stepped at crosses ⊢
      obtain ⟨⟨cause | _ | _, moved⟩, later⟩ := stepped
      · exact (inductionHypothesis crosses.2 later).failed
      · cases crosses
        refine ⟨List.nil_prefix, fun _ => rfl, ?_⟩
        intro stillOpen
        contradiction
      · obtain ⟨element, rest, rfl, shown, isAhead⟩ := crosses
        have covers := (inductionHypothesis isAhead later).found element
        rw [← shown] at covers
        exact covers

/-- A scan meets no more failures than are planned. -/
theorem failures_le
    (retriable : Retriable step ahead)
    (isAhead : ahead state elements)
    (attempts : Nat)
    {backend : Backend}
    {count : Nat}
    (left : backend.failuresLeft? = some count) :
    (scan step attempts state backend).1.failures ≤ count := by
  induction attempts generalizing state elements backend count with
  | zero =>
      exact Nat.zero_le count
  | succ attempts inductionHypothesis =>
      have crosses := (retriable.crosses .arbitrary isAhead backend trivial).1
      have calm := (retriable.crosses .reliable isAhead backend.calm backend.reliable_calm).1
      obtain ⟨rest, restLe, restLeft, goes⟩ := retriable.spends state backend count left
      rw [scan, bind_apply]
      generalize step state backend = stepped at crosses restLeft goes ⊢
      obtain ⟨⟨cause | _ | _, moved⟩, later⟩ := stepped
      · -- Without failures the step is answered, so this one has used up a failure.
        have used : rest < count := by
          rcases goes with same | used
          · rw [same] at calm
            exact calm.1.elim
          · exact used
        exact Nat.le_trans (Nat.succ_le_succ (inductionHypothesis crosses.2 restLeft)) used
      · exact Nat.zero_le count
      · obtain ⟨element, others, rfl, _, isAhead⟩ := crosses
        exact Nat.le_trans (inductionHypothesis isAhead restLeft) restLe

end Retriable

/--
Scans from a cursor show the given elements, each once and in order, as far as
they get; and they get to the end with an attempt for each element, one for each
failure, and one more.
-/
structure ScansTo
    (step : State → StoreM (Moved Bool State))
    (state : State)
    (elements : List Element) :
    Prop where
  covers :
    ∀ attempts backend,
      (scan step attempts state backend).1.Covers elements attempts
  enough :
    ∀ attempts backend,
      elements.length + (scan step attempts state backend).1.failures < attempts →
      (scan step attempts state backend).1.ended = true
  failures_le :
    ∀ attempts backend count,
      backend.failuresLeft? = some count →
      (scan step attempts state backend).1.failures ≤ count
  /-- A plan with an end cannot keep a scan from all elements. -/
  complete :
    ∀ attempts backend count,
      backend.failuresLeft? = some count →
      elements.length + count < attempts →
      (scan step attempts state backend).1.shown = elements.map .ok

theorem Retriable.scansTo
    (retriable : Retriable step ahead)
    (isAhead : ahead state elements) :
    ScansTo step state elements where
  covers := retriable.covers isAhead
  enough attempts backend := (retriable.covers isAhead attempts backend).ended
  failures_le attempts _ _ left := retriable.failures_le isAhead attempts left
  complete attempts backend count left enough := by
    have covers := retriable.covers isAhead attempts backend
    have met := retriable.failures_le isAhead attempts left
    exact covers.complete (covers.ended (by omega))

end OrderedIndex.Cursor

import OrderedIndex.Proofs.Cursor.Likeness
import OrderedIndex.Proofs.Table.ValueCursor

namespace OrderedIndex

/-!
# Failed moves among the values of a key

A move over a redirected group may fail after its browser has crossed the value
that the cursor is on.  The browser is then on the other side of that value, but
the cursor is where it was: from either side the next steps find the same.
-/

variable {Value : Type} {order : Order Value}

/-! ## Where the browser is -/

/-- A browser over all values, beside the value that its cursor is on. -/
structure StoreCursor.Beside
    (values : List Value)
    (cursor : StoreCursor Value)
    (position : Position) :
    Prop where
  toList_eq : cursor.browser.toList = values
  gap_eq :
    ∀ value,
      cursor.current = some value →
      ∃ place,
        position = .on place ∧
          values[place]? = some value ∧
            (cursor.browser.gap = place ∨ cursor.browser.gap = place + 1)

theorem StoreCursor.Stands.beside
    {values : List Value}
    {cursor : StoreCursor Value}
    {position : Position}
    (stands : Stands order values cursor position) :
    cursor.Beside values position := by
  cases stands with
  | gap _ values_eq browser_eq current_eq =>
      refine ⟨?_, ?_⟩
      · rw [browser_eq, Browser.toList, List.reverse_reverse, values_eq]
      · intro value isOn
        rw [current_eq] at isOn
        contradiction
  | @on below above stored _ values_eq browser_eq current_eq =>
      refine ⟨?_, ?_⟩
      · rcases browser_eq with browser_eq | browser_eq <;>
          simp [browser_eq, Browser.toList, values_eq]
      · intro value isOn
        rw [current_eq] at isOn
        cases isOn
        refine ⟨below.length, rfl, by simp [values_eq], ?_⟩
        rcases browser_eq with browser_eq | browser_eq
        · exact Or.inl (by simp [browser_eq, Browser.gap])
        · exact Or.inr (by simp [browser_eq, Browser.gap])

namespace ValueCursor

/-! ## Reached cursors -/

/-- Cursors over a group that are opened and moved over stores that may fail at any call. -/
inductive ReachedOver (group : Group Value) (order : Order Value) : ValueCursor Value → Prop where
  | opened
      {cursor : ValueCursor Value}
      (backend : Backend)
      (opens : (ofGroup group order backend).1 = .ok cursor) :
      ReachedOver group order cursor
  | moved
      {cursor : ValueCursor Value}
      (reached : ReachedOver group order cursor)
      (backend : Backend)
      (move : Move Value) :
      ReachedOver group order (Cursor.perform cursor move backend).1.2

/-- However a cursor was moved and whatever has failed, it stands somewhere. -/
theorem ReachedOver.exists_stands
    [Std.TransCmp order]
    {group : Group Value}
    {cursor : ValueCursor Value}
    (sound : group.Sound order)
    (reached : ReachedOver group order cursor) :
    ∃ position, Stands order group.toList cursor position := by
  induction reached with
  | opened backend opens =>
      have opened := (@ensures_ofGroup .arbitrary _ _ _ sound backend trivial).1
      rw [opens] at opened
      exact ⟨.gap 0, opened⟩
  | moved _ backend move inductionHypothesis =>
      obtain ⟨position, stands⟩ := inductionHypothesis
      have follows : Cursor.Follows .arbitrary order group.toList (Stands order group.toList) :=
        follows
      exact (follows.settles stands move backend trivial).1.exists_stands

/-- A step after a placement of a cursor over a store leaves one over a store. -/
theorem exists_redirected_thenStep
    {step : ValueCursor Value → StoreM (Moved Bool (ValueCursor Value))}
    (steps :
      ∀ stored backend, ∃ moved, (step (.redirected stored) backend).1.2 = .redirected moved)
    (placed : Moved Unit (StoreCursor Value))
    (backend : Backend) :
    ∃ moved, (Cursor.thenStep step (ofStore placed) backend).1.2 = redirected moved := by
  obtain ⟨cause | ⟨⟩, stored⟩ := placed
  · exact ⟨stored, rfl⟩
  · exact steps stored backend

/-- A cursor over a store stays one. -/
theorem exists_redirected_perform
    (stored : StoreCursor Value)
    (move : Move Value)
    (backend : Backend) :
    ∃ moved, (Cursor.perform (redirected stored) move backend).1.2 = .redirected moved := by
  have nextSteps (stored : StoreCursor Value) (backend : Backend) :
      ∃ moved, (next (redirected stored) backend).1.2 = .redirected moved :=
    ⟨_, rfl⟩
  have previousSteps (stored : StoreCursor Value) (backend : Backend) :
      ∃ moved, (previous (redirected stored) backend).1.2 = .redirected moved :=
    ⟨_, rfl⟩
  cases move with
  | first =>
      exact exists_redirected_thenStep nextSteps (stored.reposition .first backend).1 _
  | last =>
      exact exists_redirected_thenStep previousSteps (stored.reposition .last backend).1 _
  | _ =>
      exact ⟨_, rfl⟩

theorem ReachedOver.exists_redirected
    {store : OrderedStore Value}
    {cursor : ValueCursor Value}
    (reached : ReachedOver (.redirected store) order cursor) :
    ∃ stored, cursor = .redirected stored := by
  induction reached with
  | opened backend opens =>
      replace opens : (StoreCursor.new store order backend).1.map redirected = .ok _ := opens
      cases answer : (StoreCursor.new store order backend).1 with
      | error cause =>
          rw [answer] at opens
          contradiction
      | ok stored =>
          rw [answer] at opens
          exact ⟨stored, (Except.ok.inj opens).symm⟩
  | moved _ backend move inductionHypothesis =>
      obtain ⟨stored, rfl⟩ := inductionHypothesis
      exact exists_redirected_perform stored move backend

/-! ## Failed moves -/

/--
Where a cursor over a redirected group is, and that single moves which fail
leave it there.
-/
structure KeepsPlace
    (order : Order Value)
    (values : List Value)
    (cursor : ValueCursor Value)
    (position : Position) :
    Prop where
  beside : ∃ stored, cursor = .redirected stored ∧ stored.Beside values position
  shows : Cursor.Shows order values cursor position
  /-- A failed move might as well not have been made. -/
  failed_looksLike :
    ∀ backend (move : Move Value) cause,
      move.isSingle = true →
      (Cursor.perform cursor move backend).1.1 = .error cause →
      Cursor.LooksLike (Cursor.perform cursor move backend).1.2 cursor
  /-- Of moves over stores that fail, those that are answered make a run of their own. -/
  answered_eq :
    ∀ backend moves,
      let seen := (Cursor.run cursor moves backend).1.1
      let answered := Cursor.answered moves seen
      (∀ made ∈ moves.zip seen, made.2.result.isOk = false → made.1.isSingle = true) →
      answered.map Prod.snd =
        (Position.run values (Position.perform order values) position
          (answered.map Prod.fst)).1

/--
However a cursor over a redirected group was moved and whatever calls have
failed, its browser is beside the value that it is on.  A single move that fails
leaves a cursor that cannot be told from the one before it, and along a run with
failures the moves that are answered show what they would without the others.
-/
theorem ReachedOver.keepsPlace
    [Std.TransCmp order]
    {store : OrderedStore Value}
    {cursor : ValueCursor Value}
    (sound : (Group.redirected store).Sound order)
    (reached : ReachedOver (.redirected store) order cursor) :
    ∃ position, KeepsPlace order store.values cursor position := by
  obtain ⟨position, stands⟩ := reached.exists_stands sound
  have shows {cursor : ValueCursor Value} (stands : Stands order store.values cursor position) :
      Cursor.Shows order store.values cursor position :=
    follows.shows stands
  have follows : Cursor.Follows .arbitrary order store.values (Stands order store.values) :=
    follows
  refine ⟨position, ?_, shows stands, ?_, ?_⟩
  · obtain ⟨stored, rfl⟩ := reached.exists_redirected
    cases stands with
    | redirected stands =>
        exact ⟨stored, rfl, stands.beside⟩
  · intro backend move cause isSingle failed
    have settled := (follows.settles stands move backend trivial).1
    rcases moved : (Cursor.perform cursor move backend).1 with ⟨given | report, after⟩
    · rw [moved] at settled
      exact (shows (settled.2.2 isSingle)).looksLike (shows stands)
    · rw [moved] at failed
      contradiction
  · intro backend moves
    exact (follows.run_answered stands moves backend trivial).1

/-- The values `10` and `20` in a store, in the order of halves. -/
def pairStore : OrderedStore Nat := ⟨1, Order.byRank (· / 2), [10, 20], false⟩

/-- The cursor on the second of the two values, with its browser behind it. -/
def onSecond : ValueCursor Nat :=
  .redirected ⟨pairStore, pairStore.order, ⟨[20, 10], []⟩, some 20⟩

theorem reachedOver_onSecond : ReachedOver (.redirected pairStore) pairStore.order onSecond := by
  have opened :
      ReachedOver (.redirected pairStore) pairStore.order
        (.redirected ⟨pairStore, pairStore.order, ⟨[], [10, 20]⟩, none⟩) :=
    .opened (.memory 2 .empty) rfl
  exact (opened.moved (.memory 2 .empty) .next).moved (.memory 2 .empty) .next

/-- The way back fails once the browser is in front of the second value. -/
theorem keepsPlace_onSecond :
    let blocked : Backend :=
      .faulty true none [(.previous, .plan (.io .timedOut) 1 none none)] 2 .empty
    ∃ failed : StoreCursor Nat,
      (Cursor.perform onSecond .previous blocked).1 =
          (.error (.ofStore (.io .timedOut)), .redirected failed) ∧
        failed.browser = ⟨[10], [20]⟩ ∧
          Cursor.LooksLike (redirected failed) onSecond := by
  intro blocked
  have ascending : Order.Ascending pairStore.order pairStore.values := by
    unfold Order.Ascending
    decide
  have lawful : Std.TransCmp pairStore.order := Order.byRank_transCmp _
  have sound : (Group.redirected pairStore).Sound pairStore.order := ⟨rfl, rfl, ascending⟩
  obtain ⟨position, keeps⟩ := ReachedOver.keepsPlace sound reachedOver_onSecond
  exact ⟨_, rfl, rfl, keeps.failed_looksLike blocked .previous _ rfl rfl⟩

end ValueCursor

end OrderedIndex

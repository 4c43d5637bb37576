import OrderedIndex.Proofs.Table.Failures
import OrderedIndex.Proofs.Table.Navigation

namespace OrderedIndex

/-!
# Failing moves

A table cursor whose moves may fail is at some place among the tuples, and may
show a tuple beside that place or none.  A failed step keeps what is shown, but
once it has opened a store on its way the cursor has left its tuple.  A failed
placement shows nothing any more, and once it has entered a group the cursor is
in front of that group.  How far a failed move has come, its calls tell.
-/

variable {regime : Regime} {Key Value : Type}

/-! ## Where failed moves leave a cursor -/

namespace TableMove

/-- Whether a move goes to an adjacent tuple. -/
def isStep : TableMove Key Value → Bool
  | .plain .next => true
  | .plain .previous => true
  | _ => false

theorem eq_of_isStep
    {move : TableMove Key Value}
    (isStep : move.isStep = true) :
    move = .plain .next ∨ move = .plain .previous := by
  unfold TableMove.isStep at isStep
  split at isStep
  · exact Or.inl rfl
  · exact Or.inr rfl
  · contradiction

/--
Where a failed move that has made the given calls leaves a cursor.  A step that
has opened a store has left its tuple, and a placement that has made a second
call has entered the group that it looked for.
-/
def leaves
    (spec : TableSpec Key Value)
    (tuples : List (Tuple Key Value))
    (position : Position)
    (events : List StoreEvent) :
    TableMove Key Value → Position
  | .plain .next => if events = [] then position else .gap position.ahead
  | .plain .previous => if events = [] then position else .gap position.behind
  | .plain .first => .gap 0
  | .plain .last => .gap tuples.length
  | .plain .beforeFirst => position
  | .plain .afterLast => position
  | .plain (.before tuple) =>
      if events.length = 1 then position else .before (spec.probeTuple tuple.key) tuples
  | .plain (.after tuple) =>
      if events.length = 1 then position else .before (spec.probeTuple tuple.key) tuples
  | .beforeKey _ => position
  | .afterKey _ => position

variable
  {table : Table Key Value}
  {stops : List (Stop Key Value)}
  {cursor : TableCursor Key Value}
  {position : Position}

open TableCursor

/-- A move leads where the position leads, or fails and is interrupted on its way. -/
theorem performs
    (ordered : table.OrderedStops stops)
    (positioned : Positioned table stops cursor position)
    (move : TableMove Key Value) :
    Performs regime (perform cursor move)
      (regime.Reaches (TableCursor.Stands table stops)
        (performOnList table.spec (listing stops) position move) fun failed events =>
          Interrupted table stops cursor (move.isStep && cursor.available)
            (move.leaves table.spec (listing stops) position events) failed) := by
  cases move with
  | plain move =>
      cases move with
      | next =>
          exact Cursor.reaches_found (positioned.performs_next ordered)
      | previous =>
          exact Cursor.reaches_found (positioned.performs_previous ordered)
      | first =>
          have front : Positioned table stops cursor.beforeFirst (.gap 0) :=
            (Stands.to_beforeFirst positioned.table_eq).positioned
          refine (Cursor.reaches_found (front.performs_next ordered)).weaken ?_
          rintro ⟨cause | answer, after⟩ events reached
          · obtain ⟨mayFail, interrupted⟩ := reached
            rw [Position.ahead, ite_self] at interrupted
            exact ⟨mayFail, interrupted.positioned, interrupted.available_eq,
              interrupted.tuple_eq⟩
          · exact reached
      | last =>
          have back :
              Positioned table stops cursor.afterLast (.gap (listing stops).length) :=
            (Stands.to_afterLast positioned.table_eq).positioned
          refine (Cursor.reaches_found (back.performs_previous ordered)).weaken ?_
          rintro ⟨cause | answer, after⟩ events reached
          · obtain ⟨mayFail, interrupted⟩ := reached
            rw [Position.behind, ite_self] at interrupted
            exact ⟨mayFail, interrupted.positioned, interrupted.available_eq,
              interrupted.tuple_eq⟩
          · exact reached
      | beforeFirst =>
          exact .pure ⟨rfl, .to_beforeFirst positioned.table_eq⟩
      | afterLast =>
          exact .pure ⟨rfl, .to_afterLast positioned.table_eq⟩
      | before tuple =>
          exact Cursor.reaches_placed (positioned.performs_before ordered tuple)
      | after tuple =>
          exact Cursor.reaches_placed (positioned.performs_after ordered tuple)
  | beforeKey key =>
      exact Cursor.reaches_placed (positioned.performs_beforeKey ordered key)
  | afterKey key =>
      exact Cursor.reaches_placed (positioned.performs_afterKey ordered key)

/-- The move of a cursor over some backend, whatever fails. -/
theorem reaches_perform
    (ordered : table.OrderedStops stops)
    (positioned : Positioned table stops cursor position)
    (move : TableMove Key Value)
    (backend : Backend) :
    Regime.arbitrary.Reaches (TableCursor.Stands table stops)
      (performOnList table.spec (listing stops) position move)
      (fun failed events =>
        Interrupted table stops cursor (move.isStep && cursor.available)
          (move.leaves table.spec (listing stops) position events) failed)
      (perform cursor move backend).1 (backend.eventsOf (perform cursor move)) :=
  (performs ordered positioned move).post_eventsOf (by trivial : Regime.arbitrary.admits _)

end TableMove

/-! ## Places of cursors whose moves may fail -/

namespace TableCursor

variable
  {table : Table Key Value}
  {stops : List (Stop Key Value)}
  {cursor : TableCursor Key Value}
  {position : Position}

/-- A cursor at a position, showing a tuple beside it or none. -/
structure Sighted
    (table : Table Key Value)
    (stops : List (Stop Key Value))
    (cursor : TableCursor Key Value)
    (position : Position) :
    Prop extends Positioned table stops cursor position where
  touches :
    ∀ tuple,
      cursor.get = .ok tuple →
      ∃ place, (listing stops)[place]? = some tuple ∧ position.Touches place

theorem Stands.sighted (stands : Stands table stops cursor position) :
    Sighted table stops cursor position where
  toPositioned := stands.positioned
  touches tuple shown := by
    rw [stands.get_eq] at shown
    cases position with
    | gap place =>
        contradiction
    | on place =>
        refine ⟨place, ?_, Or.inl rfl⟩
        have inside : place < (listing stops).length := stands.place.within_listing
        rw [Position.get, List.getElem?_eq_getElem inside] at shown
        rw [List.getElem?_eq_getElem inside, Except.ok.inj shown]

/-- What a cursor shows after a failed move: as before, or after placements nothing. -/
theorem Interrupted.get_eq
    {after : TableCursor Key Value}
    {isStep : Bool}
    (interrupted :
      Interrupted table stops cursor (isStep && cursor.available) position after) :
    after.get = if isStep then cursor.get else .error .invalidPosition := by
  unfold get
  rw [interrupted.available_eq, interrupted.tuple_eq]
  cases isStep with
  | true =>
      rfl
  | false =>
      cases cursor.tuple <;> rfl

/-- A failed move keeps the shown tuple beside the cursor. -/
theorem Sighted.interrupted
    (sighted : Sighted table stops cursor position)
    {move : TableMove Key Value}
    {events : List StoreEvent}
    {after : TableCursor Key Value}
    (interrupted :
      Interrupted table stops cursor (move.isStep && cursor.available)
        (move.leaves table.spec (listing stops) position events) after) :
    Sighted table stops after (move.leaves table.spec (listing stops) position events) := by
  refine ⟨interrupted.positioned, ?_⟩
  intro tuple shown
  rw [interrupted.get_eq] at shown
  split at shown
  next isStep =>
    obtain ⟨place, found, touches⟩ := sighted.touches tuple shown
    refine ⟨place, found, ?_⟩
    rcases TableMove.eq_of_isStep isStep with rfl | rfl
    · rw [TableMove.leaves]
      split
      · exact touches
      · exact touches.ahead
    · rw [TableMove.leaves]
      split
      · exact touches
      · exact touches.behind
  next =>
    contradiction

/-- However a cursor was moved and whatever has failed, it is at some place. -/
theorem Reached.sighted
    (ordered : table.OrderedStops stops)
    (reached : Reached table cursor) :
    ∃ position, Sighted table stops cursor position := by
  induction reached with
  | opened =>
      exact ⟨_, (stands_cursor stops).sighted⟩
  | @moved cursor _ backend move inductionHypothesis =>
      obtain ⟨position, sighted⟩ := inductionHypothesis
      have outcome := TableMove.reaches_perform ordered sighted.toPositioned move backend
      rcases moved : (move.perform cursor backend).1 with ⟨cause | report, after⟩
      · rw [moved] at outcome
        exact ⟨_, sighted.interrupted outcome.2⟩
      · rw [moved] at outcome
        exact ⟨_, outcome.2.sighted⟩

/-! ## What moves show -/

/--
Where a cursor is among the tuples of its table: what its answered moves show,
whatever stores fail, and what its moves show over stores that do not fail.
-/
structure IsAt
    (table : Table Key Value)
    (cursor : TableCursor Key Value)
    (position : Position) :
    Prop where
  within : position.Within (table.toList.map Tuple.ofPair).length
  answered :
    ∀ (backend : Backend) (move : TableMove Key Value) report,
      (move.perform cursor backend).1.1 = .ok report →
      let expected :=
        TableMove.performOnList table.spec (table.toList.map Tuple.ofPair) position move
      report = expected.1 ∧
        (move.perform cursor backend).1.2.get = expected.2.get (table.toList.map Tuple.ofPair)
  run_eq :
    ∀ backend,
      backend.Reliable →
      ∀ moves,
        (TableMove.run cursor moves backend).1.1 =
          (Position.run (table.toList.map Tuple.ofPair)
            (TableMove.performOnList table.spec (table.toList.map Tuple.ofPair)) position moves).1

/-- Two cursors that cannot be told apart, now or by moves over stores that do not fail. -/
structure LooksLike (cursor other : TableCursor Key Value) : Prop where
  available_eq : cursor.available = other.available
  get_eq : cursor.get = other.get
  run_eq :
    ∀ backend,
      backend.Reliable →
      ∀ moves,
        (TableMove.run cursor moves backend).1.1 = (TableMove.run other moves backend).1.1

/-- Over stores that do not fail, what a cursor shows first does not matter for its moves. -/
theorem Positioned.ensures_run
    (ordered : table.OrderedStops stops)
    (positioned : Positioned table stops cursor position)
    (moves : List (TableMove Key Value)) :
    Ensures .reliable (TableMove.run cursor moves) fun outcome =>
      outcome.1 =
        (Position.run (listing stops) (TableMove.performOnList table.spec (listing stops))
          position moves).1 := by
  induction moves generalizing cursor position with
  | nil =>
      exact Ensures.pure rfl
  | cons move rest inductionHypothesis =>
      refine Ensures.bind ((TableMove.performs ordered positioned move).leads position) ?_
      rintro ⟨cause | report, moved⟩ led
      · exact led.1.elim
      · obtain ⟨rfl, stands⟩ := led
        refine Ensures.bind (inductionHypothesis stands.positioned) ?_
        rintro ⟨observations, final⟩ observed
        refine Ensures.pure ?_
        dsimp only at observed
        rw [Position.run_cons, ← observed, ← stands.available_eq, ← stands.get_eq]
        rfl

theorem Positioned.isAt
    (ordered : table.OrderedStops stops)
    (positioned : Positioned table stops cursor position) :
    IsAt table cursor position := by
  have listing_eq := ordered.listing_eq
  refine ⟨?_, ?_, ?_⟩
  · rw [← listing_eq]
    exact positioned.place.within_listing
  · intro backend move report answered
    have outcome := TableMove.reaches_perform ordered positioned move backend
    rcases moved : (move.perform cursor backend).1 with ⟨cause | given, after⟩
    · rw [moved] at answered
      contradiction
    · rw [moved] at answered outcome
      cases answered
      rw [← listing_eq]
      exact ⟨outcome.1, outcome.2.get_eq⟩
  · intro backend reliable moves
    rw [← listing_eq]
    exact (positioned.ensures_run ordered moves backend reliable).1

/-- No tuple is listed twice. -/
theorem nodup_listing (ordered : table.OrderedStops stops) : (listing stops).Nodup := by
  have lawfulKeys := ordered.lawfulKeys
  have lawfulValues := ordered.lawfulValues
  refine ordered.ascending_listing.imp ?_
  rintro tuple _ before rfl
  have sameKey : table.spec.keys tuple.key tuple.key = .eq := Std.ReflCmp.compare_self
  have sameValue : table.spec.valueOrder tuple.value tuple.value = .eq := Std.ReflCmp.compare_self
  rw [order_of_eq tuple tuple sameKey, sameValue] at before
  contradiction

/-- Cursors whose moves show the same are at the same place. -/
theorem IsAt.eq_of_looksLike
    {other : TableCursor Key Value}
    {otherPosition : Position}
    (distinct : (table.toList.map Tuple.ofPair).Nodup)
    (isAt : IsAt table cursor position)
    (otherIsAt : IsAt table other otherPosition)
    (looks : cursor.LooksLike other) :
    position = otherPosition := by
  have reliable : Backend.Reliable (.memory 1 .empty) := Or.inl rfl
  have shows (move : TableMove Key Value) := looks.run_eq _ reliable [move]
  simp only [isAt.run_eq _ reliable, otherIsAt.run_eq _ reliable, Position.run_cons] at shows
  have next := shows (.plain .next)
  have previous := shows (.plain .previous)
  simp only [TableMove.performOnList, Position.perform, Position.found, List.cons.injEq,
    Cursor.Observation.mk.injEq, Except.ok.injEq, Report.found.injEq] at next previous
  refine Position.eq_of_sides ?_ ?_
  · exact Position.behind_eq_of_previous distinct isAt.within otherIsAt.within previous.1.1
      previous.1.2.2
  · exact Position.ahead_eq_of_next distinct isAt.within otherIsAt.within next.1.1 next.1.2.2

/--
A cursor at a place shows a tuple that the place touches, or none.  A step then
shows the adjacent tuple, unless the cursor was in the gap on the side of the
step: then it shows the same tuple again.
-/
structure ShowsBeside
    (table : Table Key Value)
    (cursor : TableCursor Key Value)
    (position : Position)
    (tuple : Tuple Key Value)
    (place : Nat) :
    Prop where
  listed : (table.toList.map Tuple.ofPair)[place]? = some tuple
  touches : position.Touches place
  next :
    ∀ backend,
      ((TableMove.plain .next).perform cursor backend).1.1 = .ok (.found true) →
      ((TableMove.plain .next).perform cursor backend).1.2.get =
        (Position.on (if position = .gap place then place else place + 1)).get
          (table.toList.map Tuple.ofPair)
  previous :
    ∀ backend,
      ((TableMove.plain .previous).perform cursor backend).1.1 = .ok (.found true) →
      ((TableMove.plain .previous).perform cursor backend).1.2.get =
        (Position.on (if position = .gap (place + 1) then place else place - 1)).get
          (table.toList.map Tuple.ofPair)

/-- What a failed move of a cursor at a position comes to, by the calls it has made. -/
structure FailsAs
    (table : Table Key Value)
    (move : TableMove Key Value)
    (position : Position)
    (events : List StoreEvent)
    (before after : TableCursor Key Value) :
    Prop where
  available_eq : after.available = (move.isStep && before.available)
  get_eq : after.get = if move.isStep then before.get else .error .invalidPosition
  isAt :
    IsAt table after
      (move.leaves table.spec (table.toList.map Tuple.ofPair) position events)
  /-- When the failed move might as well not have been made. -/
  looksLike_iff :
    after.LooksLike before ↔
      (move.isStep = true ∨ before.available = false) ∧
        move.leaves table.spec (table.toList.map Tuple.ofPair) position events = position

theorem IsAt.showsBeside
    (isAt : IsAt table cursor position)
    {tuple : Tuple Key Value}
    {place : Nat}
    (listed : (table.toList.map Tuple.ofPair)[place]? = some tuple)
    (touches : position.Touches place) :
    ShowsBeside table cursor position tuple place where
  listed := listed
  touches := touches
  next backend answered := by
    obtain ⟨found, shown⟩ := isAt.answered backend (.plain .next) _ answered
    rw [shown]
    exact congrArg _ (touches.next_eq (Report.found.inj found).symm)
  previous backend answered := by
    obtain ⟨found, shown⟩ := isAt.answered backend (.plain .previous) _ answered
    rw [shown]
    exact congrArg _ (touches.previous_eq (Report.found.inj found).symm)

/-- An interrupted cursor looks as before exactly if it shows the same from the same place. -/
theorem Interrupted.failsAs
    (ordered : table.OrderedStops stops)
    (positioned : Positioned table stops cursor position)
    {move : TableMove Key Value}
    {events : List StoreEvent}
    {after : TableCursor Key Value}
    (interrupted :
      Interrupted table stops cursor (move.isStep && cursor.available)
        (move.leaves table.spec (listing stops) position events) after) :
    FailsAs table move position events cursor after := by
  have isAt := positioned.isAt ordered
  have afterIsAt := interrupted.positioned.isAt ordered
  have distinct := nodup_listing ordered
  rw [ordered.listing_eq] at afterIsAt distinct
  refine ⟨interrupted.available_eq, interrupted.get_eq, afterIsAt, ?_, ?_⟩
  · intro looks
    refine ⟨?_, afterIsAt.eq_of_looksLike distinct isAt looks⟩
    have shows := interrupted.available_eq.symm.trans looks.available_eq
    cases isStep : move.isStep with
    | true =>
        exact Or.inl rfl
    | false =>
        rw [isStep, Bool.false_and] at shows
        exact Or.inr shows.symm
  · rintro ⟨shows, stays⟩
    rw [stays] at afterIsAt
    have available_eq : after.available = cursor.available := by
      rw [interrupted.available_eq]
      rcases shows with isStep | isGap
      · rw [isStep, Bool.true_and]
      · rw [isGap, Bool.and_false]
    refine ⟨available_eq, ?_, ?_⟩
    · rw [get, get, available_eq, interrupted.tuple_eq]
    · intro backend reliable moves
      rw [afterIsAt.run_eq backend reliable, isAt.run_eq backend reliable]

end TableCursor

/-- Every table that can come about is a chain of stops in order. -/
theorem Table.exists_orderedStops
    {table : Table Key Value}
    (reachable : table.Reachable ∨ table.ReachableWithFailures) :
    ∃ stops, table.OrderedStops stops := by
  rcases reachable with reachable | reachable
  · obtain ⟨stops, chain⟩ := reachable.sound.chain
    exact ⟨stops, chain.ordered reachable.sound⟩
  · obtain ⟨tree, policy, intact⟩ := reachable.intact
    obtain ⟨stops, chain⟩ := intact.chain
    exact ⟨stops, chain.ordered_of_intact intact⟩

namespace TableCursor

variable {table : Table Key Value} {cursor : TableCursor Key Value}

/--
However a cursor was moved and whatever calls have failed, it is at a place among
the tuples and shows one beside it or none.  A move that fails leaves it at a
place told by the calls it has made, and might as well not have been made exactly
if that is the place where the cursor was, and the move was a step or the cursor
showed nothing.
-/
theorem Reached.exists_isAt
    (reachable : table.Reachable ∨ table.ReachableWithFailures)
    (reached : Reached table cursor) :
    ∃ position,
      IsAt table cursor position ∧
        (∀ tuple,
          cursor.get = .ok tuple → ∃ place, ShowsBeside table cursor position tuple place) ∧
        ∀ backend (move : TableMove Key Value) cause,
          (move.perform cursor backend).1.1 = .error cause →
          FailsAs table move position (backend.eventsOf (move.perform cursor)) cursor
            (move.perform cursor backend).1.2 := by
  obtain ⟨stops, ordered⟩ := Table.exists_orderedStops reachable
  obtain ⟨position, sighted⟩ := reached.sighted ordered
  have positioned := sighted.toPositioned
  have isAt := positioned.isAt ordered
  refine ⟨position, isAt, ?_, ?_⟩
  · intro tuple shown
    obtain ⟨place, listed, touches⟩ := sighted.touches tuple shown
    rw [ordered.listing_eq] at listed
    exact ⟨place, isAt.showsBeside listed touches⟩
  · intro backend move cause failed
    have outcome := TableMove.reaches_perform ordered positioned move backend
    rcases moved : (move.perform cursor backend).1 with ⟨given | report, after⟩
    · rw [moved] at outcome
      exact outcome.2.failsAs ordered positioned
    · rw [moved] at failed
      contradiction

/-- A table with one value under the key `1` and with two under `2`, which are in a store. -/
def splitTable : Table Nat Nat :=
  TableChange.changedTable [.put 1 10, .put 2 20, .put 2 21]

/-- The cursor on the tuple under the key `1`. -/
def lastOfGroup : TableCursor Nat Nat :=
  ((TableMove.plain .next).perform splitTable.cursor (.memory 1 .empty)).1.2

theorem reached_lastOfGroup : Reached splitTable lastOfGroup :=
  .moved .opened (.memory 1 .empty) (.plain .next)

/-- A step that cannot open the next group leaves the cursor in the gap between the groups. -/
theorem exists_isAt_lastOfGroup :
    ∃ failed : TableCursor Nat Nat, ∃ position,
      ((TableMove.plain .next).perform lastOfGroup (TableChange.timingOut .browse 0)).1 =
          (.error (.ofStore (.io .timedOut)), failed) ∧
        IsAt splitTable lastOfGroup position ∧
          IsAt splitTable failed (.gap position.ahead) ∧ failed.get = .ok ⟨1, 10⟩ := by
  have reachable := TableChange.reachable_changedTable [.put 1 10, .put 2 20, .put 2 21]
  obtain ⟨position, isAt, _, fails⟩ := Reached.exists_isAt (Or.inr reachable) reached_lastOfGroup
  exact ⟨_, position, rfl, isAt,
    (fails (TableChange.timingOut .browse 0) (.plain .next) _ rfl).isAt, rfl⟩

/--
A step forward fails at the last tuple of a group.  The cursor still shows that
tuple, but the step back finds it once more, where without the failed step there
is nothing to find.
-/
theorem previous_repeats_after_failed_next :
    ∃ failed repeated : TableCursor Nat Nat,
      splitTable.ReachableWithFailures ∧
        Reached splitTable lastOfGroup ∧
          ((TableMove.plain .next).perform lastOfGroup (TableChange.timingOut .browse 0)).1 =
              (.error (.ofStore (.io .timedOut)), failed) ∧
            failed.get = .ok ⟨1, 10⟩ ∧
              ((TableMove.plain .previous).perform failed (.memory 1 .empty)).1 =
                  (.ok (.found true), repeated) ∧
                repeated.get = .ok ⟨1, 10⟩ ∧
                  ((TableMove.plain .previous).perform lastOfGroup (.memory 1 .empty)).1.1 =
                    .ok (.found false) :=
  ⟨_, _, TableChange.reachable_changedTable _, reached_lastOfGroup, rfl, rfl, rfl, rfl, rfl⟩

end TableCursor

end OrderedIndex

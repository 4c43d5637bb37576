import OrderedIndex.Proofs.Cursor.Scan
import OrderedIndex.Proofs.Table.FailedMoves

namespace OrderedIndex

/-!
# Trying failed steps again

A step of a table cursor that fails may have left its tuple, but the tuples ahead
of the cursor are the same.  So a step that is made again, after any number of
failures, leads where the first would have led, and a scan that makes failed
steps again shows each tuple once and in order.
-/

/-! ## Elements on either side of a position -/

namespace Position

variable {Element : Type} {elements : List Element} {position : Position}

/-- The elements after a position. -/
def following (elements : List Element) (position : Position) : List Element :=
  elements.drop position.ahead

/-- The elements in front of a position, the nearest first. -/
def preceding (elements : List Element) (position : Position) : List Element :=
  (elements.take position.behind).reverse

/-- A step forward goes to the first of the elements that follow. -/
theorem following_of_next (stepped : (position.next elements.length).1 = true) :
    ∃ element,
      position.following elements =
          element :: (position.next elements.length).2.following elements ∧
        (position.next elements.length).2.get elements = .ok element := by
  unfold next at stepped ⊢
  split at stepped
  next inside =>
    refine ⟨elements[position.ahead], ?_, ?_⟩
    · rw [if_pos inside, following, List.drop_eq_getElem_cons inside]
      rfl
    · rw [if_pos inside, get, List.getElem?_eq_getElem inside]
  next =>
    contradiction

/-- Nothing follows a position from which a step forward finds nothing. -/
theorem following_of_next_false
    (within : position.Within elements.length)
    (leaves : (position.next elements.length).1 = false) :
    position.following elements = [] := by
  rw [following, ahead_of_next_false within leaves, List.drop_length]

/-- A step backward goes to the first of the elements that precede. -/
theorem preceding_of_previous
    (within : position.Within elements.length)
    (stepped : position.previous.1 = true) :
    ∃ element,
      position.preceding elements = element :: position.previous.2.preceding elements ∧
        position.previous.2.get elements = .ok element := by
  have reaches := behind_le within
  unfold previous at stepped ⊢
  cases behind_eq : position.behind with
  | zero =>
      rw [behind_eq] at stepped
      contradiction
  | succ place =>
      rw [behind_eq] at reaches
      refine ⟨elements[place], ?_, ?_⟩
      · rw [preceding, behind_eq, List.take_add_one, List.getElem?_eq_getElem reaches,
          List.reverse_append]
        rfl
      · dsimp only
        rw [get, List.getElem?_eq_getElem reaches]

/-- Nothing precedes a position from which a step backward finds nothing. -/
theorem preceding_of_previous_false (leaves : position.previous.1 = false) :
    position.preceding elements = [] := by
  rw [preceding, behind_of_previous_false leaves]
  rfl

end Position

/-! ## Failures that steps use up -/

namespace ValueCursor

variable {Value : Type}

/-- A value cursor of a group is made unless a failure is used up. -/
theorem spends_ofGroup (group : Group Value) (order : Order Value) :
    Spends (ofGroup group order) := by
  cases group with
  | inline tree =>
      exact .pure _
  | redirected store =>
      exact (StoreCursor.spends_new store order).bind fun _ => .pure _

/-- A step forward among values goes as planned unless a failure is used up. -/
theorem spends_next (cursor : ValueCursor Value) : Spends cursor.next := by
  cases cursor with
  | empty =>
      exact .pure _
  | single value order? position =>
      cases position <;> exact .pure _
  | inline cursor =>
      exact .pure _
  | redirected cursor =>
      exact (cursor.spends_stepForward _ _).bind fun _ => .pure _

/-- A step backward among values goes as planned unless a failure is used up. -/
theorem spends_previous (cursor : ValueCursor Value) : Spends cursor.previous := by
  cases cursor with
  | empty =>
      exact .pure _
  | single value order? position =>
      cases position <;> exact .pure _
  | inline cursor =>
      exact .pure _
  | redirected cursor =>
      exact (cursor.spends_stepBackward _ _).bind fun _ => .pure _

theorem spends_afterLast (cursor : ValueCursor Value) : Spends cursor.afterLast := by
  cases cursor with
  | empty =>
      exact .pure _
  | single value order? position =>
      exact .pure _
  | inline cursor =>
      exact .pure _
  | redirected cursor =>
      exact (cursor.spends_reposition .last).bind fun _ => .pure _

end ValueCursor

theorem Table.spends_valuesAt
    {Key Value : Type}
    (table : Table Key Value)
    (node : NodeId) :
    Spends (table.valuesAt node) := by
  unfold valuesAt
  cases table.entries with
  | unique tree =>
      dsimp only
      split <;> exact .pure _
  | duplicates tree policy =>
      dsimp only
      split
      · exact ValueCursor.spends_ofGroup _ _
      · exact .pure _

namespace TableCursor

variable {Key Value : Type}

/-- A search forward goes as planned unless a failure is used up. -/
theorem spends_seekForward
    (cursor : TableCursor Key Value)
    (count : Nat)
    (target : Option NodeId) :
    Spends (cursor.seekForward count target) := by
  induction count generalizing target with
  | zero =>
      exact .pure _
  | succ count inductionHypothesis =>
      cases target with
      | none =>
          exact .pure _
      | some node =>
          refine (cursor.table.spends_valuesAt node).bind ?_
          rintro (cause | values)
          · exact .pure _
          · refine values.spends_next.bind ?_
            rintro ⟨cause | _ | _, moved⟩
            · exact .pure _
            · exact inductionHypothesis _
            · exact .pure _

/-- A search backward goes as planned unless a failure is used up. -/
theorem spends_seekBackward
    (cursor : TableCursor Key Value)
    (count : Nat)
    (target : Option NodeId) :
    Spends (cursor.seekBackward count target) := by
  induction count generalizing target with
  | zero =>
      exact .pure _
  | succ count inductionHypothesis =>
      cases target with
      | none =>
          exact .pure _
      | some node =>
          refine (cursor.table.spends_valuesAt node).bind ?_
          rintro (cause | values)
          · exact .pure _
          · refine values.spends_afterLast.bind ?_
            rintro ⟨cause | ⟨⟩, placed⟩
            · exact .pure _
            · refine placed.spends_previous.bind ?_
              rintro ⟨cause | _ | _, moved⟩
              · exact .pure _
              · exact inductionHypothesis _
              · exact .pure _

/-- A step may pass over many stores, but its first failure is its last call. -/
theorem spends_next (cursor : TableCursor Key Value) : Spends cursor.next := by
  unfold next
  dsimp only
  cases cursor.position with
  | beforeFirst =>
      exact cursor.spends_seekForward _ _
  | afterLast =>
      exact .pure _
  | within node values =>
      refine values.spends_next.bind ?_
      rintro ⟨cause | _ | _, moved⟩
      · exact .pure _
      · exact spends_seekForward _ _ _
      · exact .pure _

/-- A step backward goes as planned unless a failure is used up. -/
theorem spends_previous (cursor : TableCursor Key Value) : Spends cursor.previous := by
  unfold previous
  dsimp only
  cases cursor.position with
  | beforeFirst =>
      exact .pure _
  | afterLast =>
      exact cursor.spends_seekBackward _ _
  | within node values =>
      refine values.spends_previous.bind ?_
      rintro ⟨cause | _ | _, moved⟩
      · exact .pure _
      · exact spends_seekBackward _ _ _
      · exact .pure _

end TableCursor

/-! ## Scans -/

namespace TableCursor

variable
  {Key Value : Type}
  {table : Table Key Value}
  {stops : List (Stop Key Value)}
  {cursor : TableCursor Key Value}
  {position : Position}

/-- The tuples that steps forward have yet to show. -/
def Following
    (table : Table Key Value)
    (stops : List (Stop Key Value))
    (cursor : TableCursor Key Value)
    (tuples : List (Tuple Key Value)) :
    Prop :=
  ∃ position,
    Positioned table stops cursor position ∧ tuples = position.following (listing stops)

/-- The tuples that steps backward have yet to show, the nearest first. -/
def Preceding
    (table : Table Key Value)
    (stops : List (Stop Key Value))
    (cursor : TableCursor Key Value)
    (tuples : List (Tuple Key Value)) :
    Prop :=
  ∃ position,
    Positioned table stops cursor position ∧ tuples = position.preceding (listing stops)

/-- A step forward may be retried until no failures are left. -/
theorem retriable_next (ordered : table.OrderedStops stops) :
    Cursor.Retriable next (Following table stops) where
  spends := spends_next
  crosses := by
    rintro regime cursor tuples ⟨position, positioned, rfl⟩
    refine (positioned.performs_next ordered).ensures ?_
    rintro ⟨cause | answer, moved⟩ events reached
    · obtain ⟨mayFail, interrupted⟩ := reached
      refine ⟨mayFail, _, interrupted.positioned, ?_⟩
      -- Having opened a store moves the cursor no further than the gap ahead.
      split <;> rfl
    · obtain ⟨rfl, stands⟩ := reached
      cases stepped : (position.next (listing stops).length).1 with
      | true =>
          obtain ⟨tuple, following_eq, shown⟩ := Position.following_of_next stepped
          exact
            ⟨tuple, _, following_eq, stands.get_eq.trans shown, _, stands.positioned, rfl⟩
      | false =>
          exact Position.following_of_next_false positioned.place.within_listing stepped

/-- A step backward may be retried until no failures are left. -/
theorem retriable_previous (ordered : table.OrderedStops stops) :
    Cursor.Retriable previous (Preceding table stops) where
  spends := spends_previous
  crosses := by
    rintro regime cursor tuples ⟨position, positioned, rfl⟩
    refine (positioned.performs_previous ordered).ensures ?_
    rintro ⟨cause | answer, moved⟩ events reached
    · obtain ⟨mayFail, interrupted⟩ := reached
      refine ⟨mayFail, _, interrupted.positioned, ?_⟩
      split <;> rfl
    · obtain ⟨rfl, stands⟩ := reached
      cases stepped : position.previous.1 with
      | true =>
          obtain ⟨tuple, preceding_eq, shown⟩ :=
            Position.preceding_of_previous positioned.place.within_listing stepped
          exact
            ⟨tuple, _, preceding_eq, stands.get_eq.trans shown, _, stands.positioned, rfl⟩
      | false =>
          exact Position.preceding_of_previous_false stepped

/-! ## Steps that are made again -/

/-- Cursors that attempts at one move leave, all of which have failed. -/
inductive LeftByFailures (move : TableMove Key Value) (cursor : TableCursor Key Value) :
    TableCursor Key Value → Prop where
  | untried : LeftByFailures move cursor cursor
  | again
      {left : TableCursor Key Value}
      {backend : Backend}
      {cause : IndexError}
      (before : LeftByFailures move cursor left)
      (failed : (move.perform left backend).1.1 = .error cause) :
      LeftByFailures move cursor (move.perform left backend).1.2

/-- Failed steps leave a cursor at a place from where the step leads to the same place. -/
theorem LeftByFailures.positioned
    (ordered : table.OrderedStops stops)
    (positioned : Positioned table stops cursor position)
    {move : TableMove Key Value}
    (isStep : move.isStep = true)
    {left : TableCursor Key Value}
    (failures : LeftByFailures move cursor left) :
    ∃ place,
      Positioned table stops left place ∧
        move.performOnList table.spec (listing stops) place =
          move.performOnList table.spec (listing stops) position := by
  induction failures with
  | untried =>
      exact ⟨position, positioned, rfl⟩
  | @again left backend cause before failed inductionHypothesis =>
      obtain ⟨place, leftPositioned, leads⟩ := inductionHypothesis
      have outcome := TableMove.reaches_perform ordered leftPositioned move backend
      rcases moved : (move.perform left backend).1 with ⟨given | report, after⟩
      · rw [moved] at outcome
        refine ⟨_, outcome.2.positioned, Eq.trans ?_ leads⟩
        rcases TableMove.eq_of_isStep isStep with rfl | rfl
        · refine congrArg Position.found (Position.next_congr ?_)
          rw [TableMove.leaves]
          split <;> rfl
        · refine congrArg Position.found (Position.previous_congr ?_)
          rw [TableMove.leaves]
          split <;> rfl
      · rw [moved] at failed
        contradiction

/-- Cursors at one position that show the same cannot be told apart. -/
theorem Stands.looksLike
    (ordered : table.OrderedStops stops)
    {other : TableCursor Key Value}
    (stands : Stands table stops cursor position)
    (otherStands : Stands table stops other position) :
    LooksLike cursor other where
  available_eq := stands.available_eq.trans otherStands.available_eq.symm
  get_eq := stands.get_eq.trans otherStands.get_eq.symm
  run_eq backend reliable moves := by
    have isAt := stands.positioned.isAt ordered
    have otherIsAt := otherStands.positioned.isAt ordered
    rw [isAt.run_eq backend reliable, otherIsAt.run_eq backend reliable]

/--
A step that is made again, from a cursor that failed attempts have left: over
stores that do not fail it is answered, and whenever it is answered it does what
the step would have done with no failures.
-/
structure RetriedAs (cursor left : TableCursor Key Value) (move : TableMove Key Value) :
    Prop where
  answered :
    ∀ backend,
      backend.Reliable →
      ∃ report, (move.perform left backend).1.1 = .ok report
  same :
    ∀ backend report,
      (move.perform left backend).1.1 = .ok report →
      ∀ calm : Backend,
        calm.Reliable →
        (move.perform cursor calm).1.1 = .ok report ∧
          LooksLike (move.perform left backend).1.2 (move.perform cursor calm).1.2

/-- What a step left after failures goes on as the step would have without them. -/
theorem LeftByFailures.retriedAs
    (ordered : table.OrderedStops stops)
    (positioned : Positioned table stops cursor position)
    {move : TableMove Key Value}
    (isStep : move.isStep = true)
    {left : TableCursor Key Value}
    (failures : LeftByFailures move cursor left) :
    RetriedAs cursor left move := by
  obtain ⟨place, leftPositioned, leads⟩ := failures.positioned ordered positioned isStep
  have reliably
      {cursor : TableCursor Key Value}
      {position : Position}
      (positioned : Positioned table stops cursor position) :
      Ensures .reliable (move.perform cursor) fun moved =>
        Cursor.Arrives (Stands table stops)
          (move.performOnList table.spec (listing stops) position) moved := by
    refine ((TableMove.performs ordered positioned move).leads position).weaken ?_
    rintro ⟨cause | report, moved⟩ led
    · exact led.1.elim
    · exact ⟨congrArg _ led.1, led.2⟩
  refine ⟨?_, ?_⟩
  · intro backend reliable
    exact ⟨_, (reliably leftPositioned backend reliable).1.1⟩
  · intro backend report answered calm reliable
    have outcome := TableMove.reaches_perform ordered leftPositioned move backend
    obtain ⟨first_eq, firstStands⟩ := (reliably positioned calm reliable).1
    rcases moved : (move.perform left backend).1 with ⟨given | given, after⟩
    · rw [moved] at answered
      contradiction
    · rw [moved] at answered outcome
      cases answered
      obtain ⟨rfl, stands⟩ := outcome
      rw [leads] at stands ⊢
      exact ⟨first_eq, stands.looksLike ordered firstStands⟩

/-- What making failed steps again comes to, for a cursor at a position among the tuples. -/
structure Resumes
    (table : Table Key Value)
    (cursor : TableCursor Key Value)
    (position : Position)
    (tuples : List (Tuple Key Value)) :
    Prop where
  isAt : IsAt table cursor position
  retried :
    ∀ (move : TableMove Key Value) left,
      move.isStep = true →
      LeftByFailures move cursor left →
      RetriedAs cursor left move
  ascending : Order.Ascending table.spec.order tuples
  following : Cursor.ScansTo next cursor (position.following tuples)
  preceding : Cursor.ScansTo previous cursor (position.preceding tuples)
  forward : Cursor.ScansTo next cursor.beforeFirst tuples
  backward : Cursor.ScansTo previous cursor.afterLast tuples.reverse

/--
However a cursor was moved and whatever calls have failed, a step that has failed
can be made again, and scans that make failed steps again show every tuple once
and in order, forward and backward.
-/
theorem Reached.resumes
    (reachable : table.Reachable ∨ table.ReachableWithFailures)
    (reached : Reached table cursor) :
    ∃ position, Resumes table cursor position (table.toList.map Tuple.ofPair) := by
  obtain ⟨stops, ordered⟩ := Table.exists_orderedStops reachable
  obtain ⟨position, sighted⟩ := reached.sighted ordered
  have positioned := sighted.toPositioned
  have front : Positioned table stops cursor.beforeFirst (.gap 0) :=
    (Stands.to_beforeFirst positioned.table_eq).positioned
  have back : Positioned table stops cursor.afterLast (.gap (listing stops).length) :=
    (Stands.to_afterLast positioned.table_eq).positioned
  refine ⟨position, positioned.isAt ordered, ?_, ?_, ?_, ?_, ?_, ?_⟩
  · intro move left isStep failures
    exact failures.retriedAs ordered positioned isStep
  · rw [← ordered.listing_eq]
    exact ordered.ascending_listing
  · rw [← ordered.listing_eq]
    exact (retriable_next ordered).scansTo ⟨position, positioned, rfl⟩
  · rw [← ordered.listing_eq]
    exact (retriable_previous ordered).scansTo ⟨position, positioned, rfl⟩
  · rw [← ordered.listing_eq]
    exact (retriable_next ordered).scansTo ⟨_, front, rfl⟩
  · rw [← ordered.listing_eq]
    refine (retriable_previous ordered).scansTo ⟨_, back, ?_⟩
    rw [Position.preceding, Position.behind, List.take_length]

/--
A step that could not open the next group is made again and shows its first
tuple.  A scan of all three tuples that meets a failure needs one attempt more.
-/
theorem resumes_lastOfGroup :
    ∃ failed resumed : TableCursor Nat Nat,
      ((TableMove.plain .next).perform lastOfGroup (TableChange.timingOut .browse 0)).1 =
          (.error (.ofStore (.io .timedOut)), failed) ∧
        ((TableMove.plain .next).perform failed (.memory 1 .empty)).1 =
            (.ok (.found true), resumed) ∧
          resumed.get = .ok ⟨2, 20⟩ ∧
            LooksLike resumed
              ((TableMove.plain .next).perform lastOfGroup (.memory 1 .empty)).1.2 ∧
              (Cursor.scan next 5 lastOfGroup.beforeFirst
                  (TableChange.timingOut .next 1)).1.shown =
                [.ok ⟨1, 10⟩, .ok ⟨2, 20⟩, .ok ⟨2, 21⟩] := by
  have reachable := TableChange.reachable_changedTable [.put 1 10, .put 2 20, .put 2 21]
  have reliable : Backend.Reliable (.memory 1 .empty) := Or.inl rfl
  obtain ⟨position, resumes⟩ := Reached.resumes (Or.inr reachable) reached_lastOfGroup
  have fails :
      ((TableMove.plain .next).perform lastOfGroup (TableChange.timingOut .browse 0)).1.1 =
        .error (.ofStore (.io .timedOut)) :=
    rfl
  have retried := resumes.retried (.plain .next) _ rfl (.again .untried fails)
  exact
    ⟨_, _, rfl, rfl, rfl,
      (retried.same (.memory 1 .empty) (.found true) rfl (.memory 1 .empty) reliable).2,
      resumes.forward.complete 5 (TableChange.timingOut .next 1) 1 rfl (by decide)⟩

end TableCursor

end OrderedIndex

import OrderedIndex.Proofs.Cursor.Simulation
import OrderedIndex.Proofs.Store.Trace
import OrderedIndex.Table.ValueCursor

namespace OrderedIndex

/-!
# Calls of cursors

A move reaches its place or fails, and its trace tells the calls it has made.
Opening or placing a cursor over a secondary store is one call that opens a
browser.  Steps open none, and a cursor over values that are kept elsewhere calls
nothing and cannot fail.
-/

variable {regime : Regime} {Value : Type}

/-! ## Moves and their traces -/

/-- The expected answer and place, or where calls may fail a failure with something known of it. -/
def Regime.Reaches {Failure Answer State Place : Type} (regime : Regime)
    (stands : State → Place → Prop) (expected : Answer × Place)
    (failed : State → List StoreEvent → Prop) :
    Except Failure Answer × State → List StoreEvent → Prop
  | (.ok answer, state), _ => answer = expected.1 ∧ stands state expected.2
  | (.error _, state), events => regime.mayFail ∧ failed state events

/-- Where no call fails, what is known of failures does not matter. -/
theorem Performs.leads
    {Failure Answer State Place : Type}
    {stands : State → Place → Prop}
    {expected : Answer × Place}
    {failed : State → List StoreEvent → Prop}
    {moving : StoreM (Except Failure Answer × State)}
    (performs : Performs .reliable moving (Regime.reliable.Reaches stands expected failed))
    (before : Place) :
    Ensures .reliable moving (Regime.reliable.Leads stands before expected) := by
  refine performs.ensures ?_
  rintro ⟨cause | answer, state⟩ events reached
  · exact reached.1.elim
  · exact reached

/-! ### Reports -/

namespace Cursor

variable
  {State Element : Type}
  [Cursor State Element]
  {stands : State → Position → Prop}
  {failed : State → List StoreEvent → Prop}

/-- Reporting a step changes neither where it leads nor what it calls. -/
theorem reaches_found
    {expected : Bool × Position}
    {step : StoreM (Moved Bool State)}
    (performs : Performs regime step (regime.Reaches stands expected failed)) :
    Performs regime (do return reportFound (← step))
      (regime.Reaches stands (Position.found expected) failed) := by
  refine performs.bind ?_
  rintro ⟨cause | answer, moved⟩ events reached
  · exact .pure reached
  · exact .pure ⟨congrArg Report.found reached.1, reached.2⟩

/-- Reporting a placement changes neither where it leads nor what it calls. -/
theorem reaches_placed
    {place : Position}
    {placement : StoreM (Moved Unit State)}
    (performs : Performs regime placement (regime.Reaches stands ((), place) failed)) :
    Performs regime (do return reportPlaced (← placement))
      (regime.Reaches stands (.placed, place) failed) := by
  refine performs.bind ?_
  rintro ⟨cause | answer, moved⟩ events reached
  · exact .pure reached
  · exact .pure ⟨rfl, reached.2⟩

end Cursor

/-! ## Cursors over a store -/

namespace StoreCursor

/-- A new store cursor browses its store once. -/
theorem performs_new (store : OrderedStore Value) (order : Order Value) :
    Performs regime (new store order) fun
      | .ok cursor, events => cursor.store = store ∧ events = [⟨.browse, store.id⟩]
      | .error _, events => events = [⟨.browse, store.id⟩] := by
  refine (Backend.performs_consult .browse store _).bind ?_
  rintro (cause | browser) _ rfl
  · exact .pure rfl
  · exact .pure ⟨rfl, rfl⟩

/-- A placement of a store cursor browses its store once. -/
theorem performs_reposition (cursor : StoreCursor Value) (start : BrowseStart Value) :
    Performs regime (cursor.reposition start) fun moved events =>
      moved.2.store = cursor.store ∧ events = [⟨.browse, cursor.store.id⟩] := by
  refine (Backend.performs_consult .browse cursor.store _).bind ?_
  rintro (cause | browser) _ rfl
  · exact .pure ⟨rfl, rfl⟩
  · exact .pure ⟨rfl, rfl⟩

/-- A step forward of a store cursor is no call on the store as such. -/
theorem performs_stepForward (cursor : StoreCursor Value) (behind ahead : List Value) :
    Performs regime (cursor.stepForward behind ahead) fun moved events =>
      moved.2.store = cursor.store ∧ events = [] := by
  induction ahead generalizing behind with
  | nil =>
      refine (Backend.performs_meet .next).bind_silent ?_
      rintro (cause | ⟨⟩)
      · exact .pure ⟨rfl, rfl⟩
      · exact .pure ⟨rfl, rfl⟩
  | cons value ahead inductionHypothesis =>
      refine (Backend.performs_meet .next).bind_silent ?_
      rintro (cause | ⟨⟩)
      · exact .pure ⟨rfl, rfl⟩
      · dsimp only
        split
        · exact inductionHypothesis (value :: behind)
        · exact .pure ⟨rfl, rfl⟩

/-- A step backward of a store cursor is no call on the store as such. -/
theorem performs_stepBackward (cursor : StoreCursor Value) (ahead behind : List Value) :
    Performs regime (cursor.stepBackward ahead behind) fun moved events =>
      moved.2.store = cursor.store ∧ events = [] := by
  induction behind generalizing ahead with
  | nil =>
      refine (Backend.performs_meet .previous).bind_silent ?_
      rintro (cause | ⟨⟩)
      · exact .pure ⟨rfl, rfl⟩
      · exact .pure ⟨rfl, rfl⟩
  | cons value behind inductionHypothesis =>
      refine (Backend.performs_meet .previous).bind_silent ?_
      rintro (cause | ⟨⟩)
      · exact .pure ⟨rfl, rfl⟩
      · dsimp only
        split
        · exact inductionHypothesis (value :: ahead)
        · exact .pure ⟨rfl, rfl⟩

end StoreCursor

/-! ## Cursors over the values of a key -/

namespace ValueCursor

/-- The number of the store that a cursor reads from, if it reads from one. -/
def storeIds : ValueCursor Value → List StoreId
  | .redirected cursor => [cursor.store.id]
  | _ => []

/-- The call that opens a browser in the store of a cursor, if it reads from one. -/
def browses (cursor : ValueCursor Value) : List StoreEvent :=
  cursor.storeIds.map fun store => ⟨.browse, store⟩

/--
The calls of a move, which stays at the store of the cursor and fails only if the
cursor reads from one.
-/
structure Calls {Answer : Type}
    (cursor : ValueCursor Value)
    (calls : List StoreEvent)
    (moved : Moved Answer (ValueCursor Value))
    (events : List StoreEvent) :
    Prop where
  events_eq : events = calls
  browses_eq : moved.2.browses = cursor.browses
  reads : ∀ cause, moved.1 = .error cause → cursor.browses.length = 1

/-- A move that succeeds makes the calls that it has made. -/
theorem calls_ok
    {Answer : Type}
    {cursor moved : ValueCursor Value}
    {answer : Answer}
    {events : List StoreEvent}
    (browses_eq : moved.browses = cursor.browses) :
    cursor.Calls events (.ok answer, moved) events :=
  ⟨rfl, browses_eq, fun _ failed => by contradiction⟩

/-- What a store cursor calls, the value cursor over it calls. -/
theorem calls_ofStore
    {Answer : Type}
    {cursor : StoreCursor Value}
    {moving : StoreM (Moved Answer (StoreCursor Value))}
    {calls : List StoreEvent}
    (performs :
      Performs regime moving fun moved events =>
        moved.2.store = cursor.store ∧ events = calls) :
    Performs regime (do return ofStore (← moving)) ((redirected cursor).Calls calls) := by
  refine performs.bind ?_
  rintro moved _ ⟨same, rfl⟩
  refine .pure ⟨List.nil_append _, ?_, fun _ _ => rfl⟩
  simp only [ofStore, browses, storeIds, same]

variable (cursor : ValueCursor Value)

/-- Moving behind the last value browses the store, if the cursor reads from one. -/
theorem performs_afterLast :
    Performs regime cursor.afterLast (cursor.Calls cursor.browses) := by
  cases cursor with
  | empty => exact .pure (calls_ok rfl)
  | single => exact .pure (calls_ok rfl)
  | inline => exact .pure (calls_ok rfl)
  | redirected cursor => exact calls_ofStore (cursor.performs_reposition .last)

/-- Moving before a value browses the store, if the cursor reads from one. -/
theorem performs_before (element : Value) :
    Performs regime (cursor.before element) (cursor.Calls cursor.browses) := by
  cases cursor with
  | empty => exact .pure (calls_ok rfl)
  | single => exact .pure (calls_ok rfl)
  | inline => exact .pure (calls_ok rfl)
  | redirected cursor => exact calls_ofStore (cursor.performs_reposition (.before element))

/-- Moving after a value browses the store, if the cursor reads from one. -/
theorem performs_after (element : Value) :
    Performs regime (cursor.after element) (cursor.Calls cursor.browses) := by
  cases cursor with
  | empty => exact .pure (calls_ok rfl)
  | single => exact .pure (calls_ok rfl)
  | inline => exact .pure (calls_ok rfl)
  | redirected cursor => exact calls_ofStore (cursor.performs_reposition (.after element))

/-- A step forward among values browses no store anew. -/
theorem performs_next : Performs regime cursor.next (cursor.Calls []) := by
  cases cursor with
  | empty => exact .pure (calls_ok rfl)
  | single value order? position => cases position <;> exact .pure (calls_ok rfl)
  | inline => exact .pure (calls_ok rfl)
  | redirected cursor => exact calls_ofStore (cursor.performs_stepForward _ _)

/-- A step backward among values browses no store anew. -/
theorem performs_previous : Performs regime cursor.previous (cursor.Calls []) := by
  cases cursor with
  | empty => exact .pure (calls_ok rfl)
  | single value order? position => cases position <;> exact .pure (calls_ok rfl)
  | inline => exact .pure (calls_ok rfl)
  | redirected cursor => exact calls_ofStore (cursor.performs_stepBackward _ _)

/-- Opening a cursor over a group browses its store, if it has one. -/
theorem performs_ofGroup (group : Group Value) (order : Order Value) :
    Performs regime (ofGroup group order) fun
      | .ok cursor, events => events = cursor.browses
      | .error _, events => events.length = 1 := by
  cases group with
  | inline tree =>
      exact .pure rfl
  | redirected store =>
      refine (StoreCursor.performs_new store order).bind ?_
      rintro (cause | cursor) earlier opened
      · subst opened
        exact .pure rfl
      · obtain ⟨rfl, rfl⟩ := opened
        exact .pure rfl

end ValueCursor

/-- Opening a cursor over the values at a node browses their store, if they have one. -/
theorem Table.performs_valuesAt
    {Key : Type}
    (table : Table Key Value)
    (node : NodeId) :
    Performs regime (table.valuesAt node) fun
      | .ok values, events => events = values.browses
      | .error _, events => events.length = 1 := by
  unfold valuesAt
  cases table.entries with
  | unique tree =>
      dsimp only
      cases tree.value? node with
      | none => exact .pure rfl
      | some value => exact .pure rfl
  | duplicates tree policy =>
      dsimp only
      cases tree.value? node with
      | none => exact .pure rfl
      | some group => exact ValueCursor.performs_ofGroup group policy.order

end OrderedIndex

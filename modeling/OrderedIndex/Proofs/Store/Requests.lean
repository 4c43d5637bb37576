import OrderedIndex.Proofs.SortedList
import OrderedIndex.Store.Basic

namespace OrderedIndex

/-!
# Requests to a store

Stores that keep their values in different ways are called alike.  What a store
is meant to answer is told by an ascending list of values, with a browser as the
number of values in front of its gap, until the store is closed.  Stores that
stand for such a list in every call stand for it in every run.
-/

/-- A place in a gap between values, from where to cross one at a time. -/
class BrowserLike (Browser : Type) (Value : outParam Type) where
  next : Browser → Option Value × Browser
  previous : Browser → Option Value × Browser

/-- What can be called on a store, however it keeps its values. -/
class StoreLike (Store : Type) (Value Browser : outParam Type) where
  id : Store → StoreId
  /-- The values that are kept, in the order in which they are. -/
  values : Store → List Value
  insert : Store → Value → Except StoreError (Bool × Store)
  remove : Store → Value → Except StoreError (Bool × Store)
  contains : Store → Value → Except StoreError Bool
  size : Store → Except StoreError Nat
  isEmpty : Store → Except StoreError Bool
  browse : Store → BrowseStart Value → Except StoreError Browser
  close : Store → Store

/-! ## Browsing -/

/-- The ways to cross a value. -/
inductive BrowserStep where
  | next
  | previous
  deriving Repr, DecidableEq

namespace BrowserStep

variable {Browser Value : Type} [BrowserLike Browser Value]

/-- Step with a browser. -/
def take (browser : Browser) : BrowserStep → Option Value × Browser
  | .next => BrowserLike.next browser
  | .previous => BrowserLike.previous browser

/-- Step with a browser, one step after the other. -/
def walk (browser : Browser) : List BrowserStep → List (Option Value)
  | [] => []
  | step :: rest =>
      let (crossed, moved) := take browser step
      crossed :: walk moved rest

/-- Step from the gap with a number of values in front of it. -/
def takeInList (values : List Value) (gap : Nat) : BrowserStep → Option Value × Nat
  | .next =>
      match values[gap]? with
      | some value => (some value, gap + 1)
      | none => (none, gap)
  | .previous =>
      match gap with
      | 0 => (none, 0)
      | place + 1 => (values[place]?, place)

/-- Step from gap to gap, one step after the other. -/
def walkInList (values : List Value) (gap : Nat) : List BrowserStep → List (Option Value)
  | [] => []
  | step :: rest =>
      let (crossed, moved) := takeInList values gap step
      crossed :: walkInList values moved rest

section Gaps

variable {values : List Value} {gap : Nat}

theorem takeInList_next (inside : gap < values.length) :
    takeInList values gap .next = (some values[gap], gap + 1) := by
  rw [takeInList, List.getElem?_eq_getElem inside]

theorem takeInList_next_end (atEnd : values.length ≤ gap) :
    takeInList values gap .next = (none, gap) := by
  rw [takeInList, List.getElem?_eq_none atEnd]

theorem takeInList_previous (inside : gap < values.length) :
    takeInList values (gap + 1) .previous = (some values[gap], gap) := by
  rw [takeInList, List.getElem?_eq_getElem inside]

end Gaps

end BrowserStep

/-- The number of values in front of the gap where a browser starts. -/
def BrowseStart.gap {Value : Type} (order : Order Value) (values : List Value) :
    BrowseStart Value → Nat
  | .first => 0
  | .last => values.length
  | .before value => values.countP fun stored => order stored value == .lt
  | .after value => values.countP fun stored => (order stored value).isLE

theorem BrowseStart.gap_le
    {Value : Type}
    (start : BrowseStart Value)
    (order : Order Value)
    (values : List Value) :
    start.gap order values ≤ values.length := by
  cases start with
  | first =>
      exact Nat.zero_le _
  | last =>
      exact Nat.le_refl _
  | before value =>
      exact List.countP_le_length
  | after value =>
      exact List.countP_le_length

/-! ## Tasks and requests -/

/-- What an open store is used for. -/
inductive StoreTask (Value : Type) where
  | insert (value : Value)
  | remove (value : Value)
  | contains (value : Value)
  | size
  | isEmpty
  /-- Open a browser and step with it. -/
  | browse (start : BrowseStart Value) (steps : List BrowserStep)
  deriving Repr, DecidableEq

/-- What is asked of a store. -/
inductive StoreRequest (Value : Type) where
  | use (task : StoreTask Value)
  | close
  | id
  deriving Repr, DecidableEq

/-- What a store replies. -/
inductive StoreReply (Value : Type) where
  | flag (answer : Bool)
  | count (answer : Nat)
  | crossed (values : List (Option Value))
  | done
  | number (id : StoreId)
  deriving Repr, DecidableEq

namespace StoreTask

variable {Store Value Browser : Type}

/-- Use a store for a task. -/
def perform [StoreLike Store Value Browser] [BrowserLike Browser Value] (store : Store) :
    StoreTask Value → Except StoreError (StoreReply Value × Store)
  | .insert value => do
      let (added, changed) ← StoreLike.insert store value
      return (.flag added, changed)
  | .remove value => do
      let (removed, changed) ← StoreLike.remove store value
      return (.flag removed, changed)
  | .contains value => return (.flag (← StoreLike.contains store value), store)
  | .size => return (.count (← StoreLike.size store), store)
  | .isEmpty => return (.flag (← StoreLike.isEmpty store), store)
  | .browse start steps => do
      let browser ← StoreLike.browse store start
      return (.crossed (BrowserStep.walk browser steps), store)

/-- Use an ascending list as an ordered set for a task. -/
def performOnList (order : Order Value) (values : List Value) :
    StoreTask Value → StoreReply Value × List Value
  | .insert value =>
      (.flag (Order.lookup? (order value) values).isNone, Order.place (order value) value values)
  | .remove value =>
      (.flag (Order.lookup? (order value) values).isSome, Order.discard (order value) values)
  | .contains value => (.flag (Order.lookup? (order value) values).isSome, values)
  | .size => (.count values.length, values)
  | .isEmpty => (.flag values.isEmpty, values)
  | .browse start steps =>
      (.crossed (BrowserStep.walkInList values (start.gap order values) steps), values)

/-- A task leaves an ascending list ascending. -/
theorem ascending_performOnList
    {order : Order Value}
    [Std.TransCmp order]
    {values : List Value}
    (ascending : Order.Ascending order values)
    (task : StoreTask Value) :
    Order.Ascending order (task.performOnList order values).2 := by
  cases task with
  | insert value =>
      exact ascending.place value
  | remove value =>
      exact ascending.discard _
  | _ =>
      exact ascending

end StoreTask

namespace StoreRequest

variable {Store Value Browser : Type}

section Stores

variable [StoreLike Store Value Browser] [BrowserLike Browser Value]

/-- Answer a request; a task that fails leaves the store as it was. -/
def answer (store : Store) : StoreRequest Value → Except StoreError (StoreReply Value) × Store
  | .use task =>
      match task.perform store with
      | .ok (reply, changed) => (.ok reply, changed)
      | .error cause => (.error cause, store)
  | .close => (.ok .done, StoreLike.close store)
  | .id => (.ok (.number (StoreLike.id store)), store)

/-- Answer requests one after the other. -/
def run (store : Store) :
    List (StoreRequest Value) → List (Except StoreError (StoreReply Value)) × Store
  | [] => ([], store)
  | request :: rest =>
      let (reply, changed) := answer store request
      let (replies, final) := run changed rest
      (reply :: replies, final)

theorem run_append (store : Store) (first second : List (StoreRequest Value)) :
    run store (first ++ second) =
      ((run store first).1 ++ (run (run store first).2 second).1,
        (run (run store first).2 second).2) := by
  induction first generalizing store with
  | nil =>
      rfl
  | cons request rest inductionHypothesis =>
      rw [List.cons_append, run]
      dsimp only
      rw [inductionHypothesis]
      rfl

end Stores

/-- Answer a request as an ordered set of values; there are none once the set is closed. -/
def answerAsSet (id : StoreId) (order : Order Value) (values? : Option (List Value)) :
    StoreRequest Value → Except StoreError (StoreReply Value) × Option (List Value)
  | .use task =>
      match values? with
      | some values =>
          let (reply, changed) := task.performOnList order values
          (.ok reply, some changed)
      | none => (.error (.closed id), none)
  | .close => (.ok .done, none)
  | .id => (.ok (.number id), values?)

/-- Answer requests one after the other as an ordered set. -/
def runAsSet (id : StoreId) (order : Order Value) (values? : Option (List Value)) :
    List (StoreRequest Value) →
      List (Except StoreError (StoreReply Value)) × Option (List Value)
  | [] => ([], values?)
  | request :: rest =>
      let (reply, changed) := answerAsSet id order values? request
      let (replies, final) := runAsSet id order changed rest
      (reply :: replies, final)

/-- The answer of a closed store: only its number is told, and closing is no error. -/
def answerClosed (id : StoreId) : StoreRequest Value → Except StoreError (StoreReply Value)
  | .use _ => .error (.closed id)
  | .close => .ok .done
  | .id => .ok (.number id)

/-- A closed set stays closed. -/
theorem runAsSet_none (id : StoreId) (order : Order Value) (requests : List (StoreRequest Value)) :
    runAsSet id order none requests = (requests.map (answerClosed id), none) := by
  induction requests with
  | nil =>
      rfl
  | cons request rest inductionHypothesis =>
      cases request <;> simp [runAsSet, answerAsSet, answerClosed, inductionHypothesis]

end StoreRequest

/-! ## Stores that stand for lists -/

namespace StoreLike

variable
  {Store Value Browser : Type}
  [StoreLike Store Value Browser]
  [BrowserLike Browser Value]
  {id : StoreId}
  {order : Order Value}

/--
Stores that keep the values of a list, or none once they are closed, through
every call, with browsers in gaps of that list.
-/
structure Simulates
    (id : StoreId)
    (order : Order Value)
    (Keeps : Store → Option (List Value) → Prop)
    (InGap : List Value → Browser → Nat → Prop) :
    Prop where
  id_eq : ∀ {store values?}, Keeps store values? → StoreLike.id store = id
  values_eq : ∀ {store values?}, Keeps store values? → StoreLike.values store = values?.getD []
  closes : ∀ {store values?}, Keeps store values? → Keeps (StoreLike.close store) none
  refuses : ∀ {store}, Keeps store none → ∀ task, StoreTask.perform store task = .error (.closed id)
  inserts :
    ∀ {store values},
      Keeps store (some values) →
      Order.Ascending order values →
      ∀ value,
        ∃ changed,
          StoreLike.insert store value =
              .ok ((Order.lookup? (order value) values).isNone, changed) ∧
            Keeps changed (some (Order.place (order value) value values))
  removes :
    ∀ {store values},
      Keeps store (some values) →
      Order.Ascending order values →
      ∀ value,
        ∃ changed,
          StoreLike.remove store value =
              .ok ((Order.lookup? (order value) values).isSome, changed) ∧
            Keeps changed (some (Order.discard (order value) values))
  contains_eq :
    ∀ {store values},
      Keeps store (some values) →
      Order.Ascending order values →
      ∀ value,
        StoreLike.contains store value = .ok (Order.lookup? (order value) values).isSome
  size_eq : ∀ {store values}, Keeps store (some values) → StoreLike.size store = .ok values.length
  isEmpty_eq :
    ∀ {store values}, Keeps store (some values) → StoreLike.isEmpty store = .ok values.isEmpty
  browses :
    ∀ {store values},
      Keeps store (some values) →
      Order.Ascending order values →
      ∀ start,
        ∃ browser,
          StoreLike.browse store start = .ok browser ∧ InGap values browser (start.gap order values)
  steps :
    ∀ {values browser gap},
      InGap values browser gap →
      ∀ step : BrowserStep,
        (step.take browser).1 = (step.takeInList values gap).1 ∧
          InGap values (step.take browser).2 (step.takeInList values gap).2

/-- A store answers as an ordered set from when it is new until it is closed, and then no more. -/
structure BehavesAsSet (id : StoreId) (order : Order Value) (store : Store) : Prop where
  replies_eq :
    ∀ requests : List (StoreRequest Value),
      (StoreRequest.run store requests).1 =
        (StoreRequest.runAsSet id order (some []) requests).1
  values_eq :
    ∀ requests : List (StoreRequest Value),
      StoreLike.values (StoreRequest.run store requests).2 =
        (StoreRequest.runAsSet id order (some []) requests).2.getD []
  ascending :
    ∀ requests : List (StoreRequest Value),
      Order.Ascending order (StoreLike.values (StoreRequest.run store requests).2)
  /-- Once a store is closed, every use of it fails. -/
  closed :
    ∀ before after : List (StoreRequest Value),
      (StoreRequest.run (StoreRequest.run store (before ++ [.close])).2 after).1 =
        after.map (StoreRequest.answerClosed id)

namespace Simulates

variable
  {Keeps : Store → Option (List Value) → Prop}
  {InGap : List Value → Browser → Nat → Prop}
  {store : Store}
  {values : List Value}
  {values? : Option (List Value)}

/-- Browsers walk as their gaps do. -/
theorem walk_eq
    (simulates : Simulates id order Keeps InGap)
    {browser : Browser}
    {gap : Nat}
    (inGap : InGap values browser gap)
    (steps : List BrowserStep) :
    BrowserStep.walk browser steps = BrowserStep.walkInList values gap steps := by
  induction steps generalizing browser gap with
  | nil =>
      rfl
  | cons step rest inductionHypothesis =>
      obtain ⟨crossed, inNext⟩ := simulates.steps inGap step
      exact List.cons_eq_cons.mpr ⟨crossed, inductionHypothesis inNext⟩

/-- An open store performs a task as the list of its values does. -/
theorem performs
    (simulates : Simulates id order Keeps InGap)
    (keeps : Keeps store (some values))
    (ascending : Order.Ascending order values)
    (task : StoreTask Value) :
    ∃ changed,
      task.perform store = .ok ((task.performOnList order values).1, changed) ∧
        Keeps changed (some (task.performOnList order values).2) := by
  cases task with
  | insert value =>
      obtain ⟨changed, inserted, keepsChanged⟩ := simulates.inserts keeps ascending value
      exact ⟨changed, by rw [StoreTask.perform, inserted]; rfl, keepsChanged⟩
  | remove value =>
      obtain ⟨changed, removed, keepsChanged⟩ := simulates.removes keeps ascending value
      exact ⟨changed, by rw [StoreTask.perform, removed]; rfl, keepsChanged⟩
  | contains value =>
      refine ⟨store, ?_, keeps⟩
      rw [StoreTask.perform, simulates.contains_eq keeps ascending]
      rfl
  | size =>
      refine ⟨store, ?_, keeps⟩
      rw [StoreTask.perform, simulates.size_eq keeps]
      rfl
  | isEmpty =>
      refine ⟨store, ?_, keeps⟩
      rw [StoreTask.perform, simulates.isEmpty_eq keeps]
      rfl
  | browse start steps =>
      obtain ⟨browser, opened, inGap⟩ := simulates.browses keeps ascending start
      refine ⟨store, ?_, keeps⟩
      rw [StoreTask.perform, opened, StoreTask.performOnList, ← simulates.walk_eq inGap]
      rfl

/-- A request is answered as by the set that a store stands for, which it still stands for. -/
theorem answer
    (simulates : Simulates id order Keeps InGap)
    (keeps : Keeps store values?)
    (ascending : ∀ values ∈ values?, Order.Ascending order values)
    (request : StoreRequest Value) :
    (request.answer store).1 = (request.answerAsSet id order values?).1 ∧
      Keeps (request.answer store).2 (request.answerAsSet id order values?).2 := by
  cases request with
  | use task =>
      cases values? with
      | none =>
          rw [StoreRequest.answer, simulates.refuses keeps task]
          exact ⟨rfl, keeps⟩
      | some values =>
          obtain ⟨changed, performed, keepsChanged⟩ :=
            simulates.performs keeps (ascending values rfl) task
          rw [StoreRequest.answer, performed]
          exact ⟨rfl, keepsChanged⟩
  | close =>
      exact ⟨rfl, simulates.closes keeps⟩
  | id =>
      rw [StoreRequest.answer, simulates.id_eq keeps]
      exact ⟨rfl, keeps⟩

/-- What stays of an ascending list after a request is ascending. -/
theorem ascending_answerAsSet
    [Std.TransCmp order]
    (ascending : ∀ values ∈ values?, Order.Ascending order values)
    (request : StoreRequest Value) :
    ∀ values ∈ (request.answerAsSet id order values?).2, Order.Ascending order values := by
  cases request with
  | use task =>
      cases values? with
      | none =>
          exact fun _ inNone => nomatch inNone
      | some values =>
          rintro _ ⟨⟩
          exact StoreTask.ascending_performOnList (ascending values rfl) task
  | close =>
      exact fun _ inNone => nomatch inNone
  | id =>
      exact ascending

/-- A run is answered as by the set that a store stands for, which it still stands for. -/
theorem run
    [Std.TransCmp order]
    (simulates : Simulates id order Keeps InGap)
    (keeps : Keeps store values?)
    (ascending : ∀ values ∈ values?, Order.Ascending order values)
    (requests : List (StoreRequest Value)) :
    (StoreRequest.run store requests).1 = (StoreRequest.runAsSet id order values? requests).1 ∧
      Keeps (StoreRequest.run store requests).2
          (StoreRequest.runAsSet id order values? requests).2 ∧
        ∀ values ∈ (StoreRequest.runAsSet id order values? requests).2,
          Order.Ascending order values := by
  induction requests generalizing store values? with
  | nil =>
      exact ⟨rfl, keeps, ascending⟩
  | cons request rest inductionHypothesis =>
      obtain ⟨reply, keepsThere⟩ := simulates.answer keeps ascending request
      obtain ⟨replies, keepsLast, ascendingLast⟩ :=
        inductionHypothesis keepsThere (ascending_answerAsSet ascending request)
      exact ⟨List.cons_eq_cons.mpr ⟨reply, replies⟩, keepsLast, ascendingLast⟩

/-- Stores that stand for a list in every call behave as sets when they start with none. -/
theorem behavesAsSet
    [Std.TransCmp order]
    (simulates : Simulates id order Keeps InGap)
    (new : Keeps store (some [])) :
    BehavesAsSet id order store := by
  have noValues : ∀ values ∈ some ([] : List Value), Order.Ascending order values := by
    rintro _ ⟨⟩
    exact List.Pairwise.nil
  have runs := simulates.run new noValues
  refine {
    replies_eq := fun requests => (runs requests).1
    values_eq := fun requests => simulates.values_eq (runs requests).2.1
    ascending := ?_
    closed := ?_ }
  · intro requests
    obtain ⟨_, keeps, ascending⟩ := runs requests
    rw [simulates.values_eq keeps]
    cases left : (StoreRequest.runAsSet id order (some []) requests).2 with
    | none =>
        exact List.Pairwise.nil
    | some values =>
        exact ascending values left
  · intro before after
    obtain ⟨_, keeps, _⟩ := runs before
    rw [StoreRequest.run_append]
    have closedNow := simulates.closes keeps
    have refused := simulates.run closedNow (fun _ inNone => nomatch inNone) after
    rw [StoreRequest.runAsSet_none] at refused
    exact refused.1

end Simulates

end StoreLike

end OrderedIndex

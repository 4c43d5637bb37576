import OrderedIndex.Proofs.Computation
import OrderedIndex.Proofs.Cursor.Position

namespace OrderedIndex

/-!
# Cursors that follow a position

A cursor stands at a position of a list when it shows what the position shows
and each of its moves leads where the move of the position leads.  Under a
regime of failures a step or a placement may fail instead, and then the cursor
stands where it stood.
-/

/-- The expected answer and place, or where calls may fail a failure that keeps the place. -/
def Regime.Leads {Failure Answer State Place : Type} (regime : Regime)
    (stands : State → Place → Prop) (before : Place) (expected : Answer × Place) :
    Except Failure Answer × State → Prop
  | (.ok answer, state) => answer = expected.1 ∧ stands state expected.2
  | (.error _, state) => regime.mayFail ∧ stands state before

namespace Cursor

variable {State Element : Type} [Cursor State Element]

/-- A relation between cursors and positions that every move keeps. -/
structure Follows
    (regime : Regime)
    (order : Order Element)
    (elements : List Element)
    (stands : State → Position → Prop) :
    Prop where
  within :
    ∀ {state position}, stands state position → position.Within elements.length
  available_eq :
    ∀ {state position}, stands state position → available state = position.isOn
  get_eq :
    ∀ {state position}, stands state position → get state = position.get elements
  beforeFirst :
    ∀ {state position},
      stands state position →
      Ensures regime (beforeFirst state) (regime.Leads stands position ((), .gap 0))
  afterLast :
    ∀ {state position},
      stands state position →
      Ensures regime (afterLast state)
        (regime.Leads stands position ((), .gap elements.length))
  before :
    ∀ {state position} (element : Element),
      stands state position →
      Ensures regime (before state element)
        (regime.Leads stands position ((), .before (order element) elements))
  after :
    ∀ {state position} (element : Element),
      stands state position →
      Ensures regime (after state element)
        (regime.Leads stands position ((), .after (order element) elements))
  next :
    ∀ {state position},
      stands state position →
      Ensures regime (next state)
        (regime.Leads stands position (position.next elements.length))
  previous :
    ∀ {state position},
      stands state position →
      Ensures regime (previous state) (regime.Leads stands position position.previous)

/-! ## Moves without failures -/

section Reliable

variable
  {order : Order Element}
  {elements : List Element}
  {stands : State → Position → Prop}
  {state : State}
  {position : Position}

/-- A move reports what the position reports, and the cursor stands where it leads. -/
def Arrives
    (stands : State → Position → Prop)
    (expected : Report × Position)
    (moved : Moved Report State) :
    Prop :=
  moved.1 = .ok expected.1 ∧ stands moved.2 expected.2

/-- Where no call fails, a computation goes on from the answer and the place led to. -/
theorem bind_leads
    {Failure Answer Other Place : Type}
    {stands : State → Place → Prop}
    {before : Place}
    {expected : Answer × Place}
    {step : StoreM (Except Failure Answer × State)}
    {rest : Except Failure Answer × State → StoreM Other}
    {post : Other → Prop}
    (leads : Ensures .reliable step (Regime.reliable.Leads stands before expected))
    (continued :
      ∀ moved,
        stands moved expected.2 →
        Ensures .reliable (rest (.ok expected.1, moved)) post) :
    Ensures .reliable (step >>= rest) post := by
  refine leads.bind ?_
  rintro ⟨cause | answer, moved⟩ led
  · exact led.1.elim
  · obtain ⟨rfl, standsThere⟩ := led
    exact continued moved standsThere

theorem arrives_found
    {before : Position}
    {expected : Bool × Position}
    {step : StoreM (Moved Bool State)}
    (leads : Ensures .reliable step (Regime.reliable.Leads stands before expected)) :
    Ensures .reliable (do return reportFound (← step))
      (Arrives stands (Position.found expected)) := by
  refine bind_leads leads ?_
  intro moved standsThere
  exact Ensures.pure ⟨rfl, standsThere⟩

theorem arrives_placed
    {before place : Position}
    {placement : StoreM (Moved Unit State)}
    (leads : Ensures .reliable placement (Regime.reliable.Leads stands before ((), place))) :
    Ensures .reliable (do return reportPlaced (← placement))
      (Arrives stands (.placed, place)) := by
  refine bind_leads leads ?_
  intro moved standsThere
  exact Ensures.pure ⟨rfl, standsThere⟩

/-- A placement and then a step lead where the step leads from there. -/
theorem leads_thenStep
    {before place : Position}
    {placement : StoreM (Moved Unit State)}
    {step : State → StoreM (Moved Bool State)}
    {reference : Position → Bool × Position}
    (placed : Ensures .reliable placement (Regime.reliable.Leads stands before ((), place)))
    (stepped :
      ∀ state,
        stands state place →
        Ensures .reliable (step state)
          (Regime.reliable.Leads stands place (reference place))) :
    Ensures .reliable (do thenStep step (← placement))
      (Regime.reliable.Leads stands place (reference place)) :=
  bind_leads placed stepped

theorem Follows.perform
    (follows : Follows .reliable order elements stands)
    (standing : stands state position)
    (move : Move Element) :
    Ensures .reliable (perform state move)
      (Arrives stands (position.perform order elements move)) := by
  cases move with
  | next =>
      exact arrives_found (follows.next standing)
  | previous =>
      exact arrives_found (follows.previous standing)
  | first =>
      exact arrives_found
        (leads_thenStep (follows.beforeFirst standing) fun _ => follows.next)
  | last =>
      exact arrives_found
        (leads_thenStep (follows.afterLast standing) fun _ => follows.previous)
  | beforeFirst =>
      exact arrives_placed (follows.beforeFirst standing)
  | afterLast =>
      exact arrives_placed (follows.afterLast standing)
  | before element =>
      exact arrives_placed (follows.before element standing)
  | after element =>
      exact arrives_placed (follows.after element standing)

/-! ## Runs -/

/-- Make moves of some kind one after the other, failed ones included, and see each. -/
def runBy {Kind : Type}
    (perform : State → Kind → StoreM (Moved Report State))
    (state : State) :
    List Kind → StoreM (List (Observation Element) × State)
  | [] => return ([], state)
  | kind :: rest => do
      let (result, moved) ← perform state kind
      let (observations, final) ← runBy perform moved rest
      return (⟨result, available moved, get moved⟩ :: observations, final)

theorem run_eq_runBy (state : State) (moves : List (Move Element)) :
    run state moves = runBy perform state moves := by
  induction moves generalizing state with
  | nil =>
      rfl
  | cons move rest inductionHypothesis =>
      simp only [run, runBy, inductionHypothesis]

/-- What is seen of a cursor along a run is what is seen of the position. -/
theorem Follows.runBy
    {Kind : Type}
    {perform : State → Kind → StoreM (Moved Report State)}
    {reference : Position → Kind → Report × Position}
    (follows : Follows .reliable order elements stands)
    (arrives :
      ∀ {state position} (kind : Kind),
        stands state position →
        Ensures .reliable (perform state kind) (Arrives stands (reference position kind)))
    (standing : stands state position)
    (kinds : List Kind) :
    Ensures .reliable (Cursor.runBy perform state kinds) fun outcome =>
      outcome.1 = (Position.run elements reference position kinds).1 ∧
        stands outcome.2 (Position.run elements reference position kinds).2 := by
  induction kinds generalizing state position with
  | nil =>
      exact Ensures.pure ⟨rfl, standing⟩
  | cons kind rest inductionHypothesis =>
      refine Ensures.bind (arrives kind standing) ?_
      rintro ⟨result, moved⟩ ⟨result_eq, standsThere⟩
      refine Ensures.bind (inductionHypothesis standsThere) ?_
      rintro ⟨observations, final⟩ ⟨observed, standsFinally⟩
      refine Ensures.pure ⟨?_, standsFinally⟩
      dsimp only at result_eq observed
      rw [Position.run_cons, ← observed, result_eq, follows.available_eq standsThere,
        follows.get_eq standsThere]

/-- A cursor that makes moves is seen where the position is that makes them. -/
theorem Follows.run
    (follows : Follows .reliable order elements stands)
    (standing : stands state position)
    (moves : List (Move Element)) :
    Ensures .reliable (Cursor.run state moves) fun outcome =>
      outcome.1 =
          (Position.run elements (Position.perform order elements) position moves).1 ∧
        stands outcome.2
          (Position.run elements (Position.perform order elements) position moves).2 := by
  rw [run_eq_runBy]
  exact follows.runBy (fun move standsHere => follows.perform standsHere move) standing moves

end Reliable

end Cursor

end OrderedIndex

import OrderedIndex.Store.Backend

namespace OrderedIndex

/-!
# Cursors

A cursor over an ordered sequence is either on an element or in a gap: before
the first element, after the last, or between two neighbours.  Steps go to the
adjacent element from either kind of position.  A step that finds none leaves
the cursor in the gap at that end, from where it can come back.  Moves may call
a store backend and fail; a failed move still gives back the cursor it leaves.
-/

/-- The moves of a cursor. -/
inductive Move (Element : Type) where
  /-- To the next element. -/
  | next
  /-- To the previous element. -/
  | previous
  /-- To the first element. -/
  | first
  /-- To the last element. -/
  | last
  /-- Into the gap before the first element. -/
  | beforeFirst
  /-- Into the gap after the last element. -/
  | afterLast
  /-- Into the gap before the least element at or above the given one. -/
  | before (element : Element)
  /-- Into the gap after the greatest element at or below the given one. -/
  | after (element : Element)
  deriving Repr, DecidableEq

namespace Move

/-- The same move over the elements in the opposite order. -/
def reversed {Element : Type} : Move Element → Move Element
  | .next => .previous
  | .previous => .next
  | .first => .last
  | .last => .first
  | .beforeFirst => .afterLast
  | .afterLast => .beforeFirst
  | .before element => .after element
  | .after element => .before element

end Move

/-- What a successful move reports. -/
inductive Report where
  /-- A move to an element says whether there is one. -/
  | found (answer : Bool)
  /-- A move into a gap has nothing to say. -/
  | placed
  deriving Repr, DecidableEq

/-- The answer of a move together with the cursor that it leaves. -/
abbrev Moved (Answer State : Type) := Except IndexError Answer × State

/-- The state of a cursor over elements. -/
class Cursor (State : Type) (Element : outParam Type) where
  /-- Whether the cursor is on an element. -/
  available : State → Bool
  /-- The element that the cursor is on. -/
  get : State → Except IndexError Element
  beforeFirst : State → StoreM (Moved Unit State)
  afterLast : State → StoreM (Moved Unit State)
  before : State → Element → StoreM (Moved Unit State)
  after : State → Element → StoreM (Moved Unit State)
  next : State → StoreM (Moved Bool State)
  previous : State → StoreM (Moved Bool State)
  /-- Whether the cursor overwrites one element as it moves. -/
  reusesElement : Bool

namespace Cursor

variable {State Element : Type} [Cursor State Element]

/-- Step after a placement that succeeded. -/
def thenStep
    (step : State → StoreM (Moved Bool State))
    (placed : Moved Unit State) :
    StoreM (Moved Bool State) :=
  match placed with
  | (.ok (), state) => step state
  | (.error cause, state) => return (.error cause, state)

/-- Move to the first element. -/
def first (state : State) : StoreM (Moved Bool State) := do
  thenStep next (← beforeFirst state)

/-- Move to the last element. -/
def last (state : State) : StoreM (Moved Bool State) := do
  thenStep previous (← afterLast state)

/-- Report a step. -/
def reportFound (moved : Moved Bool State) : Moved Report State :=
  (moved.1.map .found, moved.2)

/-- Report a placement. -/
def reportPlaced (moved : Moved Unit State) : Moved Report State :=
  (moved.1.map fun _ => .placed, moved.2)

/-- Make a move. -/
def perform (state : State) : Move Element → StoreM (Moved Report State)
  | .next => return reportFound (← next state)
  | .previous => return reportFound (← previous state)
  | .first => return reportFound (← first state)
  | .last => return reportFound (← last state)
  | .beforeFirst => return reportPlaced (← beforeFirst state)
  | .afterLast => return reportPlaced (← afterLast state)
  | .before element => return reportPlaced (← before state element)
  | .after element => return reportPlaced (← after state element)

/-- What can be seen of a cursor after a move. -/
structure Observation (Element : Type) where
  result : Except IndexError Report
  available : Bool
  element : Except IndexError Element

/-- Make moves one after the other, failed ones included, and see each. -/
def run (state : State) : List (Move Element) → StoreM (List (Observation Element) × State)
  | [] => return ([], state)
  | move :: rest => do
      let (result, moved) ← perform state move
      let (observations, final) ← run moved rest
      return (⟨result, available moved, get moved⟩ :: observations, final)

end Cursor

end OrderedIndex

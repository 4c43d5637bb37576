import OrderedIndex.Error
import OrderedIndex.Order

namespace OrderedIndex

/-!
# Ordered stores

A store is an ordered set of values.  Where a value falls is decided by two
bounds: the values strictly below it and the values not above it.  Once closed,
a store answers nothing but its number.
-/

/-- An ordered set of values with a number. -/
structure OrderedStore (Value : Type) where
  id : StoreId
  order : Order Value
  /-- The values in ascending order, no two of them equal. -/
  values : List Value
  closed : Bool

/-- Where a browser starts in a store. -/
inductive BrowseStart (Value : Type) where
  /-- In front of the first value. -/
  | first
  /-- Behind the last value. -/
  | last
  /-- In front of the least value at or above the given one. -/
  | before (value : Value)
  /-- Behind the greatest value at or below the given one. -/
  | after (value : Value)
  deriving Repr, DecidableEq

/-- A gap between two neighbouring values of a store, or at an end. -/
structure Browser (Value : Type) where
  /-- The values in front of the gap, the nearest first. -/
  behind : List Value
  /-- The values after the gap, the nearest first. -/
  ahead : List Value
  deriving Repr, DecidableEq

namespace Browser

variable {Value : Type}

/-- The gap with `count` of the values in front of it. -/
def ofSplit (values : List Value) (count : Nat) : Browser Value :=
  ⟨(values.take count).reverse, values.drop count⟩

/-- All values in order. -/
def toList (browser : Browser Value) : List Value :=
  browser.behind.reverse ++ browser.ahead

/-- Number of values in front of the gap. -/
def gap (browser : Browser Value) : Nat := browser.behind.length

/-- Cross the value after the gap, if there is one. -/
def next : Browser Value → Option Value × Browser Value
  | ⟨behind, value :: ahead⟩ => (some value, ⟨value :: behind, ahead⟩)
  | ⟨behind, []⟩ => (none, ⟨behind, []⟩)

/-- Cross the value in front of the gap, if there is one. -/
def previous : Browser Value → Option Value × Browser Value
  | ⟨value :: behind, ahead⟩ => (some value, ⟨behind, value :: ahead⟩)
  | ⟨[], ahead⟩ => (none, ⟨[], ahead⟩)

end Browser

namespace OrderedStore

variable {Value : Type}

/-- An open store without values. -/
def empty (id : StoreId) (order : Order Value) : OrderedStore Value :=
  ⟨id, order, [], false⟩

/-- Number of values strictly below a value. -/
def lowerBound (store : OrderedStore Value) (value : Value) : Nat :=
  (store.values.takeWhile fun stored => store.order stored value == .lt).length

/-- Number of values not above a value. -/
def upperBound (store : OrderedStore Value) (value : Value) : Nat :=
  (store.values.takeWhile fun stored => store.order stored value != .gt).length

/-- Whether an equal value is stored. -/
def has (store : OrderedStore Value) (value : Value) : Bool :=
  match store.values.drop (store.lowerBound value) with
  | stored :: _ => store.order stored value == .eq
  | [] => false

/-- Refuse to use a closed store. -/
def checkOpen (store : OrderedStore Value) : Except StoreError Unit :=
  if store.closed then .error (.closed store.id) else .ok ()

/-- Add a value unless an equal one is stored; tell whether it was added. -/
def insert (store : OrderedStore Value) (value : Value) :
    Except StoreError (Bool × OrderedStore Value) := do
  store.checkOpen
  if store.has value then
    return (false, store)
  else
    let place := store.lowerBound value
    let values := store.values.take place ++ value :: store.values.drop place
    return (true, { store with values := values })

/-- Remove the equal value; tell whether there was one. -/
def remove (store : OrderedStore Value) (value : Value) :
    Except StoreError (Bool × OrderedStore Value) := do
  store.checkOpen
  if store.has value then
    let place := store.lowerBound value
    let values := store.values.take place ++ store.values.drop (place + 1)
    return (true, { store with values := values })
  else
    return (false, store)

/-- Whether an equal value is stored. -/
def contains (store : OrderedStore Value) (value : Value) : Except StoreError Bool := do
  store.checkOpen
  return store.has value

/-- Number of values. -/
def size (store : OrderedStore Value) : Except StoreError Nat := do
  store.checkOpen
  return store.values.length

/-- Whether there are no values. -/
def isEmpty (store : OrderedStore Value) : Except StoreError Bool := do
  return (← store.size) == 0

/-- Open a browser. -/
def browse (store : OrderedStore Value) (start : BrowseStart Value) :
    Except StoreError (Browser Value) := do
  store.checkOpen
  match start with
  | .first => return .ofSplit store.values 0
  | .last => return .ofSplit store.values store.values.length
  | .before value => return .ofSplit store.values (store.lowerBound value)
  | .after value => return .ofSplit store.values (store.upperBound value)

/-- Release the values; closing a closed store changes nothing. -/
def close (store : OrderedStore Value) : OrderedStore Value :=
  if store.closed then store else { store with values := [], closed := true }

end OrderedStore

end OrderedIndex

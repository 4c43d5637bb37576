import OrderedIndex.Store.Basic

namespace OrderedIndex

/-!
# Stores in arrays

A store in memory keeps its values in an array and finds them by halving: each
comparison leaves half of the part of the array where a sought value may be.  A
browser is an index into that array.  The indices carry their bounds, so nothing
that is done with an open store can fail.
-/

/-- Where a search in an array of the given size ends. -/
inductive Halved (size : Nat) where
  /-- At an element that counts as the sought one. -/
  | found (place : Nat) (inside : place < size)
  /-- Between two elements or at an end. -/
  | missing (place : Nat) (within : place ≤ size)

namespace Halved

variable {Element : Type} {size : Nat}

/-- The number of elements in front of where the search ends. -/
def place : Halved size → Nat
  | .found place _ => place
  | .missing place _ => place

/-- Whether an element counts as the sought one. -/
def isFound : Halved size → Bool
  | .found .. => true
  | .missing .. => false

theorem place_le (halved : Halved size) : halved.place ≤ size := by
  cases halved with
  | found place inside =>
      exact Nat.le_of_lt inside
  | missing place within =>
      exact within

/--
Search the part of an array between two places.  The comparison tells on which
side of the sought element an element of the array is.
-/
def between
    (elements : Array Element)
    (compare : Element → Ordering)
    (low high : Nat)
    (ordered : low ≤ high)
    (within : high ≤ elements.size) :
    Halved elements.size :=
  if more : low < high then
    let middle := low + (high - low) / 2
    match compare elements[middle] with
    | .lt => between elements compare (middle + 1) high (by omega) within
    | .gt => between elements compare low middle (by omega) (by omega)
    | .eq => .found middle (by omega)
  else
    .missing low (by omega)
termination_by high - low

/-- Search a whole array. -/
def search (elements : Array Element) (compare : Element → Ordering) : Halved elements.size :=
  between elements compare 0 elements.size (Nat.zero_le _) (Nat.le_refl _)

/-- The place in front of the first element that does not meet a condition. -/
def border (elements : Array Element) (condition : Element → Bool) : Nat :=
  (search elements fun element => if condition element then .lt else .gt).place

end Halved

/-- An ordered set of values in an array. -/
structure ArrayStore (Value : Type) where
  id : StoreId
  order : Order Value
  /-- The values in ascending order, no two of them equal. -/
  values : Array Value
  closed : Bool

/-- A gap between two neighbouring values of an array, or at an end. -/
structure ArrayBrowser (Value : Type) where
  values : Array Value
  /-- Number of values in front of the gap. -/
  gap : Nat
  within : gap ≤ values.size

namespace ArrayBrowser

variable {Value : Type}

/-- Cross the value after the gap, if there is one. -/
def next : ArrayBrowser Value → Option Value × ArrayBrowser Value
  | ⟨values, gap, within⟩ =>
      if inside : gap < values.size then (some values[gap], ⟨values, gap + 1, inside⟩)
      else (none, ⟨values, gap, within⟩)

/-- Cross the value in front of the gap, if there is one. -/
def previous : ArrayBrowser Value → Option Value × ArrayBrowser Value
  | ⟨values, 0, within⟩ => (none, ⟨values, 0, within⟩)
  | ⟨values, place + 1, within⟩ =>
      (some values[place], ⟨values, place, Nat.le_of_succ_le within⟩)

end ArrayBrowser

namespace ArrayStore

variable {Value : Type}

/-- An open store without values. -/
def empty (id : StoreId) (order : Order Value) : ArrayStore Value :=
  ⟨id, order, #[], false⟩

/-- Refuse to use a closed store. -/
def checkOpen (store : ArrayStore Value) : Except StoreError Unit :=
  if store.closed then .error (.closed store.id) else .ok ()

/-- Search for a value. -/
def search (store : ArrayStore Value) (value : Value) : Halved store.values.size :=
  .search store.values fun stored => store.order stored value

/-- Number of values strictly below a value. -/
def lowerBound (store : ArrayStore Value) (value : Value) : Nat :=
  Halved.border store.values fun stored => store.order stored value == .lt

/-- Number of values not above a value. -/
def upperBound (store : ArrayStore Value) (value : Value) : Nat :=
  Halved.border store.values fun stored => store.order stored value != .gt

/-- Add a value unless an equal one is stored; tell whether it was added. -/
def insert (store : ArrayStore Value) (value : Value) :
    Except StoreError (Bool × ArrayStore Value) := do
  store.checkOpen
  match store.search value with
  | .found .. => return (false, store)
  | .missing place within =>
      return (true, { store with values := store.values.insertIdx place value within })

/-- Remove the equal value; tell whether there was one. -/
def remove (store : ArrayStore Value) (value : Value) :
    Except StoreError (Bool × ArrayStore Value) := do
  store.checkOpen
  match store.search value with
  | .found place inside =>
      return (true, { store with values := store.values.eraseIdx place inside })
  | .missing .. => return (false, store)

/-- Whether an equal value is stored. -/
def contains (store : ArrayStore Value) (value : Value) : Except StoreError Bool := do
  store.checkOpen
  return (store.search value).isFound

/-- Number of values. -/
def size (store : ArrayStore Value) : Except StoreError Nat := do
  store.checkOpen
  return store.values.size

/-- Whether there are no values. -/
def isEmpty (store : ArrayStore Value) : Except StoreError Bool := do
  return (← store.size) == 0

/-- Open a browser. -/
def browse (store : ArrayStore Value) (start : BrowseStart Value) :
    Except StoreError (ArrayBrowser Value) := do
  store.checkOpen
  match start with
  | .first => return ⟨store.values, 0, Nat.zero_le _⟩
  | .last => return ⟨store.values, store.values.size, Nat.le_refl _⟩
  | .before value => return ⟨store.values, store.lowerBound value, Halved.place_le _⟩
  | .after value => return ⟨store.values, store.upperBound value, Halved.place_le _⟩

/-- Release the values; closing a closed store changes nothing. -/
def close (store : ArrayStore Value) : ArrayStore Value :=
  if store.closed then store else { store with values := #[], closed := true }

end ArrayStore

end OrderedIndex

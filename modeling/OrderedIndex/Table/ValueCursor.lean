import OrderedIndex.Table.Basic
import OrderedIndex.Tree.Cursor

namespace OrderedIndex

/-!
# Value cursors

A cursor over the values of one key, wherever they are stored.  A browser of a
secondary store sits in a gap, so after a change of direction it returns the
value that it returned last; a cursor skips that repeat.
-/

/-- A cursor over the values of a secondary store. -/
structure StoreCursor (Value : Type) where
  store : OrderedStore Value
  order : Order Value
  browser : Browser Value
  /-- The value that the cursor is on. -/
  current : Option Value

namespace StoreCursor

variable {Value : Type}

/-- Whether the cursor is on a value equal to the given one. -/
def isOn (cursor : StoreCursor Value) (value : Value) : Bool :=
  cursor.current.any fun current => cursor.order current value == .eq

/-- A cursor before the first value. -/
def new (store : OrderedStore Value) (order : Order Value) :
    StoreM (Except IndexError (StoreCursor Value)) := do
  match ← Backend.browse store .first with
  | .ok browser => return .ok ⟨store, order, browser, none⟩
  | .error cause => return .error (.ofStore cause)

/-- Move into a gap. -/
def reposition (cursor : StoreCursor Value) (start : BrowseStart Value) :
    StoreM (Moved Unit (StoreCursor Value)) := do
  match ← Backend.browse cursor.store start with
  | .ok browser => return (.ok (), { cursor with browser := browser, current := none })
  | .error cause => return (.error (.ofStore cause), cursor)

/-- Cross values forward until one is not the current one again. -/
def stepForward (cursor : StoreCursor Value) (behind : List Value) :
    (ahead : List Value) → StoreM (Moved Bool (StoreCursor Value))
  | [] => do
      let stopped := { cursor with browser := ⟨behind, []⟩ }
      match ← Backend.meet .next with
      | .error cause => return (.error (.ofStore cause), stopped)
      | .ok () => return (.ok false, { stopped with current := none })
  | value :: ahead => do
      match ← Backend.meet .next with
      | .error cause =>
          return (.error (.ofStore cause), { cursor with browser := ⟨behind, value :: ahead⟩ })
      | .ok () =>
          if cursor.isOn value then cursor.stepForward (value :: behind) ahead
          else
            return (.ok true,
              { cursor with browser := ⟨value :: behind, ahead⟩, current := some value })

/-- Cross values backward until one is not the current one again. -/
def stepBackward (cursor : StoreCursor Value) (ahead : List Value) :
    (behind : List Value) → StoreM (Moved Bool (StoreCursor Value))
  | [] => do
      let stopped := { cursor with browser := ⟨[], ahead⟩ }
      match ← Backend.meet .previous with
      | .error cause => return (.error (.ofStore cause), stopped)
      | .ok () => return (.ok false, { stopped with current := none })
  | value :: behind => do
      match ← Backend.meet .previous with
      | .error cause =>
          return (.error (.ofStore cause), { cursor with browser := ⟨value :: behind, ahead⟩ })
      | .ok () =>
          if cursor.isOn value then cursor.stepBackward (value :: ahead) behind
          else
            return (.ok true,
              { cursor with browser := ⟨behind, value :: ahead⟩, current := some value })

/-- Move to the next value. -/
def next (cursor : StoreCursor Value) : StoreM (Moved Bool (StoreCursor Value)) :=
  cursor.stepForward cursor.browser.behind cursor.browser.ahead

/-- Move to the previous value. -/
def previous (cursor : StoreCursor Value) : StoreM (Moved Bool (StoreCursor Value)) :=
  cursor.stepBackward cursor.browser.ahead cursor.browser.behind

end StoreCursor

/-- Where a cursor over a single value is. -/
inductive SinglePosition where
  | beforeFirst
  | on
  | afterLast
  deriving Repr, DecidableEq

/-- A cursor over the values of one key in value order. -/
inductive ValueCursor (Value : Type) where
  /-- Over the values of an absent key. -/
  | empty
  /--
  Over the one value of a key.  Without an order every value counts as equal to
  it.
  -/
  | single (value : Value) (order? : Option (Order Value)) (position : SinglePosition)
  /-- Over an inline group. -/
  | inline (cursor : TreeCursor Value Unit)
  /-- Over a redirected group. -/
  | redirected (cursor : StoreCursor Value)

namespace ValueCursor

variable {Value : Type}

/-- A cursor before the first value of a group. -/
def ofGroup (group : Group Value) (order : Order Value) :
    StoreM (Except IndexError (ValueCursor Value)) := do
  match group with
  | .inline tree => return .ok (.inline tree.cursor)
  | .redirected store => return (← StoreCursor.new store order).map .redirected

/-- Whether the cursor is on a value. -/
def available : ValueCursor Value → Bool
  | .empty => false
  | .single _ _ position => position == .on
  | .inline cursor => cursor.node?.isSome
  | .redirected cursor => cursor.current.isSome

/-- The value that the cursor is on. -/
def get : ValueCursor Value → Except IndexError Value
  | .single value _ .on => .ok value
  | .inline cursor => cursor.get
  | .redirected cursor =>
      match cursor.current with
      | some value => .ok value
      | none => .error .invalidPosition
  | _ => .error .invalidPosition

/-- The value cursor of a moved store cursor. -/
def ofStore {Answer : Type} (moved : Moved Answer (StoreCursor Value)) :
    Moved Answer (ValueCursor Value) :=
  (moved.1, .redirected moved.2)

/-- The value cursor of a stepped tree cursor. -/
def ofTree (stepped : Bool × TreeCursor Value Unit) : Moved Bool (ValueCursor Value) :=
  (.ok stepped.1, .inline stepped.2)

/-- Move into the gap before the first value. -/
def beforeFirst : ValueCursor Value → StoreM (Moved Unit (ValueCursor Value))
  | .empty => return (.ok (), .empty)
  | .single value order? _ => return (.ok (), .single value order? .beforeFirst)
  | .inline cursor => return (.ok (), .inline cursor.beforeFirst)
  | .redirected cursor => return ofStore (← cursor.reposition .first)

/-- Move into the gap after the last value. -/
def afterLast : ValueCursor Value → StoreM (Moved Unit (ValueCursor Value))
  | .empty => return (.ok (), .empty)
  | .single value order? _ => return (.ok (), .single value order? .afterLast)
  | .inline cursor => return (.ok (), .inline cursor.afterLast)
  | .redirected cursor => return ofStore (← cursor.reposition .last)

/-- Move into the gap before the least value at or above the given one. -/
def before (cursor : ValueCursor Value) (element : Value) :
    StoreM (Moved Unit (ValueCursor Value)) :=
  match cursor with
  | .empty => return (.ok (), .empty)
  | .single value order? _ =>
      let isAbove := order?.any fun order => order element value == .gt
      return (.ok (), .single value order? (if isAbove then .afterLast else .beforeFirst))
  | .inline cursor => return (.ok (), .inline (cursor.before element))
  | .redirected cursor => return ofStore (← cursor.reposition (.before element))

/-- Move into the gap after the greatest value at or below the given one. -/
def after (cursor : ValueCursor Value) (element : Value) :
    StoreM (Moved Unit (ValueCursor Value)) :=
  match cursor with
  | .empty => return (.ok (), .empty)
  | .single value order? _ =>
      let isBelow := order?.any fun order => order element value == .lt
      return (.ok (), .single value order? (if isBelow then .beforeFirst else .afterLast))
  | .inline cursor => return (.ok (), .inline (cursor.after element))
  | .redirected cursor => return ofStore (← cursor.reposition (.after element))

/-- Move to the next value. -/
def next : ValueCursor Value → StoreM (Moved Bool (ValueCursor Value))
  | .empty => return (.ok false, .empty)
  | .single value order? .beforeFirst => return (.ok true, .single value order? .on)
  | .single value order? _ => return (.ok false, .single value order? .afterLast)
  | .inline cursor => return ofTree cursor.next
  | .redirected cursor => return ofStore (← cursor.next)

/-- Move to the previous value. -/
def previous : ValueCursor Value → StoreM (Moved Bool (ValueCursor Value))
  | .empty => return (.ok false, .empty)
  | .single value order? .afterLast => return (.ok true, .single value order? .on)
  | .single value order? _ => return (.ok false, .single value order? .beforeFirst)
  | .inline cursor => return ofTree cursor.previous
  | .redirected cursor => return ofStore (← cursor.previous)

instance : Cursor (ValueCursor Value) Value where
  available := available
  get := get
  beforeFirst := beforeFirst
  afterLast := afterLast
  before := before
  after := after
  next := next
  previous := previous
  reusesElement := false

end ValueCursor

namespace Table

variable {Key Value : Type}

/-- A cursor before the first value under the key of a node. -/
def valuesAt (table : Table Key Value) (node : NodeId) :
    StoreM (Except IndexError (ValueCursor Value)) :=
  match table.entries with
  | .unique tree =>
      match tree.value? node with
      | some value => return .ok (.single value table.valueOrder? .beforeFirst)
      | none => return .ok .empty
  | .duplicates tree policy =>
      match tree.value? node with
      | some group => ValueCursor.ofGroup group policy.order
      | none => return .ok .empty

/-- A cursor before the first value of a key. -/
def valueCursor (table : Table Key Value) (key : Key) :
    StoreM (Except IndexError (ValueCursor Value)) :=
  match table.entries.ask fun tree => tree.find? key with
  | some node => table.valuesAt node
  | none => return .ok .empty

end Table

end OrderedIndex

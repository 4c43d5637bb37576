import OrderedIndex.Table.ValueCursor
import OrderedIndex.Tuple

namespace OrderedIndex

/-!
# Table cursors

A cursor over all tuples of a table in key order and, under one key, in value
order.  It holds a cursor over the values of the key it is at, and a copy of
the tuple it is on.
-/

/-- Where a table cursor is. -/
inductive TablePosition (Value : Type) where
  | beforeFirst
  | afterLast
  /-- Among the values under the key of a node. -/
  | within (node : NodeId) (values : ValueCursor Value)

/-- A cursor over the tuples of a table. -/
structure TableCursor (Key Value : Type) where
  table : Table Key Value
  position : TablePosition Value
  /-- The tuple that the cursor was on last. -/
  tuple : Option (Tuple Key Value)
  /-- Whether the cursor is still on that tuple. -/
  available : Bool

namespace Table

/-- A cursor before the first tuple. -/
def cursor {Key Value : Type} (table : Table Key Value) : TableCursor Key Value :=
  ⟨table, .beforeFirst, none, false⟩

end Table

namespace TableCursor

variable {Key Value : Type}

/-- The tuple that the cursor is on. -/
def get (cursor : TableCursor Key Value) : Except IndexError (Tuple Key Value) :=
  match cursor.tuple, cursor.available with
  | some tuple, true => .ok tuple
  | _, _ => .error .invalidPosition

/-- Move into the gap before the first tuple. -/
def beforeFirst (cursor : TableCursor Key Value) : TableCursor Key Value :=
  { cursor with position := .beforeFirst, available := false }

/-- Move into the gap after the last tuple. -/
def afterLast (cursor : TableCursor Key Value) : TableCursor Key Value :=
  { cursor with position := .afterLast, available := false }

/-- The node with the least key at or above the given one. -/
def nodeAtLeast? (cursor : TableCursor Key Value) (key : Key) : Option NodeId :=
  cursor.table.entries.ask fun tree => tree.findAtLeast? key

/-- Move in front of the values at a node, or after the last tuple without a node. -/
def enter (cursor : TableCursor Key Value) (target : Option NodeId) :
    StoreM (Moved Unit (TableCursor Key Value)) := do
  let gone := { cursor with available := false }
  match target with
  | none => return (.ok (), { gone with position := .afterLast })
  | some node =>
      match ← cursor.table.valuesAt node with
      | .ok values => return (.ok (), { gone with position := .within node values })
      | .error cause => return (.error cause, gone)

/-- Move into the gap before the first tuple with a key at or above the given one. -/
def beforeKey (cursor : TableCursor Key Value) (key : Key) :
    StoreM (Moved Unit (TableCursor Key Value)) :=
  cursor.enter (cursor.nodeAtLeast? key)

/-- Move into the gap after the last tuple with a key at or below the given one. -/
def afterKey (cursor : TableCursor Key Value) (key : Key) :
    StoreM (Moved Unit (TableCursor Key Value)) :=
  cursor.enter (cursor.table.entries.ask fun tree => tree.findAbove? key)

/-- Place the cursor among the values of the key it entered, if the key is the given one. -/
def placeWithin
    (cursor : TableCursor Key Value)
    (key : Key)
    (place : ValueCursor Value → StoreM (Moved Unit (ValueCursor Value))) :
    StoreM (Moved Unit (TableCursor Key Value)) := do
  match cursor.position with
  | .within node values =>
      let found := cursor.table.entries.ask fun tree => tree.key? node
      if found.any fun stored => cursor.table.keyOrder stored key == .eq then
        let (answer, placed) ← place values
        return (answer, { cursor with position := .within node placed })
      else return (.ok (), cursor)
  | _ => return (.ok (), cursor)

/-- Move into the gap before the least tuple at or above the given one. -/
def before (cursor : TableCursor Key Value) (element : Tuple Key Value) :
    StoreM (Moved Unit (TableCursor Key Value)) := do
  match ← cursor.enter (cursor.nodeAtLeast? element.key) with
  | (.ok (), entered) =>
      entered.placeWithin element.key fun values => values.before element.value
  | failed => return failed

/-- Move into the gap after the greatest tuple at or below the given one. -/
def after (cursor : TableCursor Key Value) (element : Tuple Key Value) :
    StoreM (Moved Unit (TableCursor Key Value)) := do
  match ← cursor.enter (cursor.nodeAtLeast? element.key) with
  | (.ok (), entered) =>
      entered.placeWithin element.key fun values => values.after element.value
  | failed => return failed

/-- Copy the tuple that the cursor has reached. -/
def load (cursor : TableCursor Key Value) : Moved Bool (TableCursor Key Value) :=
  match cursor.position with
  | .within node values =>
      match cursor.table.entries.ask (fun tree => tree.key? node), values.get with
      | some key, .ok value =>
          (.ok true, { cursor with tuple := some ⟨key, value⟩, available := true })
      | _, .error cause => (.error cause, cursor)
      | none, .ok _ => (.error .invalidPosition, cursor)
  | _ => (.error .invalidPosition, cursor)

/-- Move to the first tuple from a node on, trying at most `count` nodes. -/
def seekForward (cursor : TableCursor Key Value) :
    (count : Nat) → Option NodeId → StoreM (Moved Bool (TableCursor Key Value))
  | 0, _ => return (.ok false, cursor.afterLast)
  | _, none => return (.ok false, cursor.afterLast)
  | count + 1, some node => do
      match ← cursor.table.valuesAt node with
      | .error cause => return (.error cause, cursor)
      | .ok values =>
          match ← values.next with
          | (.error cause, _) => return (.error cause, cursor)
          | (.ok true, moved) =>
              return { cursor with position := .within node moved }.load
          | (.ok false, _) =>
              cursor.seekForward count (cursor.table.entries.ask fun tree => tree.next? node)

/-- Move to the last tuple from a node backward, trying at most `count` nodes. -/
def seekBackward (cursor : TableCursor Key Value) :
    (count : Nat) → Option NodeId → StoreM (Moved Bool (TableCursor Key Value))
  | 0, _ => return (.ok false, cursor.beforeFirst)
  | _, none => return (.ok false, cursor.beforeFirst)
  | count + 1, some node => do
      match ← cursor.table.valuesAt node with
      | .error cause => return (.error cause, cursor)
      | .ok values =>
          match ← values.afterLast with
          | (.error cause, _) => return (.error cause, cursor)
          | (.ok (), placed) =>
              match ← placed.previous with
              | (.error cause, _) => return (.error cause, cursor)
              | (.ok true, moved) =>
                  return { cursor with position := .within node moved }.load
              | (.ok false, _) =>
                  cursor.seekBackward count
                    (cursor.table.entries.ask fun tree => tree.previous? node)

/-- Move to the next tuple. -/
def next (cursor : TableCursor Key Value) : StoreM (Moved Bool (TableCursor Key Value)) := do
  let count := cursor.table.keyCount
  match cursor.position with
  | .beforeFirst => cursor.seekForward count (cursor.table.entries.ask fun tree => tree.first)
  | .afterLast => return (.ok false, cursor.afterLast)
  | .within node values =>
      match ← values.next with
      | (.error cause, moved) =>
          return (.error cause, { cursor with position := .within node moved })
      | (.ok true, moved) => return { cursor with position := .within node moved }.load
      | (.ok false, moved) =>
          let exhausted := { cursor with position := .within node moved }
          exhausted.seekForward count (cursor.table.entries.ask fun tree => tree.next? node)

/-- Move to the previous tuple. -/
def previous (cursor : TableCursor Key Value) :
    StoreM (Moved Bool (TableCursor Key Value)) := do
  let count := cursor.table.keyCount
  match cursor.position with
  | .beforeFirst => return (.ok false, cursor.beforeFirst)
  | .afterLast => cursor.seekBackward count (cursor.table.entries.ask fun tree => tree.last)
  | .within node values =>
      match ← values.previous with
      | (.error cause, moved) =>
          return (.error cause, { cursor with position := .within node moved })
      | (.ok true, moved) => return { cursor with position := .within node moved }.load
      | (.ok false, moved) =>
          let exhausted := { cursor with position := .within node moved }
          exhausted.seekBackward count (cursor.table.entries.ask fun tree => tree.previous? node)

instance : Cursor (TableCursor Key Value) (Tuple Key Value) where
  available := available
  get := get
  beforeFirst cursor := return (.ok (), cursor.beforeFirst)
  afterLast cursor := return (.ok (), cursor.afterLast)
  before := before
  after := after
  next := next
  previous := previous
  reusesElement := true

end TableCursor

end OrderedIndex

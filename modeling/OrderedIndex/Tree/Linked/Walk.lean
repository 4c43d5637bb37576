import OrderedIndex.Tree.Cursor
import OrderedIndex.Tree.Format
import OrderedIndex.Tree.Iterator
import OrderedIndex.Tree.Linked.Search

namespace OrderedIndex

/-!
# Walking in memory

Iteration, cursors and the byte form follow the chain from node to node.
-/

/-! ## Iteration -/

/-- The entries of a tree in memory that are still to come. -/
structure LinkedIterator (Key Value : Type) where
  tree : LinkedTree Key Value
  /-- The node that the front hands out next. -/
  front : Option NodeId
  /-- The node that the back hands out next. -/
  back : Option NodeId
  /-- Number of entries still to come. -/
  remaining : Nat

/-- An iterator over all entries. -/
def LinkedTree.iterator {Key Value : Type} (tree : LinkedTree Key Value) :
    LinkedIterator Key Value :=
  ⟨tree, tree.first, tree.last, tree.size⟩

namespace LinkedIterator

variable {Key Value : Type}

/-- Hand out the entry at the front; `none` once all are handed out. -/
def next (iterator : LinkedIterator Key Value) :
    Except TreeFault (Option (Key × Value) × LinkedIterator Key Value) :=
  if iterator.remaining = 0 then .ok (none, iterator)
  else
    match iterator.front with
    | none => .ok (none, iterator)
    | some id => do
        let node ← iterator.tree.node id
        return (some (node.key, node.value),
          { iterator with front := node.next, remaining := iterator.remaining - 1 })

/-- Hand out the entry at the back; `none` once all are handed out. -/
def nextBack (iterator : LinkedIterator Key Value) :
    Except TreeFault (Option (Key × Value) × LinkedIterator Key Value) :=
  if iterator.remaining = 0 then .ok (none, iterator)
  else
    match iterator.back with
    | none => .ok (none, iterator)
    | some id => do
        let node ← iterator.tree.node id
        return (some (node.key, node.value),
          { iterator with back := node.previous, remaining := iterator.remaining - 1 })

end LinkedIterator

/-! ## Cursors -/

/-- A cursor over the keys of a tree in memory. -/
structure LinkedCursor (Key Value : Type) where
  tree : LinkedTree Key Value
  position : TreePosition

/-- A cursor before the first key. -/
def LinkedTree.cursor {Key Value : Type} (tree : LinkedTree Key Value) :
    LinkedCursor Key Value :=
  ⟨tree, .beforeFirst⟩

namespace LinkedCursor

variable {Key Value : Type}

/-- The node that the cursor is on. -/
def node? (cursor : LinkedCursor Key Value) : Option NodeId :=
  match cursor.position with
  | .on id => some id
  | _ => none

/-- The entry that the cursor is on. -/
def entry (cursor : LinkedCursor Key Value) :
    Except TreeFault (Except IndexError (Key × Value)) :=
  match cursor.node? with
  | none => .ok (.error .invalidPosition)
  | some id => do
      let node ← cursor.tree.node id
      return .ok (node.key, node.value)

/-- The key that the cursor is on. -/
def get (cursor : LinkedCursor Key Value) : Except TreeFault (Except IndexError Key) :=
  match cursor.node? with
  | none => .ok (.error .invalidPosition)
  | some id => do return .ok (← cursor.tree.keyAt id)

/-- Move into the gap before the first key. -/
def beforeFirst (cursor : LinkedCursor Key Value) : LinkedCursor Key Value :=
  { cursor with position := .beforeFirst }

/-- Move into the gap after the last key. -/
def afterLast (cursor : LinkedCursor Key Value) : LinkedCursor Key Value :=
  { cursor with position := .afterLast }

/-- Move in front of a node, or after the last key if there is no such node. -/
def inFront (cursor : LinkedCursor Key Value) (node : Option NodeId) :
    LinkedCursor Key Value :=
  { cursor with position := (node.map .before).getD .afterLast }

/-- Move into the gap before the least key at or above the given one. -/
def before (cursor : LinkedCursor Key Value) (key : Key) :
    Except TreeFault (LinkedCursor Key Value) := do
  return cursor.inFront (← cursor.tree.findAtLeast? key)

/-- Move into the gap after the greatest key at or below the given one. -/
def after (cursor : LinkedCursor Key Value) (key : Key) :
    Except TreeFault (LinkedCursor Key Value) := do
  return cursor.inFront (← cursor.tree.findAbove? key)

/-- Move onto a node, or to an end if there is no node. -/
def settle
    (cursor : LinkedCursor Key Value)
    (target : Option NodeId)
    (exhausted : TreePosition) :
    Bool × LinkedCursor Key Value :=
  match target with
  | some id => (true, { cursor with position := .on id })
  | none => (false, { cursor with position := exhausted })

/-- Move to the next key. -/
def next (cursor : LinkedCursor Key Value) :
    Except TreeFault (Bool × LinkedCursor Key Value) := do
  let target ← match cursor.position with
    | .beforeFirst => pure cursor.tree.first
    | .afterLast => pure none
    | .on id => cursor.tree.nextAt id
    | .before id => pure (some id)
  return cursor.settle target .afterLast

/-- Move to the previous key. -/
def previous (cursor : LinkedCursor Key Value) :
    Except TreeFault (Bool × LinkedCursor Key Value) := do
  let target ← match cursor.position with
    | .beforeFirst => pure none
    | .afterLast => pure cursor.tree.last
    | .on id | .before id => cursor.tree.previousAt id
  return cursor.settle target .beforeFirst

/-- Make a move. -/
def perform (cursor : LinkedCursor Key Value) :
    Move Key → Except TreeFault (Report × LinkedCursor Key Value)
  | .next => return (← cursor.next).map .found id
  | .previous => return (← cursor.previous).map .found id
  | .first => return (← cursor.beforeFirst.next).map .found id
  | .last => return (← cursor.afterLast.previous).map .found id
  | .beforeFirst => .ok (.placed, cursor.beforeFirst)
  | .afterLast => .ok (.placed, cursor.afterLast)
  | .before key => return (.placed, ← cursor.before key)
  | .after key => return (.placed, ← cursor.after key)

/-- Make moves one after the other and see each. -/
def run (cursor : LinkedCursor Key Value) :
    List (Move Key) →
      Except TreeFault (List (Cursor.Observation Key) × LinkedCursor Key Value)
  | [] => .ok ([], cursor)
  | move :: rest => do
      let (report, moved) ← cursor.perform move
      let element ← moved.get
      let (observations, final) ← moved.run rest
      return (⟨.ok report, moved.node?.isSome, element⟩ :: observations, final)

end LinkedCursor

/-! ## The byte form -/

namespace LinkedTree

variable {Key Value : Type}

/-- The nodes of the chain from a node on, at most `fuel` of them. -/
def chain (tree : LinkedTree Key Value) :
    (fuel : Nat) → Option NodeId → Except TreeFault (List NodeId)
  | _, none => .ok []
  | 0, some _ => .error .endless
  | fuel + 1, some id => do
      return id :: (← tree.chain fuel (← tree.nextAt id))

/-- Write the places of nodes in key order into a table with a word for each slot. -/
def number (place : Nat) (places : Array UInt32) :
    List NodeId → Except TreeFault (Array UInt32)
  | [] => .ok places
  | id :: rest =>
      if id < places.size then
        number (place + 1) (places.setIfInBounds id (UInt32.ofNat place)) rest
      else
        .error (.outOfBounds places.size id)

/-- The word for a node's place; no node has a word of its own. -/
def placeOf (places : Array UInt32) : Option NodeId → Except TreeFault UInt32
  | none => .ok noNode
  | some id => TreeFault.expect (.outOfBounds places.size id) places[id]?

/-- What a codec or a length check answers, where no check of the tree is involved. -/
def answered {Answer : Type} (answer : Except IndexError Answer) :
    ExceptT IndexError (Except TreeFault) Answer :=
  ExceptT.mk (.ok answer)

/-- The bytes of a node's record. -/
def record
    (tree : LinkedTree Key Value)
    (format : TreeFormat Key Value)
    (places : Array UInt32)
    (id : NodeId) :
    ExceptT IndexError (Except TreeFault) Bytes := do
  let node ← ExceptT.lift (tree.node id)
  let key ← answered (format.keys.append [] node.key)
  let value ← answered (format.values.append [] node.value)
  answered (checkPayload "encoded key" key.length)
  answered (checkPayload "encoded value" value.length)
  let left ← ExceptT.lift (placeOf places node.left)
  let right ← ExceptT.lift (placeOf places node.right)
  let balance ← ExceptT.lift (tree.balance id)
  return NodeRecord.toBytes ⟨left, right, Int8.ofInt balance, key, value⟩

/-- The bytes of the records of nodes, one after the other. -/
def records
    (tree : LinkedTree Key Value)
    (format : TreeFormat Key Value)
    (places : Array UInt32) :
    List NodeId → ExceptT IndexError (Except TreeFault) Bytes
  | [] => return []
  | id :: rest => do
      let first ← tree.record format places id
      return first ++ (← tree.records format places rest)

/-- The bytes for the place of the topmost node, if there is one. -/
def rootBytes (tree : LinkedTree Key Value) (places : Array UInt32) :
    ExceptT IndexError (Except TreeFault) Bytes :=
  match tree.root with
  | some id => Bytes.ofUInt32 <$> ExceptT.lift (placeOf places (some id))
  | none => return []

/-- The bytes of a tree. -/
def serialize (tree : LinkedTree Key Value) (format : TreeFormat Key Value) :
    ExceptT IndexError (Except TreeFault) Bytes := do
  let ids ← ExceptT.lift (tree.chain tree.nodes.size tree.first)
  let places ← ExceptT.lift (number 0 (Array.replicate tree.nodes.size noNode) ids)
  if UInt32.size ≤ tree.size then
    throw (.encode "too many nodes")
  let root ← tree.rootBytes places
  let records ← tree.records format places ids
  return Bytes.ofUInt32 (UInt32.ofNat tree.size) ++ root ++ records

end LinkedTree

end OrderedIndex

import OrderedIndex.Cursor
import OrderedIndex.Tree.Basic

namespace OrderedIndex

/-!
# Tree cursors

A cursor over the keys of a tree.  Its steps follow the chain of entries; only
placements search.
-/

/-- Where a tree cursor is. -/
inductive TreePosition where
  | beforeFirst
  | afterLast
  /-- On a node. -/
  | on (id : NodeId)
  /-- In the gap just in front of a node. -/
  | before (id : NodeId)
  deriving Repr, DecidableEq

/-- A cursor over the keys of a tree. -/
structure TreeCursor (Key Value : Type) where
  tree : OrderedTree Key Value
  position : TreePosition

namespace OrderedTree

/-- A cursor before the first key. -/
def cursor {Key Value : Type} (tree : OrderedTree Key Value) : TreeCursor Key Value :=
  ⟨tree, .beforeFirst⟩

end OrderedTree

namespace TreeCursor

variable {Key Value : Type}

/-- A copy of the cursor, over the same tree and in the same place. -/
def clone (cursor : TreeCursor Key Value) : TreeCursor Key Value where
  tree := cursor.tree
  position := cursor.position

/-- The node that the cursor is on. -/
def node? (cursor : TreeCursor Key Value) : Option NodeId :=
  match cursor.position with
  | .on id => some id
  | _ => none

/-- The entry that the cursor is on. -/
def entry (cursor : TreeCursor Key Value) : Except IndexError (Key × Value) :=
  match cursor.node?.bind cursor.tree.entry? with
  | some entry => .ok (entry.key, entry.value)
  | none => .error .invalidPosition

/-- The key that the cursor is on. -/
def get (cursor : TreeCursor Key Value) : Except IndexError Key :=
  cursor.entry.map Prod.fst

/-- Move into the gap before the first key. -/
def beforeFirst (cursor : TreeCursor Key Value) : TreeCursor Key Value :=
  { cursor with position := .beforeFirst }

/-- Move into the gap after the last key. -/
def afterLast (cursor : TreeCursor Key Value) : TreeCursor Key Value :=
  { cursor with position := .afterLast }

/-- Move in front of a node, or after the last key if there is no such node. -/
def inFront (cursor : TreeCursor Key Value) (node : Option NodeId) :
    TreeCursor Key Value :=
  { cursor with position := (node.map .before).getD .afterLast }

/-- Move into the gap before the least key at or above the given one. -/
def before (cursor : TreeCursor Key Value) (key : Key) : TreeCursor Key Value :=
  cursor.inFront (cursor.tree.findAtLeast? key)

/-- Move into the gap after the greatest key at or below the given one. -/
def after (cursor : TreeCursor Key Value) (key : Key) : TreeCursor Key Value :=
  cursor.inFront (cursor.tree.findAbove? key)

/-- Move onto a node, or to an end if there is no node. -/
def settle (cursor : TreeCursor Key Value) (target : Option NodeId) (exhausted : TreePosition) :
    Bool × TreeCursor Key Value :=
  match target with
  | some id => (true, { cursor with position := .on id })
  | none => (false, { cursor with position := exhausted })

/-- Move to the next key. -/
def next (cursor : TreeCursor Key Value) : Bool × TreeCursor Key Value :=
  let target := match cursor.position with
    | .beforeFirst => cursor.tree.first
    | .afterLast => none
    | .on id => cursor.tree.next? id
    | .before id => some id
  cursor.settle target .afterLast

/-- Move to the previous key. -/
def previous (cursor : TreeCursor Key Value) : Bool × TreeCursor Key Value :=
  let target := match cursor.position with
    | .beforeFirst => none
    | .afterLast => cursor.tree.last
    | .on id | .before id => cursor.tree.previous? id
  cursor.settle target .beforeFirst

/-- The answer of a step, which never fails. -/
def stepped (result : Bool × TreeCursor Key Value) : Moved Bool (TreeCursor Key Value) :=
  (.ok result.1, result.2)

instance : Cursor (TreeCursor Key Value) Key where
  available cursor := cursor.node?.isSome
  get := get
  beforeFirst cursor := return (.ok (), cursor.beforeFirst)
  afterLast cursor := return (.ok (), cursor.afterLast)
  before cursor key := return (.ok (), cursor.before key)
  after cursor key := return (.ok (), cursor.after key)
  next cursor := return stepped cursor.next
  previous cursor := return stepped cursor.previous
  reusesElement := false

end TreeCursor

end OrderedIndex

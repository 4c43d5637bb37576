import OrderedIndex.Tree.Shape

namespace OrderedIndex

/-!
# Ordered trees

A tree maps keys to values in key order.  Its entries live in numbered slots
and each knows its neighbours in key order, so that a walk never searches; the
shape above them serves the searches alone.  A freed slot is the first to be
used again.
-/

/-- A key with its value and its neighbours in key order. -/
structure Entry (Key Value : Type) where
  key : Key
  value : Value
  previous : Option NodeId
  next : Option NodeId
  deriving Repr, DecidableEq

/-- A balanced search tree whose entries are chained in key order. -/
structure OrderedTree (Key Value : Type) where
  /-- The order of the keys. -/
  order : Order Key
  /-- The search structure over the slots in use. -/
  shape : Shape Key
  /-- The arena; a slot without an entry is free. -/
  slots : Array (Option (Entry Key Value))
  /-- The free slots, the last one freed first. -/
  free : List NodeId
  /-- The node with the least key. -/
  first : Option NodeId
  /-- The node with the greatest key. -/
  last : Option NodeId
  /-- Number of keys. -/
  size : Nat

namespace OrderedTree

variable {Key Value : Type}

/-- The tree without keys. -/
def empty (order : Order Key) : OrderedTree Key Value where
  order := order
  shape := .empty
  slots := #[]
  free := []
  first := none
  last := none
  size := 0

/-- The tree without keys, in the same order. -/
def clear (tree : OrderedTree Key Value) : OrderedTree Key Value := empty tree.order

/-! ## Slots -/

/-- The entry in a slot, if the slot is in use. -/
def entry? (tree : OrderedTree Key Value) (id : NodeId) : Option (Entry Key Value) :=
  tree.slots[id]?.join

/-- The key in a slot. -/
def key? (tree : OrderedTree Key Value) (id : NodeId) : Option Key :=
  (tree.entry? id).map Entry.key

/-- The value in a slot. -/
def value? (tree : OrderedTree Key Value) (id : NodeId) : Option Value :=
  (tree.entry? id).map Entry.value

/-- The node after a node in key order. -/
def next? (tree : OrderedTree Key Value) (id : NodeId) : Option NodeId :=
  (tree.entry? id).bind Entry.next

/-- The node before a node in key order. -/
def previous? (tree : OrderedTree Key Value) (id : NodeId) : Option NodeId :=
  (tree.entry? id).bind Entry.previous

/-- Change the entry in a slot; a free slot stays free. -/
def modifyEntry
    (tree : OrderedTree Key Value)
    (id : NodeId)
    (change : Entry Key Value → Entry Key Value) :
    OrderedTree Key Value :=
  { tree with slots := tree.slots.modify id (Option.map change) }

/-- Replace the value in a slot. -/
def setValue (tree : OrderedTree Key Value) (id : NodeId) (value : Value) :
    OrderedTree Key Value :=
  tree.modifyEntry id fun entry => { entry with value := value }

/-- Put an entry into the slot freed last, or into a new one. -/
def allocate (tree : OrderedTree Key Value) (entry : Entry Key Value) :
    NodeId × OrderedTree Key Value :=
  match tree.free with
  | id :: rest =>
      (id, { tree with slots := tree.slots.setIfInBounds id (some entry), free := rest })
  | [] => (tree.slots.size, { tree with slots := tree.slots.push (some entry) })

/-- Free a slot. -/
def release (tree : OrderedTree Key Value) (id : NodeId) : OrderedTree Key Value :=
  { tree with slots := tree.slots.setIfInBounds id none, free := id :: tree.free }

/-- Let a node be followed by another; `none` stands for the end before the first. -/
def linkNext (tree : OrderedTree Key Value) (before after : Option NodeId) :
    OrderedTree Key Value :=
  match before with
  | some id => tree.modifyEntry id fun entry => { entry with next := after }
  | none => { tree with first := after }

/-- Let a node be preceded by another; `none` stands for the end after the last. -/
def linkPrevious (tree : OrderedTree Key Value) (after before : Option NodeId) :
    OrderedTree Key Value :=
  match after with
  | some id => tree.modifyEntry id fun entry => { entry with previous := before }
  | none => { tree with last := before }

/-! ## Searching -/

/-- Where a key is, or where it would be. -/
def locate (tree : OrderedTree Key Value) (key : Key) : Shape.Location :=
  tree.shape.locate (tree.order key)

/-- The node with an equal key. -/
def find? (tree : OrderedTree Key Value) (key : Key) : Option NodeId :=
  match tree.locate key with
  | .present id => some id
  | .absent .. => none

/-- The node with the least key at or above the sought one. -/
def findAtLeast? (tree : OrderedTree Key Value) (key : Key) : Option NodeId :=
  match tree.locate key with
  | .present id => some id
  | .absent _ above => above

/-- The node with the least key above the sought one. -/
def findAbove? (tree : OrderedTree Key Value) (key : Key) : Option NodeId :=
  match tree.locate key with
  | .present id => tree.next? id
  | .absent _ above => above

/-- The node with the greatest key at or below the sought one. -/
def findAtMost? (tree : OrderedTree Key Value) (key : Key) : Option NodeId :=
  match tree.locate key with
  | .present id => some id
  | .absent below _ => below

/-- The node with the greatest key below the sought one. -/
def findBelow? (tree : OrderedTree Key Value) (key : Key) : Option NodeId :=
  match tree.locate key with
  | .present id => tree.previous? id
  | .absent below _ => below

/-- Whether a key is present. -/
def contains (tree : OrderedTree Key Value) (key : Key) : Bool := (tree.find? key).isSome

/-- The value under a key. -/
def get? (tree : OrderedTree Key Value) (key : Key) : Option Value :=
  (tree.find? key).bind tree.value?

/-! ## Changing -/

/-- Replace the value under a key that is present; tell whether it is. -/
def set (tree : OrderedTree Key Value) (key : Key) (value : Value) :
    Bool × OrderedTree Key Value :=
  match tree.find? key with
  | some id => (true, tree.setValue id value)
  | none => (false, tree)

/--
Add a key with its value; tell whether the key was absent.  A key that is
present keeps its own spelling and its value.
-/
def insert (tree : OrderedTree Key Value) (key : Key) (value : Value) :
    Bool × OrderedTree Key Value :=
  match tree.locate key with
  | .present _ => (false, tree)
  | .absent below above =>
      let (id, grown) := tree.allocate ⟨key, value, below, above⟩
      let linked := (grown.linkNext below (some id)).linkPrevious above (some id)
      (true,
        { linked with
          size := tree.size + 1
          shape := tree.shape.insert (tree.order key) id key })

/-- Remove a key; give back the value that it had. -/
def remove (tree : OrderedTree Key Value) (key : Key) :
    Option Value × OrderedTree Key Value :=
  match tree.find? key with
  | none => (none, tree)
  | some id =>
      match tree.entry? id with
      | none => (none, tree)
      | some entry =>
          let freed := tree.release id
          let linked :=
            (freed.linkNext entry.previous entry.next).linkPrevious entry.next entry.previous
          (some entry.value,
            { linked with
              size := tree.size - 1
              shape := tree.shape.erase (tree.order key) })

/-! ## Walking -/

/-- At most `count` nodes in key order from a node on. -/
def ascend (tree : OrderedTree Key Value) : (count : Nat) → Option NodeId → List NodeId
  | 0, _ => []
  | _, none => []
  | count + 1, some id => id :: tree.ascend count (tree.next? id)

/-- At most `count` nodes against key order from a node on. -/
def descend (tree : OrderedTree Key Value) : (count : Nat) → Option NodeId → List NodeId
  | 0, _ => []
  | _, none => []
  | count + 1, some id => id :: tree.descend count (tree.previous? id)

/-- The nodes in key order. -/
def nodes (tree : OrderedTree Key Value) : List NodeId := tree.ascend tree.size tree.first

/-- The entries in key order. -/
def entries (tree : OrderedTree Key Value) : List (Entry Key Value) :=
  tree.nodes.filterMap tree.entry?

/-- Keys with their values in key order. -/
def toList (tree : OrderedTree Key Value) : List (Key × Value) :=
  tree.entries.map fun entry => (entry.key, entry.value)

/-- Keys in order. -/
def keys (tree : OrderedTree Key Value) : List Key := tree.entries.map Entry.key

/-- Values in key order. -/
def values (tree : OrderedTree Key Value) : List Value := tree.entries.map Entry.value

end OrderedTree

end OrderedIndex

import OrderedIndex.Tree.Handle

namespace OrderedIndex

/-!
# Trees in memory

In memory a node is one record in its slot: an entry of the chain together with
the numbers of its children and the height of the subtree at it.  A number may
name a free slot and a height may be out of date, so every operation checks what
it relies on.  A check that does not hold is a fault, and the operation ends there.
-/

/-- A side of a node. -/
inductive Side where
  | left
  | right
  deriving Repr, DecidableEq

/-- The other side. -/
def Side.opposite : Side → Side
  | .left => .right
  | .right => .left

/-- What an operation relies on and does not find. -/
inductive TreeFault where
  /-- The slot of a node is free or not in the arena. -/
  | stale (handle : StaleHandle)
  /-- The arena has no number left for another slot. -/
  | tooManyNodes
  /-- A slot that is to be freed has no node. -/
  | notLive
  /-- No node follows one that has a right child. -/
  | noSuccessor
  /-- The node that follows is not on the left spine of the right subtree. -/
  | offSpine
  /-- A node has no child on its heavy side. -/
  | noHeavyChild (side : Side)
  /-- A node has no child to lift. -/
  | noPivot (side : Side)
  /-- The children of a node that was rebalanced are not near in height. -/
  | unbalanced
  /-- An index is not below the length of an array. -/
  | outOfBounds (length index : Nat)
  /-- The result of an operation does not fit its word. -/
  | overflow (operation : String)
  /-- A walk along links takes more steps than there are slots. -/
  | endless
  deriving Repr, DecidableEq

namespace TreeFault

/-- The sentence that reports a fault. -/
def message : TreeFault → String
  | .stale handle => handle.message
  | .tooManyNodes => "tree exceeds u32::MAX nodes"
  | .notLive => "released node must be live"
  | .noSuccessor => "a node with a right child has a successor"
  | .offSpine => "the successor is in the left spine of the right subtree"
  | .noHeavyChild .left => "left-heavy node has a left child"
  | .noHeavyChild .right => "right-heavy node has a right child"
  | .noPivot .left => "rotate_right needs a left child"
  | .noPivot .right => "rotate_left needs a right child"
  | .unbalanced => "unbalanced after rebalance"
  | .outOfBounds length index =>
      s!"index out of bounds: the len is {length} but the index is {index}"
  | .overflow operation => s!"attempt to {operation} with overflow"
  | .endless => "the walk does not end"

/-- What is there, or a fault if nothing is. -/
def expect {Item : Type} (fault : TreeFault) : Option Item → Except TreeFault Item
  | some item => .ok item
  | none => .error fault

end TreeFault

/-- The numbers of a node's children and the height of the subtree at the node. -/
structure Branch where
  left : Option NodeId
  right : Option NodeId
  height : Nat
  deriving Repr, DecidableEq

namespace Branch

/-- The links of a node without children. -/
def leaf : Branch := ⟨none, none, 1⟩

/-- The child on a side. -/
def child (branch : Branch) : Side → Option NodeId
  | .left => branch.left
  | .right => branch.right

/-- Let a child take its place on a side. -/
def hang (branch : Branch) (side : Side) (child : Option NodeId) : Branch :=
  match side with
  | .left => { branch with left := child }
  | .right => { branch with right := child }

end Branch

/-- A node in memory. -/
structure LinkedNode (Key Value : Type) extends Entry Key Value, Branch
  deriving Repr, DecidableEq

/-- A tree in memory. -/
structure LinkedTree (Key Value : Type) where
  /-- The order of the keys. -/
  order : Order Key
  /-- The arena; a slot without a node is free. -/
  nodes : Array (Option (LinkedNode Key Value))
  /-- The free slots, the last one freed first. -/
  free : List NodeId
  /-- The topmost node. -/
  root : Option NodeId
  /-- The node with the least key. -/
  first : Option NodeId
  /-- The node with the greatest key. -/
  last : Option NodeId
  /-- Number of keys. -/
  size : Nat

namespace LinkedTree

variable {Key Value : Type}

/-- The tree without keys. -/
def empty (order : Order Key) : LinkedTree Key Value where
  order := order
  nodes := #[]
  free := []
  root := none
  first := none
  last := none
  size := 0

/-- The tree without keys, in the same order. -/
def clear (tree : LinkedTree Key Value) : LinkedTree Key Value := empty tree.order

/-! ## Nodes -/

/-- The node in a slot, if the slot is in use. -/
def node? (tree : LinkedTree Key Value) (id : NodeId) : Option (LinkedNode Key Value) :=
  tree.nodes[id]?.join

/-- The node in a slot that has to be in use. -/
def node (tree : LinkedTree Key Value) (id : NodeId) :
    Except TreeFault (LinkedNode Key Value) :=
  TreeFault.expect (.stale ⟨id⟩) (tree.node? id)

/-- Change the node in a slot that has to be in use. -/
def modify
    (tree : LinkedTree Key Value)
    (id : NodeId)
    (change : LinkedNode Key Value → LinkedNode Key Value) :
    Except TreeFault (LinkedTree Key Value) := do
  let _ ← tree.node id
  return { tree with nodes := tree.nodes.modify id (Option.map change) }

/-- The key behind a handle. -/
def keyAt (tree : LinkedTree Key Value) (id : NodeId) : Except TreeFault Key := do
  return (← tree.node id).key

/-- The value behind a handle. -/
def valueAt (tree : LinkedTree Key Value) (id : NodeId) : Except TreeFault Value := do
  return (← tree.node id).value

/-- The node after the one behind a handle. -/
def nextAt (tree : LinkedTree Key Value) (id : NodeId) :
    Except TreeFault (Option NodeId) := do
  return (← tree.node id).next

/-- The node before the one behind a handle. -/
def previousAt (tree : LinkedTree Key Value) (id : NodeId) :
    Except TreeFault (Option NodeId) := do
  return (← tree.node id).previous

/-- Replace the value behind a handle. -/
def setValueAt (tree : LinkedTree Key Value) (id : NodeId) (value : Value) :
    Except TreeFault (LinkedTree Key Value) :=
  tree.modify id fun node => { node with value := value }

/-! ## Slots -/

/-- Put a node into the slot freed last, or into a new one. -/
def allocate (tree : LinkedTree Key Value) (node : LinkedNode Key Value) :
    Except TreeFault (NodeId × LinkedTree Key Value) :=
  match tree.free with
  | id :: rest =>
      if id < tree.nodes.size then
        .ok (id, { tree with nodes := tree.nodes.setIfInBounds id (some node), free := rest })
      else
        .error (.outOfBounds tree.nodes.size id)
  | [] =>
      if tree.nodes.size < UInt32.size then
        .ok (tree.nodes.size, { tree with nodes := tree.nodes.push (some node) })
      else
        .error .tooManyNodes

/-- Free a slot and give back its node. -/
def release (tree : LinkedTree Key Value) (id : NodeId) :
    Except TreeFault (LinkedNode Key Value × LinkedTree Key Value) :=
  match tree.nodes[id]? with
  | none => .error (.outOfBounds tree.nodes.size id)
  | some none => .error .notLive
  | some (some node) =>
      .ok (node,
        { tree with
          nodes := tree.nodes.setIfInBounds id none
          free := id :: tree.free })

/-- Let a node be followed by another; `none` stands for the end before the first. -/
def linkNext (tree : LinkedTree Key Value) (before after : Option NodeId) :
    Except TreeFault (LinkedTree Key Value) :=
  match before with
  | some id => tree.modify id fun node => { node with next := after }
  | none => .ok { tree with first := after }

/-- Let a node be preceded by another; `none` stands for the end after the last. -/
def linkPrevious (tree : LinkedTree Key Value) (after before : Option NodeId) :
    Except TreeFault (LinkedTree Key Value) :=
  match after with
  | some id => tree.modify id fun node => { node with previous := before }
  | none => .ok { tree with last := before }

end LinkedTree

end OrderedIndex

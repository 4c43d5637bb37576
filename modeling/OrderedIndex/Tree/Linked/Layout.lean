import OrderedIndex.Tree.Linked.Change
import OrderedIndex.Tree.Linked.Walk

namespace OrderedIndex

/-!
# The layout of a tree in memory

The nodes of a shape and the entries of a tree that share a slot make one record
of memory.
-/

variable {Key Value : Type}

/-- The children and the height of a node of a shape. -/
def Shape.branch? (sought : NodeId) : Shape Key → Option Branch
  | .empty => none
  | .node left id _ height right =>
      if id = sought then some ⟨left.root?, right.root?, height⟩
      else (left.branch? sought).or (right.branch? sought)

/-- A tree as it is in memory. -/
def OrderedTree.linked (tree : OrderedTree Key Value) : LinkedTree Key Value where
  order := tree.order
  nodes :=
    tree.slots.mapIdx fun id slot =>
      slot.map fun entry => ⟨entry, (tree.shape.branch? id).getD .leaf⟩
  free := tree.free
  root := tree.shape.root?
  first := tree.first
  last := tree.last
  size := tree.size

/-- The same iterator over the tree in memory. -/
def TreeIterator.linked (iterator : TreeIterator Key Value) : LinkedIterator Key Value :=
  ⟨iterator.tree.linked, iterator.front, iterator.back, iterator.remaining⟩

/-- The same cursor over the tree in memory. -/
def TreeCursor.linked (cursor : TreeCursor Key Value) : LinkedCursor Key Value :=
  ⟨cursor.tree.linked, cursor.position⟩

end OrderedIndex

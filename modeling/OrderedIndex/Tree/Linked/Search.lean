import OrderedIndex.Tree.Linked.Balance

namespace OrderedIndex

/-!
# Searching in memory

A search follows the numbers of children from the topmost node down.  The last
nodes that it passed on either side are the neighbours of a key that is absent.
-/

/-- The last node that a path passed on its way to a side. -/
def LinkedPath.passed? (path : LinkedPath) (side : Side) : Option NodeId :=
  path.findSome? fun step => if step.2 = side then some step.1 else none

namespace LinkedTree

variable {Key Value : Type}

/--
Walk down from a node, extending a path, at most `fuel` nodes deep.  The probe
compares the sought key with a node's key; the walk ends at a node with an equal
key or where there is no child.
-/
def descend (tree : LinkedTree Key Value) (probe : Key → Ordering) :
    (fuel : Nat) → LinkedPath → Option NodeId →
      Except TreeFault (LinkedPath × Option NodeId)
  | _, path, none => .ok (path, none)
  | 0, _, some _ => .error .endless
  | fuel + 1, path, some id => do
      let node ← tree.node id
      match probe node.key with
      | .lt => tree.descend probe fuel ((id, .left) :: path) node.left
      | .gt => tree.descend probe fuel ((id, .right) :: path) node.right
      | .eq => return (path, some id)

/-- The way to a key from the topmost node, and the node with an equal key. -/
def search (tree : LinkedTree Key Value) (key : Key) :
    Except TreeFault (LinkedPath × Option NodeId) :=
  tree.descend (tree.order key) tree.nodes.size [] tree.root

/-- The node with an equal key. -/
def find? (tree : LinkedTree Key Value) (key : Key) : Except TreeFault (Option NodeId) := do
  return (← tree.search key).2

/-- The node with the least key at or above the sought one. -/
def findAtLeast? (tree : LinkedTree Key Value) (key : Key) :
    Except TreeFault (Option NodeId) := do
  let (path, found) ← tree.search key
  return found.or (path.passed? .left)

/-- The node with the least key above the sought one. -/
def findAbove? (tree : LinkedTree Key Value) (key : Key) :
    Except TreeFault (Option NodeId) := do
  match ← tree.search key with
  | (_, some id) => tree.nextAt id
  | (path, none) => return path.passed? .left

/-- The node with the greatest key at or below the sought one. -/
def findAtMost? (tree : LinkedTree Key Value) (key : Key) :
    Except TreeFault (Option NodeId) := do
  let (path, found) ← tree.search key
  return found.or (path.passed? .right)

/-- The node with the greatest key below the sought one. -/
def findBelow? (tree : LinkedTree Key Value) (key : Key) :
    Except TreeFault (Option NodeId) := do
  match ← tree.search key with
  | (_, some id) => tree.previousAt id
  | (path, none) => return path.passed? .right

/-- Whether a key is present. -/
def contains (tree : LinkedTree Key Value) (key : Key) : Except TreeFault Bool := do
  return (← tree.find? key).isSome

/-- The value under a key. -/
def get? (tree : LinkedTree Key Value) (key : Key) : Except TreeFault (Option Value) := do
  match ← tree.find? key with
  | some id => return some (← tree.valueAt id)
  | none => return none

end LinkedTree

end OrderedIndex

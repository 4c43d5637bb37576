import OrderedIndex.Tree.Linked.Search

namespace OrderedIndex.LinkedTree

/-!
# Changing in memory

An insertion hangs a new node at the end of a search.  A removal hangs the
subtree that takes the removed node's place; where the node has two children,
the node that follows it in key order is taken out of the right one and put in
its place.  Both take the arithmetic of heights with which the tree is balanced.
-/

variable {Key Value : Type}

/--
Add a key with its value; tell whether the key was absent.  A key that is
present keeps its own spelling and its value.
-/
def insertBy
    (arithmetic : HeightArithmetic)
    (tree : LinkedTree Key Value)
    (key : Key)
    (value : Value) :
    Except TreeFault (Bool × LinkedTree Key Value) := do
  match ← tree.search key with
  | (_, some _) => return (false, tree)
  | (path, none) =>
      let below := path.passed? .right
      let above := path.passed? .left
      let (id, grown) ← tree.allocate ⟨⟨key, value, below, above⟩, .leaf⟩
      let followed ← grown.linkNext below (some id)
      let linked ← followed.linkPrevious above (some id)
      if UInt64.size ≤ tree.size + 1 then
        throw (.overflow "add")
      let counted := { linked with size := tree.size + 1 }
      return (true, ← counted.retraceBy arithmetic path (some id))

/-- The way from a node down its left spine to the node that follows the removed one. -/
def spineTo (tree : LinkedTree Key Value) (successor : NodeId) :
    (fuel : Nat) → LinkedPath → NodeId → Except TreeFault LinkedPath
  | fuel, path, id =>
      if id = successor then .ok path
      else
        match fuel with
        | 0 => .error .endless
        | fuel + 1 => do
            let node ← tree.node id
            let left ← TreeFault.expect .offSpine node.left
            tree.spineTo successor fuel ((id, .left) :: path) left

/-- Make one subtree of the two children of a node that is to be removed. -/
def mergeBy
    (arithmetic : HeightArithmetic)
    (tree : LinkedTree Key Value)
    (node : LinkedNode Key Value) :
    Except TreeFault (Option NodeId × LinkedTree Key Value) :=
  match node.left, node.right with
  | some left, some right => do
      let successor ← TreeFault.expect .noSuccessor node.next
      let path ← tree.spineTo successor tree.nodes.size [] right
      let (rest, detached) ← tree.climbBy arithmetic path (← tree.node successor).right
      let leftHung ← detached.hang successor .left (some left)
      let bothHung ← leftHung.hang successor .right rest
      let (root, merged) ← bothHung.rebalanceBy arithmetic successor
      return (some root, merged)
  | child, none => .ok (child, tree)
  | none, child => .ok (child, tree)

/-- Remove a key; give back the value that it had. -/
def removeBy (arithmetic : HeightArithmetic) (tree : LinkedTree Key Value) (key : Key) :
    Except TreeFault (Option Value × LinkedTree Key Value) := do
  match ← tree.search key with
  | (_, none) => return (none, tree)
  | (path, some target) =>
      let (replacement, merged) ← tree.mergeBy arithmetic (← tree.node target)
      let (removed, released) ← merged.release target
      let followed ← released.linkNext removed.previous removed.next
      let linked ← followed.linkPrevious removed.next removed.previous
      if linked.size = 0 then
        throw (.overflow "subtract")
      let counted := { linked with size := linked.size - 1 }
      return (some removed.value, ← counted.retraceBy arithmetic path replacement)

/-- Replace the value under a key that is present; tell whether it is. -/
def set (tree : LinkedTree Key Value) (key : Key) (value : Value) :
    Except TreeFault (Bool × LinkedTree Key Value) := do
  match ← tree.find? key with
  | some id => return (true, ← tree.setValueAt id value)
  | none => return (false, tree)

/-! ## Heights as bytes -/

/-- Add a key with its value to a tree whose heights are bytes. -/
def insert (tree : LinkedTree Key Value) (key : Key) (value : Value) :
    Except TreeFault (Bool × LinkedTree Key Value) :=
  tree.insertBy .bytes key value

/-- Remove a key from a tree whose heights are bytes. -/
def remove (tree : LinkedTree Key Value) (key : Key) :
    Except TreeFault (Option Value × LinkedTree Key Value) :=
  tree.removeBy .bytes key

end OrderedIndex.LinkedTree

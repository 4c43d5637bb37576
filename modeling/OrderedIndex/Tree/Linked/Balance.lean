import OrderedIndex.Tree.Linked.Heights

namespace OrderedIndex

/-!
# Balancing in memory

After an insertion or a removal, every node on the way back up gets its height
anew and is rotated where its children differ in height by two.  Every operation
takes the arithmetic of heights; a tree in memory uses that of bytes.
-/

/-- The nodes that a descent passed, each with the side to which it went, the last one first. -/
abbrev LinkedPath := List (NodeId × Side)

namespace Side

/-- Whether a child on this side with the given balance is heavier on its inner side. -/
def leansInward : Side → (balance : Int) → Bool
  | .left, balance => balance < 0
  | .right, balance => 0 < balance

end Side

namespace LinkedTree

variable {Key Value : Type}

/-- The height that is stored at a node; zero where there is none. -/
def heightOf (tree : LinkedTree Key Value) : Option NodeId → Except TreeFault Nat
  | none => .ok 0
  | some id => do return (← tree.node id).height

/-- Let a child take its place on a side of a node. -/
def hang (tree : LinkedTree Key Value) (id : NodeId) (side : Side) (child : Option NodeId) :
    Except TreeFault (LinkedTree Key Value) :=
  tree.modify id fun node => { node with toBranch := node.toBranch.hang side child }

/-- Height of the left child minus height of the right child. -/
def balanceBy (arithmetic : HeightArithmetic) (tree : LinkedTree Key Value) (id : NodeId) :
    Except TreeFault Int := do
  let node ← tree.node id
  let left ← tree.heightOf node.left
  let right ← tree.heightOf node.right
  arithmetic.minus left right

/-- Store a node's height anew. -/
def updateHeightBy (arithmetic : HeightArithmetic) (tree : LinkedTree Key Value) (id : NodeId) :
    Except TreeFault (LinkedTree Key Value) := do
  let node ← tree.node id
  let left ← tree.heightOf node.left
  let right ← tree.heightOf node.right
  let height ← arithmetic.above left right
  tree.modify id fun node => { node with height := height }

/-- Lift the child on a side above its parent. -/
def liftBy
    (arithmetic : HeightArithmetic)
    (tree : LinkedTree Key Value)
    (side : Side)
    (id : NodeId) :
    Except TreeFault (NodeId × LinkedTree Key Value) := do
  let node ← tree.node id
  let pivot ← TreeFault.expect (.noPivot side) (node.child side)
  let inner := (← tree.node pivot).child side.opposite
  let lowered ← tree.hang id side inner
  let lifted ← lowered.hang pivot side.opposite (some id)
  let measured ← lifted.updateHeightBy arithmetic id
  return (pivot, ← measured.updateHeightBy arithmetic pivot)

/--
Lift the child on the heavy side of a node above it.  A child that leans inward
is rotated outward first.
-/
def relieveBy
    (arithmetic : HeightArithmetic)
    (tree : LinkedTree Key Value)
    (side : Side)
    (id : NodeId) :
    Except TreeFault (NodeId × LinkedTree Key Value) := do
  let node ← tree.node id
  let child ← TreeFault.expect (.noHeavyChild side) (node.child side)
  if side.leansInward (← tree.balanceBy arithmetic child) then
    let (rotated, turned) ← tree.liftBy arithmetic side.opposite child
    let hung ← turned.hang id side (some rotated)
    hung.liftBy arithmetic side id
  else
    tree.liftBy arithmetic side id

/--
Rotate at a node whose children differ in height by two, and give back the
topmost node of the subtree.
-/
def rotateBy (arithmetic : HeightArithmetic) (tree : LinkedTree Key Value) (id : NodeId) :
    Except TreeFault (NodeId × LinkedTree Key Value) := do
  let balance ← tree.balanceBy arithmetic id
  if balance = 2 then
    tree.relieveBy arithmetic .left id
  else if balance = -2 then
    tree.relieveBy arithmetic .right id
  else
    return (id, tree)

/-- Restore the balance at a node, and give back the topmost node of the subtree. -/
def rebalanceBy (arithmetic : HeightArithmetic) (tree : LinkedTree Key Value) (id : NodeId) :
    Except TreeFault (NodeId × LinkedTree Key Value) := do
  let measured ← tree.updateHeightBy arithmetic id
  let (root, rotated) ← measured.rotateBy arithmetic id
  if 1 < (← rotated.balanceBy arithmetic root).natAbs then
    throw .unbalanced
  return (root, rotated)

/-- Hang a subtree at the end of a path and rebalance every node above it. -/
def climbBy (arithmetic : HeightArithmetic) (tree : LinkedTree Key Value) :
    LinkedPath → Option NodeId → Except TreeFault (Option NodeId × LinkedTree Key Value)
  | [], subtree => .ok (subtree, tree)
  | (id, side) :: rest, subtree => do
      let hung ← tree.hang id side subtree
      let (root, rebalanced) ← hung.rebalanceBy arithmetic id
      rebalanced.climbBy arithmetic rest (some root)

/-- Hang a subtree at the end of a path from the topmost node, and rebalance the tree. -/
def retraceBy
    (arithmetic : HeightArithmetic)
    (tree : LinkedTree Key Value)
    (path : LinkedPath)
    (subtree : Option NodeId) :
    Except TreeFault (LinkedTree Key Value) := do
  let (root, climbed) ← tree.climbBy arithmetic path subtree
  return { climbed with root := root }

/-! ## Heights as bytes -/

/-- Height of the left child minus height of the right child, as signed bytes. -/
def balance (tree : LinkedTree Key Value) (id : NodeId) : Except TreeFault Int :=
  tree.balanceBy .bytes id

/-- Restore the balance at a node whose height is a byte. -/
def rebalance (tree : LinkedTree Key Value) (id : NodeId) :
    Except TreeFault (NodeId × LinkedTree Key Value) :=
  tree.rebalanceBy .bytes id

/-- Hang a subtree at the end of a path, and rebalance a tree whose heights are bytes. -/
def retrace (tree : LinkedTree Key Value) (path : LinkedPath) (subtree : Option NodeId) :
    Except TreeFault (LinkedTree Key Value) :=
  tree.retraceBy .bytes path subtree

end LinkedTree

end OrderedIndex

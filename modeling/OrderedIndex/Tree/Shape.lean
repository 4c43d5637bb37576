import OrderedIndex.Order

namespace OrderedIndex

/-!
# Shapes of balanced search trees

A shape is the search structure of a tree: its nodes by number and key, with
the height of the subtree at each.  A search walks down a shape and keeps the
path that it took; an insertion or a removal replaces the subtree at the end of
the path and rebalances every node on the way back up.
-/

/-- The number of a node, which is the number of its slot in the tree's arena. -/
abbrev NodeId := Nat

/-- A binary tree of node numbers and keys, with a stored height at each node. -/
inductive Shape (Key : Type) where
  | empty
  | node
      (left : Shape Key)
      (id : NodeId)
      (key : Key)
      (height : Nat)
      (right : Shape Key)
  deriving Repr, DecidableEq

namespace Shape

variable {Key : Type}

/-- The stored height; an empty shape has height zero. -/
def height : Shape Key → Nat
  | .empty => 0
  | .node _ _ _ height _ => height

/-- Height of the left child minus height of the right child. -/
def balance : Shape Key → Int
  | .empty => 0
  | .node left _ _ _ right => (left.height : Int) - right.height

/-- Number of nodes. -/
def size : Shape Key → Nat
  | .empty => 0
  | .node left _ _ _ right => left.size + 1 + right.size

/-- The number of the topmost node. -/
def root? : Shape Key → Option NodeId
  | .empty => none
  | .node _ id _ _ _ => some id

/-- Node numbers and keys from left to right. -/
def toList : Shape Key → List (NodeId × Key)
  | .empty => []
  | .node left id key _ right => left.toList ++ (id, key) :: right.toList

/-- Node numbers from left to right. -/
def ids (shape : Shape Key) : List NodeId := shape.toList.map Prod.fst

/-! ## Rebalancing -/

/-- A node whose stored height is one more than its higher child's. -/
def join (left : Shape Key) (id : NodeId) (key : Key) (right : Shape Key) : Shape Key :=
  .node left id key (1 + max left.height right.height) right

/-- A shape of one node. -/
def single (id : NodeId) (key : Key) : Shape Key := join .empty id key .empty

/-- Lift the left child above its parent. -/
def rotateRight : Shape Key → Shape Key
  | .node (.node outer pivot pivotKey _ inner) id key _ right =>
      join outer pivot pivotKey (join inner id key right)
  | shape => shape

/-- Lift the right child above its parent. -/
def rotateLeft : Shape Key → Shape Key
  | .node left id key _ (.node inner pivot pivotKey _ outer) =>
      join (join left id key inner) pivot pivotKey outer
  | shape => shape

/--
Join two balanced shapes under a node and rotate where they differ in height by
two.  A heavy child that leans inward is rotated outward first.
-/
def rebalance (left : Shape Key) (id : NodeId) (key : Key) (right : Shape Key) :
    Shape Key :=
  let joined := join left id key right
  if joined.balance = 2 then
    rotateRight (join (if left.balance < 0 then left.rotateLeft else left) id key right)
  else if joined.balance = -2 then
    rotateLeft (join left id key (if 0 < right.balance then right.rotateRight else right))
  else joined

/-- The leftmost node with the rest of the shape, rebalanced. -/
def popFirst? : Shape Key → Option ((NodeId × Key) × Shape Key)
  | .empty => none
  | .node left id key _ right =>
      match left.popFirst? with
      | none => some ((id, key), right)
      | some (least, rest) => some (least, rebalance rest id key right)

/--
The children of a removed node as one shape.  Where there are two, the leftmost
node of the right one takes the removed node's place.
-/
def merge (left right : Shape Key) : Shape Key :=
  match left, right.popFirst? with
  | .empty, _ => right
  | left, none => left
  | left, some ((id, key), rest) => rebalance left id key rest

/-! ## Searching -/

/-- One step down a shape: the node that was left and its other child. -/
inductive Step (Key : Type) where
  /-- Into the left child. -/
  | left (id : NodeId) (key : Key) (right : Shape Key)
  /-- Into the right child. -/
  | right (left : Shape Key) (id : NodeId) (key : Key)
  deriving Repr, DecidableEq

/-- The steps of a descent, the last one first. -/
abbrev Path (Key : Type) := List (Step Key)

namespace Path

/-- The last node that a path passed on its right side. -/
def below? (path : Path Key) : Option NodeId :=
  path.findSome? fun
    | .right _ id _ => some id
    | .left .. => none

/-- The last node that a path passed on its left side. -/
def above? (path : Path Key) : Option NodeId :=
  path.findSome? fun
    | .left id _ _ => some id
    | .right .. => none

/-- Hang a subtree at the end of a path and rebalance every node above it. -/
def retrace : Path Key → Shape Key → Shape Key
  | [], subtree => subtree
  | .left id key right :: rest, subtree => retrace rest (rebalance subtree id key right)
  | .right left id key :: rest, subtree => retrace rest (rebalance left id key subtree)

end Path

/--
Walk down from a shape, extending a path.  The probe compares the sought key
with a node's key; the walk ends at a node with an equal key or at an empty
shape.
-/
def descend (probe : Key → Ordering) (path : Path Key) :
    Shape Key → Path Key × Shape Key
  | .empty => (path, .empty)
  | .node left id key height right =>
      match probe key with
      | .lt => descend probe (.left id key right :: path) left
      | .gt => descend probe (.right left id key :: path) right
      | .eq => (path, .node left id key height right)

/-- Where a sought key is, or where it would be. -/
inductive Location where
  /-- At a node with an equal key. -/
  | present (id : NodeId)
  /-- Between the neighbouring nodes. -/
  | absent (below? above? : Option NodeId)
  deriving Repr, DecidableEq

/-- Search a shape. -/
def locate (probe : Key → Ordering) (shape : Shape Key) : Location :=
  match shape.descend probe [] with
  | (_, .node _ id _ _ _) => .present id
  | (path, .empty) => .absent path.below? path.above?

/-- Add a node under a key that is absent. -/
def insert (probe : Key → Ordering) (id : NodeId) (key : Key) (shape : Shape Key) :
    Shape Key :=
  match shape.descend probe [] with
  | (_, .node ..) => shape
  | (path, .empty) => path.retrace (single id key)

/-- Remove the node with an equal key. -/
def erase (probe : Key → Ordering) (shape : Shape Key) : Shape Key :=
  match shape.descend probe [] with
  | (path, .node left _ _ _ right) => path.retrace (merge left right)
  | (_, .empty) => shape

end Shape

end OrderedIndex

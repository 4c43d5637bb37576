import OrderedIndex.Tree.Basic

namespace OrderedIndex

/-!
# Structural invariants

A tree stores several facts twice: its size, the heights, the chain and its
ends.  The check compares each of them with the shape and reports the first one
that disagrees.
-/

/-- A structural invariant that a tree breaks. -/
inductive Violation where
  /-- The shape has more or fewer nodes than the tree counts. -/
  | size
  /-- A node of the shape has no entry. -/
  | missingEntry (id : NodeId)
  /-- Two neighbouring keys do not ascend. -/
  | keyOrder (before after : NodeId)
  /-- A stored height is not one more than the higher child's. -/
  | staleHeight (id : NodeId)
  /-- The children of a node differ in height by more than one. -/
  | unbalanced (id : NodeId)
  /-- The first node is not the leftmost one. -/
  | first
  /-- The last node is not the rightmost one. -/
  | last
  /-- A node is not preceded by its left neighbour. -/
  | previousLink (id : NodeId)
  /-- A node is not followed by its right neighbour. -/
  | nextLink (id : NodeId)
  deriving Repr, DecidableEq

namespace Shape

variable {Key : Type}

/-- The first stored height that is wrong or unbalanced, from left to right. -/
def heightViolation? : Shape Key → Option Violation
  | .empty => none
  | .node left id _ height right =>
      left.heightViolation?
        <|> (if height = 1 + max left.height right.height then none
          else some (.staleHeight id))
        <|> (if (left.height : Int) - right.height ∈ [(-1 : Int), 0, 1] then none
          else some (.unbalanced id))
        <|> right.heightViolation?

end Shape

namespace OrderedTree

variable {Key Value : Type}

/-- The first two neighbours whose keys do not ascend. -/
def keyViolation? (order : Order Key) : List (NodeId × Key) → Option Violation
  | first :: second :: rest =>
      if order first.2 second.2 = .lt then keyViolation? order (second :: rest)
      else some (.keyOrder first.1 second.1)
  | _ => none

/-- The first node whose links disagree with its neighbours in the list. -/
def linkViolation?
    (tree : OrderedTree Key Value)
    (previous : Option NodeId) :
    List NodeId → Option Violation
  | [] => none
  | id :: rest =>
      match tree.entry? id with
      | none => some (.missingEntry id)
      | some entry =>
          if entry.previous ≠ previous then some (.previousLink id)
          else if entry.next ≠ rest.head? then some (.nextLink id)
          else tree.linkViolation? (some id) rest

/-- The first structural invariant that a tree breaks. -/
def violation? (tree : OrderedTree Key Value) : Option Violation :=
  let ids := tree.shape.ids
  if ids.length ≠ tree.size then some .size
  else
    match ids.find? fun id => (tree.entry? id).isNone with
    | some id => some (.missingEntry id)
    | none =>
        let keyed := ids.filterMap fun id => (tree.key? id).map fun key => (id, key)
        keyViolation? tree.order keyed
          <|> tree.shape.heightViolation?
          <|> (if tree.first = ids.head? then none else some .first)
          <|> (if tree.last = ids.getLast? then none else some .last)
          <|> tree.linkViolation? none ids

end OrderedTree

end OrderedIndex

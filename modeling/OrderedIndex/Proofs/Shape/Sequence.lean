import OrderedIndex.Tree.Shape

namespace OrderedIndex.Shape

/-!
# The sequence of nodes

Every change of a shape is a change of the sequence of its nodes: rotations
leave the sequence alone, the leftmost node is its head, and hanging a subtree
at the end of a path puts the subtree's nodes between those that the path
passed on its two sides.
-/

variable {Key : Type}

@[simp] theorem toList_empty : (empty : Shape Key).toList = [] := rfl

@[simp] theorem toList_node
    (left : Shape Key)
    (id : NodeId)
    (key : Key)
    (height : Nat)
    (right : Shape Key) :
    (node left id key height right).toList = left.toList ++ (id, key) :: right.toList :=
  rfl

@[simp] theorem toList_join
    (left : Shape Key)
    (id : NodeId)
    (key : Key)
    (right : Shape Key) :
    (join left id key right).toList = left.toList ++ (id, key) :: right.toList :=
  rfl

/-- Lifting the left child keeps the nodes in order. -/
@[simp] theorem toList_rotateRight (shape : Shape Key) :
    shape.rotateRight.toList = shape.toList := by
  unfold rotateRight
  split <;> simp [toList]

/-- Lifting the right child keeps the nodes in order. -/
@[simp] theorem toList_rotateLeft (shape : Shape Key) :
    shape.rotateLeft.toList = shape.toList := by
  unfold rotateLeft
  split <;> simp [toList]

/-- Rebalancing a node keeps the nodes in order. -/
@[simp] theorem toList_rebalance
    (left : Shape Key)
    (id : NodeId)
    (key : Key)
    (right : Shape Key) :
    (rebalance left id key right).toList = left.toList ++ (id, key) :: right.toList := by
  unfold rebalance
  simp only
  split
  · rw [toList_rotateRight, toList_join]
    split <;> simp
  · split
    · rw [toList_rotateLeft, toList_join]
      split <;> simp
    · simp

/-! ## Removing a node -/

/-- There is no leftmost node exactly in the empty shape. -/
theorem popFirst?_eq_none {shape : Shape Key} : shape.popFirst? = none ↔ shape = .empty := by
  cases shape with
  | empty =>
      simp [popFirst?]
  | node left id key height right =>
      cases popped : left.popFirst? <;> simp [popFirst?, popped]

/-- The leftmost node is the first of the sequence. -/
theorem toList_of_popFirst?
    {shape rest : Shape Key}
    {least : NodeId × Key}
    (popped : shape.popFirst? = some (least, rest)) :
    shape.toList = least :: rest.toList := by
  induction shape generalizing least rest with
  | empty =>
      simp [popFirst?] at popped
  | node left id key height right leftHypothesis rightHypothesis =>
      cases leftPopped : left.popFirst? with
      | none =>
          have leftEmpty : left = .empty := popFirst?_eq_none.mp leftPopped
          simp only [popFirst?, leftPopped, Option.some.injEq, Prod.mk.injEq] at popped
          obtain ⟨rfl, rfl⟩ := popped
          simp [leftEmpty]
      | some result =>
          obtain ⟨leftLeast, leftRest⟩ := result
          simp only [popFirst?, leftPopped, Option.some.injEq, Prod.mk.injEq] at popped
          obtain ⟨rfl, rfl⟩ := popped
          simp [leftHypothesis leftPopped]

@[simp] theorem merge_empty_left (right : Shape Key) : merge .empty right = right := by
  simp [merge]

@[simp] theorem merge_node_empty
    (left : Shape Key)
    (id : NodeId)
    (key : Key)
    (height : Nat)
    (right : Shape Key) :
    merge (node left id key height right) .empty = node left id key height right := by
  simp [merge, popFirst?]

/-- Merging puts the leftmost node of the right child on top of the left one. -/
theorem merge_node_popped
    {outer inner right rest : Shape Key}
    {pivot id : NodeId}
    {pivotKey key : Key}
    {height : Nat}
    (popped : right.popFirst? = some ((id, key), rest)) :
    merge (node outer pivot pivotKey height inner) right =
      rebalance (node outer pivot pivotKey height inner) id key rest := by
  simp [merge, popped]

/-- Merging keeps the nodes of both children in order. -/
@[simp] theorem toList_merge (left right : Shape Key) :
    (merge left right).toList = left.toList ++ right.toList := by
  cases left with
  | empty =>
      simp
  | node outer pivot pivotKey height inner =>
      cases popped : right.popFirst? with
      | none =>
          have rightEmpty : right = .empty := popFirst?_eq_none.mp popped
          simp [rightEmpty]
      | some result =>
          obtain ⟨⟨id, key⟩, rest⟩ := result
          rw [merge_node_popped popped, toList_rebalance, toList_of_popFirst? popped]

/-! ## Paths -/

namespace Path

/-- The nodes in front of the end of a path. -/
def before : Path Key → List (NodeId × Key)
  | [] => []
  | .left .. :: rest => before rest
  | .right left id key :: rest => before rest ++ (left.toList ++ [(id, key)])

/-- The nodes behind the end of a path. -/
def after : Path Key → List (NodeId × Key)
  | [] => []
  | .left id key right :: rest => ((id, key) :: right.toList) ++ after rest
  | .right .. :: rest => after rest

/-- Retracing a path puts the nodes of a subtree at its end. -/
@[simp] theorem toList_retrace (path : Path Key) (subtree : Shape Key) :
    (path.retrace subtree).toList = path.before ++ subtree.toList ++ path.after := by
  induction path generalizing subtree with
  | nil =>
      simp [retrace, before, after]
  | cons step rest inductionHypothesis =>
      cases step with
      | left id key right =>
          rw [retrace, inductionHypothesis]
          simp [before, after]
      | right left id key =>
          rw [retrace, inductionHypothesis]
          simp [before, after]

/-- The last node passed on the right side is the last one in front of the end. -/
theorem below?_eq (path : Path Key) : path.below? = path.before.getLast?.map Prod.fst := by
  induction path with
  | nil =>
      rfl
  | cons step rest inductionHypothesis =>
      cases step with
      | left id key right =>
          simpa [below?, before] using inductionHypothesis
      | right left id key =>
          simp [below?, before]

/-- The last node passed on the left side is the first one behind the end. -/
theorem above?_eq (path : Path Key) : path.above? = path.after.head?.map Prod.fst := by
  induction path with
  | nil =>
      rfl
  | cons step rest inductionHypothesis =>
      cases step with
      | left id key right =>
          simp [above?, after]
      | right left id key =>
          simpa [above?, after] using inductionHypothesis

end Path

/-- A descent keeps the sequence: it only moves nodes from the subtree to the path. -/
theorem toList_of_descend
    {probe : Key → Ordering}
    {path finalPath : Path Key}
    {shape subtree : Shape Key}
    (descended : shape.descend probe path = (finalPath, subtree)) :
    path.before ++ shape.toList ++ path.after =
      finalPath.before ++ subtree.toList ++ finalPath.after := by
  induction shape generalizing path with
  | empty =>
      simp only [descend, Prod.mk.injEq] at descended
      obtain ⟨rfl, rfl⟩ := descended
      rfl
  | node left id key height right leftHypothesis rightHypothesis =>
      cases compared : probe key with
      | lt =>
          simp only [descend, compared] at descended
          rw [← leftHypothesis descended]
          simp [Path.before, Path.after]
      | gt =>
          simp only [descend, compared] at descended
          rw [← rightHypothesis descended]
          simp [Path.before, Path.after]
      | eq =>
          simp only [descend, compared, Prod.mk.injEq] at descended
          obtain ⟨rfl, rfl⟩ := descended
          rfl

end OrderedIndex.Shape

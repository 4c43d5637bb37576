import OrderedIndex.Proofs.Shape.Sequence

namespace OrderedIndex.Shape

/-!
# Balance

A shape is balanced if every stored height is exact and the children of every
node differ in height by at most one.  One node whose children differ by two is
put right by `rebalance`, at the cost of at most one level of height.  So the
change of height that an insertion or a removal causes at the end of a path
passes up the path as a change of at most one, which is what `rebalance` can
take at every node.
-/

variable {Key : Type}

/-- Two heights that differ by at most one. -/
def Near (first second : Nat) : Prop := first ≤ second + 1 ∧ second ≤ first + 1

/-- Every stored height is exact, and the children of every node are near in height. -/
def Balanced : Shape Key → Prop
  | .empty => True
  | .node left _ _ height right =>
      left.Balanced ∧ right.Balanced ∧
        height = 1 + max left.height right.height ∧ Near left.height right.height

theorem Near.symm {first second : Nat} (near : Near first second) : Near second first :=
  ⟨near.2, near.1⟩

theorem Near.refl (height : Nat) : Near height height := by
  simp [Near]

@[simp] theorem balanced_empty : (empty : Shape Key).Balanced := trivial

@[simp] theorem height_empty : (empty : Shape Key).height = 0 := rfl

@[simp] theorem height_node
    (left : Shape Key)
    (id : NodeId)
    (key : Key)
    (height : Nat)
    (right : Shape Key) :
    (node left id key height right).height = height :=
  rfl

@[simp] theorem height_join
    (left : Shape Key)
    (id : NodeId)
    (key : Key)
    (right : Shape Key) :
    (join left id key right).height = 1 + max left.height right.height :=
  rfl

/-- Joining two balanced shapes that are near in height gives a balanced one. -/
theorem balanced_join
    {left right : Shape Key}
    {id : NodeId}
    {key : Key}
    (leftBalanced : left.Balanced)
    (rightBalanced : right.Balanced)
    (near : Near left.height right.height) :
    (join left id key right).Balanced :=
  ⟨leftBalanced, rightBalanced, rfl, near⟩

/-- A shape that is higher than another has a node. -/
theorem exists_node_of_height
    (shape : Shape Key)
    (high : 0 < shape.height) :
    ∃ left id key height right, shape = .node left id key height right := by
  cases shape with
  | empty =>
      simp at high
  | node left id key height right =>
      exact ⟨left, id, key, height, right, rfl⟩

/-! ## One node -/

/-- A node whose children are near in height is only joined. -/
theorem rebalance_of_near
    {left right : Shape Key}
    {id : NodeId}
    {key : Key}
    (near : Near left.height right.height) :
    rebalance left id key right = join left id key right := by
  unfold rebalance
  obtain ⟨leftBound, rightBound⟩ := near
  have notLeftHeavy : (join left id key right).balance ≠ 2 := by
    simp only [join, balance]
    omega
  have notRightHeavy : (join left id key right).balance ≠ -2 := by
    simp only [join, balance]
    omega
  simp [notLeftHeavy, notRightHeavy]

/--
A result of rebalancing: a balanced shape of the height of the joined node, or
one level lower if its children were not near in height.
-/
structure Rebalanced (left right result : Shape Key) : Prop where
  balanced : result.Balanced
  height_le : result.height ≤ 1 + max left.height right.height
  le_height : max left.height right.height ≤ result.height
  height_of_near :
    Near left.height right.height → result.height = 1 + max left.height right.height

/-- A joined shape in place of a node whose children differ by two levels. -/
theorem Rebalanced.of_heavy
    {left right first second : Shape Key}
    {id : NodeId}
    {key : Key}
    (firstBalanced : first.Balanced)
    (secondBalanced : second.Balanced)
    (near : Near first.height second.height)
    (notNear : ¬ Near left.height right.height)
    (height_le : max first.height second.height ≤ max left.height right.height)
    (le_height : max left.height right.height ≤ 1 + max first.height second.height) :
    Rebalanced left right (join first id key second) where
  balanced := balanced_join firstBalanced secondBalanced near
  height_le := by
    rw [height_join]
    exact Nat.add_le_add_left height_le 1
  le_height := by
    rw [height_join]
    exact le_height
  height_of_near := by
    intro childrenNear
    exact (notNear childrenNear).elim

/--
Rebalancing keeps a node as high as it was, up to one level, if one of its
children is as high as it was up to one level and the other is what it was.
-/
theorem Rebalanced.near
    {left right result : Shape Key}
    {leftHeight rightHeight : Nat}
    (rebalanced : Rebalanced left right result)
    (near : Near leftHeight rightHeight)
    (change :
      Near left.height leftHeight ∧ right.height = rightHeight ∨
        left.height = leftHeight ∧ Near right.height rightHeight) :
    Near result.height (1 + max leftHeight rightHeight) := by
  have upper := rebalanced.height_le
  have lower := rebalanced.le_height
  have exact := rebalanced.height_of_near
  simp only [Near] at *
  omega

/-- A node with a left child two levels higher than the right one lifts that child. -/
theorem rebalance_eq_rotateRight
    {left right : Shape Key}
    {id : NodeId}
    {key : Key}
    (heavy : left.height = right.height + 2) :
    rebalance left id key right =
      rotateRight (join (if left.balance < 0 then left.rotateLeft else left) id key right) := by
  have isHeavy : (join left id key right).balance = 2 := by
    simp only [join, balance]
    omega
  simp only [rebalance, isHeavy, ↓reduceIte]

/-- A node with a right child two levels higher than the left one lifts that child. -/
theorem rebalance_eq_rotateLeft
    {left right : Shape Key}
    {id : NodeId}
    {key : Key}
    (heavy : right.height = left.height + 2) :
    rebalance left id key right =
      rotateLeft (join left id key (if 0 < right.balance then right.rotateRight else right)) := by
  have isHeavy : (join left id key right).balance = -2 := by
    simp only [join, balance]
    omega
  simp only [rebalance, isHeavy, show (-2 : Int) ≠ 2 by decide, ↓reduceIte]

/-- A node with a left child two levels higher than the right one is put right. -/
theorem rebalance_of_leftHeavy
    {left right : Shape Key}
    {id : NodeId}
    {key : Key}
    (leftBalanced : left.Balanced)
    (rightBalanced : right.Balanced)
    (heavy : left.height = right.height + 2) :
    Rebalanced left right (rebalance left id key right) := by
  rw [rebalance_eq_rotateRight heavy]
  obtain ⟨outer, pivot, pivotKey, height, inner, rfl⟩ :=
    exists_node_of_height left (by omega)
  obtain ⟨outerBalanced, innerBalanced, exact, ⟨outerBound, innerBound⟩⟩ := leftBalanced
  rw [height_node] at heavy
  split
  · -- The left child leans inward: its right child becomes the topmost node.
    rename_i inward
    rw [balance] at inward
    obtain ⟨innerLeft, top, topKey, innerHeight, innerRight, rfl⟩ :=
      exists_node_of_height inner (by omega)
    obtain ⟨innerLeftBalanced, innerRightBalanced, innerExact, ⟨leftBound, rightBound⟩⟩ :=
      innerBalanced
    rw [height_node] at *
    refine .of_heavy (balanced_join outerBalanced innerLeftBalanced ?_)
      (balanced_join innerRightBalanced rightBalanced ?_) ?_ ?_ ?_ ?_ <;>
      simp only [Near, height_join, height_node] <;> omega
  · rename_i outward
    rw [balance] at outward
    refine .of_heavy outerBalanced (balanced_join innerBalanced rightBalanced ?_)
      ?_ ?_ ?_ ?_ <;>
      simp only [Near, height_join, height_node] <;> omega

/-- A node with a right child two levels higher than the left one is put right. -/
theorem rebalance_of_rightHeavy
    {left right : Shape Key}
    {id : NodeId}
    {key : Key}
    (leftBalanced : left.Balanced)
    (rightBalanced : right.Balanced)
    (heavy : right.height = left.height + 2) :
    Rebalanced left right (rebalance left id key right) := by
  rw [rebalance_eq_rotateLeft heavy]
  obtain ⟨inner, pivot, pivotKey, height, outer, rfl⟩ :=
    exists_node_of_height right (by omega)
  obtain ⟨innerBalanced, outerBalanced, exact, ⟨innerBound, outerBound⟩⟩ := rightBalanced
  rw [height_node] at heavy
  split
  · -- The right child leans inward: its left child becomes the topmost node.
    rename_i inward
    rw [balance] at inward
    obtain ⟨innerLeft, top, topKey, innerHeight, innerRight, rfl⟩ :=
      exists_node_of_height inner (by omega)
    obtain ⟨innerLeftBalanced, innerRightBalanced, innerExact, ⟨leftBound, rightBound⟩⟩ :=
      innerBalanced
    rw [height_node] at *
    refine .of_heavy (balanced_join leftBalanced innerLeftBalanced ?_)
      (balanced_join innerRightBalanced outerBalanced ?_) ?_ ?_ ?_ ?_ <;>
      simp only [Near, height_join, height_node] <;> omega
  · rename_i outward
    rw [balance] at outward
    refine .of_heavy (balanced_join leftBalanced innerBalanced ?_) outerBalanced
      ?_ ?_ ?_ ?_ <;>
      simp only [Near, height_join, height_node] <;> omega

/-- Rebalancing puts right any node whose children differ by two levels at most. -/
theorem rebalanced
    {left right : Shape Key}
    {id : NodeId}
    {key : Key}
    (leftBalanced : left.Balanced)
    (rightBalanced : right.Balanced)
    (leftBound : left.height ≤ right.height + 2)
    (rightBound : right.height ≤ left.height + 2) :
    Rebalanced left right (rebalance left id key right) := by
  by_cases leftHeavy : left.height = right.height + 2
  · exact rebalance_of_leftHeavy leftBalanced rightBalanced leftHeavy
  · by_cases rightHeavy : right.height = left.height + 2
    · exact rebalance_of_rightHeavy leftBalanced rightBalanced rightHeavy
    · have near : Near left.height right.height := by
        simp only [Near]
        omega
      rw [rebalance_of_near near]
      exact ⟨balanced_join leftBalanced rightBalanced near, Nat.le_refl _,
        by simp, fun _ => rfl⟩

/-! ## Removing a node -/

/-- What is left without its leftmost node: balanced, and at most one level lower. -/
theorem popFirst?_balanced
    {shape : Shape Key}
    (balanced : shape.Balanced)
    {least : NodeId × Key}
    {rest : Shape Key}
    (popped : shape.popFirst? = some (least, rest)) :
    rest.Balanced ∧ rest.height ≤ shape.height ∧ shape.height ≤ rest.height + 1 := by
  induction shape generalizing least rest with
  | empty =>
      simp [popFirst?] at popped
  | node left id key height right leftHypothesis rightHypothesis =>
      obtain ⟨leftBalanced, rightBalanced, exact, ⟨leftBound, rightBound⟩⟩ := balanced
      rw [height_node]
      cases leftPopped : left.popFirst? with
      | none =>
          have leftEmpty : left = .empty := popFirst?_eq_none.mp leftPopped
          simp only [popFirst?, leftPopped, Option.some.injEq, Prod.mk.injEq] at popped
          obtain ⟨_, rfl⟩ := popped
          subst leftEmpty
          rw [height_empty] at *
          exact ⟨rightBalanced, by omega, by omega⟩
      | some result =>
          obtain ⟨leftLeast, leftRest⟩ := result
          simp only [popFirst?, leftPopped, Option.some.injEq, Prod.mk.injEq] at popped
          obtain ⟨_, rfl⟩ := popped
          obtain ⟨restBalanced, restBound, lossBound⟩ :=
            leftHypothesis leftBalanced leftPopped
          have result : Rebalanced leftRest right (rebalance leftRest id key right) :=
            rebalanced restBalanced rightBalanced (by omega) (by omega)
          have upper := result.height_le
          have near := result.near ⟨leftBound, rightBound⟩ (.inl ⟨⟨by omega, by omega⟩, rfl⟩)
          rw [exact]
          exact ⟨result.balanced, by omega, near.2⟩

/--
The children of a removed node as one shape: balanced, and at most one level
lower than the node was.
-/
theorem merge_balanced
    {left right : Shape Key}
    (leftBalanced : left.Balanced)
    (rightBalanced : right.Balanced)
    (near : Near left.height right.height) :
    (merge left right).Balanced ∧
      (merge left right).height ≤ 1 + max left.height right.height ∧
      max left.height right.height ≤ (merge left right).height := by
  obtain ⟨leftBound, rightBound⟩ := near
  cases left with
  | empty =>
      rw [merge_empty_left, height_empty]
      exact ⟨rightBalanced, by omega, by omega⟩
  | node outer pivot pivotKey height inner =>
      cases popped : right.popFirst? with
      | none =>
          have rightEmpty : right = .empty := popFirst?_eq_none.mp popped
          subst rightEmpty
          rw [merge_node_empty, height_empty]
          exact ⟨leftBalanced, by omega, by omega⟩
      | some result =>
          obtain ⟨⟨id, key⟩, rest⟩ := result
          rw [merge_node_popped popped]
          obtain ⟨restBalanced, restBound, lossBound⟩ :=
            popFirst?_balanced rightBalanced popped
          have result :
              Rebalanced (node outer pivot pivotKey height inner) rest
                (rebalance (node outer pivot pivotKey height inner) id key rest) :=
            rebalanced leftBalanced restBalanced (by omega) (by omega)
          have upper := result.height_le
          have near := result.near ⟨leftBound, rightBound⟩ (.inr ⟨rfl, ⟨by omega, by omega⟩⟩)
          exact ⟨result.balanced, by omega, by have := near.2; omega⟩

/-! ## Paths -/

namespace Path

/--
A balanced shape is left by a path whose end has a subtree of the given height:
the other child of every step is balanced and near in height.
-/
def Fits : Path Key → (height : Nat) → Prop
  | [], _ => True
  | .left _ _ right :: rest, height =>
      right.Balanced ∧ Near height right.height ∧
        Fits rest (1 + max height right.height)
  | .right left _ _ :: rest, height =>
      left.Balanced ∧ Near left.height height ∧
        Fits rest (1 + max left.height height)

theorem fits_nil {height : Nat} : Fits ([] : Path Key) height := trivial

/--
A balanced subtree in place of one of nearly the same height makes the whole
shape balanced once the path is retraced.
-/
theorem retrace_balanced
    {path : Path Key}
    {height : Nat}
    {subtree : Shape Key}
    (fits : path.Fits height)
    (balanced : subtree.Balanced)
    (near : Near subtree.height height) :
    (path.retrace subtree).Balanced := by
  induction path generalizing height subtree with
  | nil =>
      exact balanced
  | cons step rest inductionHypothesis =>
      obtain ⟨growth, loss⟩ := near
      cases step with
      | left id key right =>
          obtain ⟨rightBalanced, ⟨leftBound, rightBound⟩, restFits⟩ := fits
          have result : Rebalanced subtree right (rebalance subtree id key right) :=
            rebalanced balanced rightBalanced (by omega) (by omega)
          exact inductionHypothesis restFits result.balanced
            (result.near ⟨leftBound, rightBound⟩ (.inl ⟨⟨growth, loss⟩, rfl⟩))
      | right left id key =>
          obtain ⟨leftBalanced, ⟨leftBound, rightBound⟩, restFits⟩ := fits
          have result : Rebalanced left subtree (rebalance left id key subtree) :=
            rebalanced leftBalanced balanced (by omega) (by omega)
          exact inductionHypothesis restFits result.balanced
            (result.near ⟨leftBound, rightBound⟩ (.inr ⟨rfl, ⟨growth, loss⟩⟩))

end Path

/-- A descent through a balanced shape ends at a balanced subtree that fits the path. -/
theorem descend_fits
    {probe : Key → Ordering}
    {path finalPath : Path Key}
    {shape subtree : Shape Key}
    (fits : path.Fits shape.height)
    (balanced : shape.Balanced)
    (descended : shape.descend probe path = (finalPath, subtree)) :
    finalPath.Fits subtree.height ∧ subtree.Balanced := by
  induction shape generalizing path with
  | empty =>
      simp only [descend, Prod.mk.injEq] at descended
      obtain ⟨rfl, rfl⟩ := descended
      exact ⟨fits, balanced⟩
  | node left id key height right leftHypothesis rightHypothesis =>
      obtain ⟨leftBalanced, rightBalanced, exact, near⟩ := balanced
      rw [height_node, exact] at fits
      cases compared : probe key with
      | lt =>
          simp only [descend, compared] at descended
          have leftFits : Path.Fits (.left id key right :: path) left.height :=
            ⟨rightBalanced, near, fits⟩
          exact leftHypothesis leftFits leftBalanced descended
      | gt =>
          simp only [descend, compared] at descended
          have rightFits : Path.Fits (.right left id key :: path) right.height :=
            ⟨leftBalanced, near, fits⟩
          exact rightHypothesis rightFits rightBalanced descended
      | eq =>
          simp only [descend, compared, Prod.mk.injEq] at descended
          obtain ⟨rfl, rfl⟩ := descended
          rw [height_node, exact]
          exact ⟨fits, leftBalanced, rightBalanced, rfl, near⟩

/-- Adding a node keeps a shape balanced. -/
theorem insert_balanced
    {probe : Key → Ordering}
    {id : NodeId}
    {key : Key}
    {shape : Shape Key}
    (balanced : shape.Balanced) :
    (shape.insert probe id key).Balanced := by
  unfold insert
  split
  · exact balanced
  · rename_i path descended
    obtain ⟨fits, _⟩ := descend_fits Path.fits_nil balanced descended
    have near : Near (single id key).height (empty : Shape Key).height := by
      simp [Near, single]
    exact Path.retrace_balanced fits (balanced_join trivial trivial (Near.refl 0)) near

/-- Removing a node keeps a shape balanced. -/
theorem erase_balanced
    {probe : Key → Ordering}
    {shape : Shape Key}
    (balanced : shape.Balanced) :
    (shape.erase probe).Balanced := by
  unfold erase
  split
  · rename_i path left id key height right descended
    obtain ⟨fits, leftBalanced, rightBalanced, exact, near⟩ :=
      descend_fits Path.fits_nil balanced descended
    obtain ⟨mergeBalanced, upper, lower⟩ := merge_balanced leftBalanced rightBalanced near
    refine Path.retrace_balanced fits mergeBalanced ?_
    rw [height_node]
    exact ⟨by omega, by omega⟩
  · exact balanced

end OrderedIndex.Shape

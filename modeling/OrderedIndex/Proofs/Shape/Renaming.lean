import OrderedIndex.Proofs.Shape.Sequence

namespace OrderedIndex.Shape

/-!
# Renaming nodes

The numbers of its nodes play no part in what becomes of a shape: giving the
nodes other numbers before an operation or after it comes to the same.  No
number has to stay apart from another for this, so all of them may as well be
forgotten.
-/

variable {Key : Type} (number : NodeId → NodeId)

/-- The same shape with other numbers for its nodes. -/
def rename : Shape Key → Shape Key
  | .empty => .empty
  | .node left id key height right =>
      .node left.rename (number id) key height right.rename

/-- The same path down a shape whose nodes have other numbers. -/
def Path.rename : Path Key → Path Key
  | [] => []
  | .left id key right :: rest => .left (number id) key (right.rename number) :: rename rest
  | .right left id key :: rest => .right (left.rename number) (number id) key :: rename rest

variable
  {number}
  {probe : Key → Ordering}
  {shape left right : Shape Key}
  {path : Path Key}
  {id : NodeId}
  {key : Key}

/-- Renaming keeps the height. -/
@[simp] theorem height_rename : (shape.rename number).height = shape.height := by
  cases shape <;> rfl

/-- Renaming keeps the balance. -/
@[simp] theorem balance_rename : (shape.rename number).balance = shape.balance := by
  cases shape with
  | empty =>
      rfl
  | node left id key height right =>
      simp [rename, balance]

/-! ## Rebalancing -/

/-- Renaming commutes with joining two subtrees. -/
@[simp] theorem rename_join :
    (join left id key right).rename number =
      join (left.rename number) (number id) key (right.rename number) := by
  simp [join, rename]

/-- Renaming commutes with a rotation to the right. -/
@[simp] theorem rename_rotateRight :
    shape.rotateRight.rename number = (shape.rename number).rotateRight := by
  cases shape with
  | empty =>
      rfl
  | node left id key height right =>
      cases left with
      | empty =>
          rfl
      | node outer pivot pivotKey leftHeight inner =>
          simp [rotateRight, rename]

/-- Renaming commutes with a rotation to the left. -/
@[simp] theorem rename_rotateLeft :
    shape.rotateLeft.rename number = (shape.rename number).rotateLeft := by
  cases shape with
  | empty =>
      rfl
  | node left id key height right =>
      cases right with
      | empty =>
          rfl
      | node inner pivot pivotKey rightHeight outer =>
          simp [rotateLeft, rename]

/-- Which rotations a node needs is told by heights alone. -/
@[simp] theorem rename_rebalance :
    (rebalance left id key right).rename number =
      rebalance (left.rename number) (number id) key (right.rename number) := by
  have joined :
      (join (left.rename number) (number id) key (right.rename number)).balance =
        (join left id key right).balance := by
    rw [← rename_join, balance_rename]
  simp only [rebalance, joined, balance_rename]
  split
  · rw [rename_rotateRight, rename_join, apply_ite (rename number), rename_rotateLeft]
  · split
    · rw [rename_rotateLeft, rename_join, apply_ite (rename number), rename_rotateRight]
    · exact rename_join

/-! ## Removing a node -/

/-- Renaming commutes with taking out the first node. -/
theorem popFirst?_rename :
    (shape.rename number).popFirst? =
      shape.popFirst?.map fun (least, rest) =>
        ((number least.1, least.2), rest.rename number) := by
  induction shape with
  | empty =>
      rfl
  | node left id key height right leftHypothesis rightHypothesis =>
      rw [rename, popFirst?, popFirst?, leftHypothesis]
      cases left.popFirst? with
      | none =>
          rfl
      | some popped =>
          simp

/-- Renaming commutes with merging two subtrees. -/
@[simp] theorem rename_merge :
    (merge left right).rename number = merge (left.rename number) (right.rename number) := by
  cases left with
  | empty =>
      rw [rename, merge_empty_left, merge_empty_left]
  | node outer pivot pivotKey height inner =>
      simp only [rename, merge, popFirst?_rename]
      cases right.popFirst? with
      | none =>
          rfl
      | some popped =>
          exact rename_rebalance

/-! ## Paths -/

/-- Renaming commutes with the way back up a path. -/
@[simp] theorem rename_retrace :
    (path.retrace shape).rename number =
      (path.rename number).retrace (shape.rename number) := by
  induction path generalizing shape with
  | nil =>
      rfl
  | cons step rest inductionHypothesis =>
      cases step with
      | left id key right =>
          exact inductionHypothesis.trans (congrArg _ rename_rebalance)
      | right left id key =>
          exact inductionHypothesis.trans (congrArg _ rename_rebalance)

/-- A search looks at keys alone. -/
theorem descend_rename :
    (shape.rename number).descend probe (path.rename number) =
      ((shape.descend probe path).1.rename number, (shape.descend probe path).2.rename number) := by
  induction shape generalizing path with
  | empty =>
      rfl
  | node left id key height right leftHypothesis rightHypothesis =>
      rw [rename, descend, descend]
      cases probe key with
      | lt =>
          exact @leftHypothesis (.left id key right :: path)
      | gt =>
          exact @rightHypothesis (.right left id key :: path)
      | eq =>
          rfl

/-! ## Changing -/

/-- Renaming commutes with an insertion, which brings the new name. -/
@[simp] theorem rename_insert :
    (shape.insert probe id key).rename number =
      (shape.rename number).insert probe (number id) key := by
  have descended := @descend_rename Key number probe shape []
  rw [Path.rename] at descended
  rw [insert, insert, descended]
  rcases shape.descend probe [] with ⟨path, _ | _⟩
  · simp [rename, single]
  · rfl

/-- Renaming commutes with a removal. -/
@[simp] theorem rename_erase :
    (shape.erase probe).rename number = (shape.rename number).erase probe := by
  have descended := @descend_rename Key number probe shape []
  rw [Path.rename] at descended
  rw [erase, erase, descended]
  rcases shape.descend probe [] with ⟨path, _ | _⟩
  · rfl
  · simp [rename]

/-! ## Changes that have nothing to do -/

/-- A key that is present is not added again. -/
theorem insert_of_present
    {found : NodeId}
    (located : shape.locate probe = .present found) :
    shape.insert probe id key = shape := by
  unfold locate at located
  unfold insert
  split at located
  next =>
    rfl
  next =>
    contradiction

/-- A key that is absent has no node to remove. -/
theorem erase_of_absent
    {below above : Option NodeId}
    (located : shape.locate probe = .absent below above) :
    shape.erase probe = shape := by
  unfold locate at located
  unfold erase
  split at located
  next =>
    contradiction
  next =>
    rfl

end OrderedIndex.Shape

import OrderedIndex.Proofs.Shape.Balance
import OrderedIndex.Tree.Linked.Balance

namespace OrderedIndex

/-!
# The sides of a node

A rotation on one side is the mirror image of a rotation on the other.  A node is
put together here from the child on a given side, the near one, and the child on
the other side, so that one statement tells of both rotations.
-/

namespace Branch

/-- The branch of a node with a near and a far child. -/
def fork (side : Side) (near far : Option NodeId) (height : Nat) : Branch :=
  match side with
  | .left => ⟨near, far, height⟩
  | .right => ⟨far, near, height⟩

variable {side : Side} {near far : Option NodeId} {height : Nat}

/-- The child on the side of a fork is the near one. -/
@[simp] theorem child_fork : (fork side near far height).child side = near := by
  cases side <;> rfl

/-- The child on the other side of a fork is the far one. -/
@[simp] theorem child_fork_opposite : (fork side near far height).child side.opposite = far := by
  cases side <;> rfl

@[simp] theorem height_fork : (fork side near far height).height = height := by
  cases side <;> rfl

/-- Hanging a child on the side of a fork replaces the near one. -/
@[simp] theorem hang_fork (child : Option NodeId) :
    (fork side near far height).hang side child = fork side child far height := by
  cases side <;> rfl

end Branch

namespace Shape

variable {Key : Type}

/-- A node with a near and a far child. -/
def fork
    (side : Side)
    (near : Shape Key)
    (id : NodeId)
    (key : Key)
    (height : Nat)
    (far : Shape Key) :
    Shape Key :=
  match side with
  | .left => .node near id key height far
  | .right => .node far id key height near

/-- A node with a near and a far child whose stored height is exact. -/
def joinAt (side : Side) (near : Shape Key) (id : NodeId) (key : Key) (far : Shape Key) :
    Shape Key :=
  match side with
  | .left => join near id key far
  | .right => join far id key near

/-- Lift the near child above its parent. -/
def liftAt : Side → Shape Key → Shape Key
  | .left => rotateRight
  | .right => rotateLeft

/-- Lift the near child, which is turned outward first if it leans inward. -/
def relieveAt (side : Side) (near : Shape Key) (id : NodeId) (key : Key) (far : Shape Key) :
    Shape Key :=
  let upright := if side.leansInward near.balance then near.liftAt side.opposite else near
  liftAt side (joinAt side upright id key far)

/-- Join a near and a far child under a node and rotate where they differ by two. -/
def rebalanceAt (side : Side) (near : Shape Key) (id : NodeId) (key : Key) (far : Shape Key) :
    Shape Key :=
  match side with
  | .left => rebalance near id key far
  | .right => rebalance far id key near

section Sides

variable
  {side : Side}
  {near far outer inner : Shape Key}
  {id pivot : NodeId}
  {key pivotKey : Key}
  {height pivotHeight : Nat}

/-- A fork is one on the other side with its subtrees exchanged. -/
theorem fork_opposite :
    fork side.opposite near id key height far = fork side far id key height near := by
  cases side <;> rfl

theorem joinAt_opposite :
    joinAt side.opposite near id key far = joinAt side far id key near := by
  cases side <;> rfl

/-- Joining two subtrees is a fork whose height is one above theirs. -/
theorem joinAt_eq_fork :
    joinAt side near id key far =
      fork side near id key (1 + max near.height far.height) far := by
  cases side with
  | left =>
      rfl
  | right =>
      rw [Nat.max_comm]
      rfl

@[simp] theorem root?_fork : (fork side near id key height far).root? = some id := by
  cases side <;> rfl

@[simp] theorem height_fork : (fork side near id key height far).height = height := by
  cases side <;> rfl

@[simp] theorem height_joinAt :
    (joinAt side near id key far).height = 1 + max near.height far.height := by
  rw [joinAt_eq_fork, height_fork]

/-- Lifting the near child of a fork hands its inner subtree down to the old top. -/
theorem liftAt_fork :
    liftAt side (fork side (fork side outer pivot pivotKey pivotHeight inner) id key height far) =
      joinAt side outer pivot pivotKey (joinAt side inner id key far) := by
  cases side <;> rfl

/-- A child leans inward where its inner child is higher than its outer one. -/
theorem leansInward_fork :
    side.leansInward (fork side outer pivot pivotKey height inner).balance = true ↔
      outer.height < inner.height := by
  cases side <;> refine decide_eq_true_iff.trans ?_ <;> simp only [fork, balance] <;> omega

/-- A fork is balanced as any node is, from whatever side it is seen. -/
theorem balanced_fork :
    (fork side near id key height far).Balanced ↔
      near.Balanced ∧ far.Balanced ∧
        height = 1 + max near.height far.height ∧ Near near.height far.height := by
  cases side with
  | left =>
      rfl
  | right =>
      constructor
      · rintro ⟨farBalanced, nearBalanced, exact, close⟩
        exact ⟨nearBalanced, farBalanced, Nat.max_comm _ _ ▸ exact, close.symm⟩
      · rintro ⟨nearBalanced, farBalanced, exact, close⟩
        exact ⟨farBalanced, nearBalanced, Nat.max_comm _ _ ▸ exact, close.symm⟩

/-- A shape that is higher than another has a node, seen from either side. -/
theorem exists_fork_of_height
    (side : Side)
    (shape : Shape Key)
    (high : 0 < shape.height) :
    ∃ near id key height far, shape = fork side near id key height far := by
  obtain ⟨left, id, key, height, right, rfl⟩ := exists_node_of_height shape high
  cases side with
  | left =>
      exact ⟨left, id, key, height, right, rfl⟩
  | right =>
      exact ⟨right, id, key, height, left, rfl⟩

/-- A near child that does not lean inward is lifted as it is. -/
theorem relieveAt_outward
    (outward : inner.height ≤ outer.height) :
    relieveAt side (fork side outer pivot pivotKey pivotHeight inner) id key far =
      joinAt side outer pivot pivotKey (joinAt side inner id key far) := by
  have upright :
      ¬ side.leansInward (fork side outer pivot pivotKey pivotHeight inner).balance = true :=
    mt leansInward_fork.mp (Nat.not_lt.mpr outward)
  rw [relieveAt, if_neg upright, joinAt_eq_fork, liftAt_fork]

/-- Of a near child that leans inward, the inner child becomes the topmost node. -/
theorem relieveAt_inward
    {top : NodeId}
    {topKey : Key}
    {topHeight : Nat}
    {innerOuter innerInner : Shape Key}
    (inward : outer.height < topHeight) :
    relieveAt side
        (fork side outer pivot pivotKey pivotHeight
          (fork side.opposite innerOuter top topKey topHeight innerInner))
        id key far =
      joinAt side (joinAt side outer pivot pivotKey innerInner) top topKey
        (joinAt side innerOuter id key far) := by
  have leaning :
      side.leansInward
          (fork side outer pivot pivotKey pivotHeight
            (fork side.opposite innerOuter top topKey topHeight innerInner)).balance =
        true := by
    rw [leansInward_fork, height_fork]
    exact inward
  rw [relieveAt, if_pos leaning, ← fork_opposite, liftAt_fork, joinAt_opposite, joinAt_opposite]
  rw [joinAt_eq_fork, joinAt_eq_fork, liftAt_fork]

/-- A node that is heavy on its left is relieved there. -/
theorem rebalance_eq_relieveAt_left
    (heavy : near.height = far.height + 2) :
    rebalance near id key far = relieveAt .left near id key far := by
  rw [rebalance_eq_rotateRight heavy]
  simp only [relieveAt, Side.leansInward, decide_eq_true_eq]
  rfl

/-- A node that is heavy on its right is relieved there. -/
theorem rebalance_eq_relieveAt_right
    (heavy : near.height = far.height + 2) :
    rebalance far id key near = relieveAt .right near id key far := by
  rw [rebalance_eq_rotateLeft heavy]
  simp only [relieveAt, Side.leansInward, decide_eq_true_eq]
  rfl

/-! ## Numbers -/

/-- The slots of a node are those of its left side, its own and those of its right side. -/
theorem ids_node {left right : Shape Key} :
    (node left id key height right).ids = left.ids ++ id :: right.ids := by
  simp [ids]

/-- Rebalancing keeps the sequence of slots. -/
theorem ids_rebalance {left right : Shape Key} :
    (rebalance left id key right).ids = left.ids ++ id :: right.ids := by
  simp [ids]

theorem mem_ids_node {left right : Shape Key} {sought : NodeId} :
    sought ∈ (node left id key height right).ids ↔
      sought ∈ left.ids ∨ sought = id ∨ sought ∈ right.ids := by
  rw [ids_node, List.mem_append, List.mem_cons]

/-- The slots of a node are distinct if those of its sides are, share none and miss the node's. -/
theorem nodup_ids_node {left right : Shape Key} :
    (node left id key height right).ids.Nodup ↔
      left.ids.Nodup ∧ right.ids.Nodup ∧ id ∉ left.ids ∧ id ∉ right.ids ∧
        ∀ other ∈ left.ids, other ∉ right.ids := by
  rw [ids_node, List.nodup_append, List.nodup_cons]
  grind

/-- The slots of a fork are its own and those of its two subtrees. -/
theorem mem_ids_fork {sought : NodeId} :
    sought ∈ (fork side near id key height far).ids ↔
      sought = id ∨ sought ∈ near.ids ∨ sought ∈ far.ids := by
  cases side with
  | left =>
      exact mem_ids_node.trans or_left_comm
  | right =>
      refine mem_ids_node.trans (or_left_comm.trans ?_)
      rw [or_comm (b := sought ∈ near.ids)]

theorem mem_ids_joinAt {sought : NodeId} :
    sought ∈ (joinAt side near id key far).ids ↔
      sought = id ∨ sought ∈ near.ids ∨ sought ∈ far.ids := by
  rw [joinAt_eq_fork, mem_ids_fork]

/-- Rebalancing on a side keeps the sequence of slots of the fork. -/
theorem ids_rebalanceAt :
    (rebalanceAt side near id key far).ids = (fork side near id key height far).ids := by
  cases side with
  | left =>
      exact ids_rebalance.trans ids_node.symm
  | right =>
      exact ids_rebalance.trans ids_node.symm

/-- The numbers in a node are distinct: its own and those of its two children. -/
theorem nodup_ids_fork :
    (fork side near id key height far).ids.Nodup ↔
      near.ids.Nodup ∧ far.ids.Nodup ∧ id ∉ near.ids ∧ id ∉ far.ids ∧
        ∀ other ∈ near.ids, other ∉ far.ids := by
  cases side with
  | left =>
      exact nodup_ids_node
  | right =>
      refine nodup_ids_node.trans ?_
      grind

end Sides

end Shape

end OrderedIndex

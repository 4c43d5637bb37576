import OrderedIndex.Proofs.Cursor.Position
import OrderedIndex.Proofs.Tree.Neighbours
import OrderedIndex.Tree.Cursor

namespace OrderedIndex.TreeCursor

/-!
# Tree cursors as positions among the keys

A tree cursor is at an end, on a node or in front of a node, so the gap in front
of the first node and the gap behind the last have two forms each.
-/

open TreeNode

variable
  {Key Value : Type}
  {tree : OrderedTree Key Value}
  {nodes below above : List (TreeNode Key Value)}
  {cursor : TreeCursor Key Value}
  {position : Position}

/-- The position of a cursor among the nodes of its tree. -/
inductive Stands (tree : OrderedTree Key Value) (nodes : List (TreeNode Key Value)) :
    TreeCursor Key Value → Position → Prop where
  | beforeFirst : Stands tree nodes ⟨tree, .beforeFirst⟩ (.gap 0)
  | afterLast : Stands tree nodes ⟨tree, .afterLast⟩ (.gap nodes.length)
  | on
      {below above : List (TreeNode Key Value)}
      {node : TreeNode Key Value}
      (nodes_eq : nodes = below ++ node :: above) :
      Stands tree nodes ⟨tree, .on node.id⟩ (.on below.length)
  | before
      {below above : List (TreeNode Key Value)}
      {node : TreeNode Key Value}
      (nodes_eq : nodes = below ++ node :: above) :
      Stands tree nodes ⟨tree, .before node.id⟩ (.gap below.length)

namespace Stands

theorem tree_eq (stands : Stands tree nodes cursor position) : cursor.tree = tree := by
  cases stands <;> rfl

/-- A cursor stands at a place of its tree. -/
theorem within (stands : Stands tree nodes cursor position) :
    position.Within nodes.length := by
  cases stands with
  | beforeFirst =>
      exact Nat.zero_le nodes.length
  | afterLast =>
      exact Nat.le_refl nodes.length
  | on nodes_eq =>
      simp [Position.Within, nodes_eq]
  | before nodes_eq =>
      simp [Position.Within, nodes_eq]

/-- A cursor is on a node where its position is on an element. -/
theorem available_eq (stands : Stands tree nodes cursor position) :
    cursor.node?.isSome = position.isOn := by
  cases stands <;> rfl

/-- A cursor shows the key at its position. -/
theorem get_eq
    (represents : tree.Represents nodes)
    (stands : Stands tree nodes cursor position) :
    cursor.get = position.get (nodes.map TreeNode.key) := by
  cases stands with
  | on nodes_eq =>
      simp [get, entry, node?, represents.entry?_eq nodes_eq, Position.get, nodes_eq, Except.map]
  | _ =>
      rfl

/-! ## Moving -/

/-- In front of some nodes, all others are behind. -/
theorem inFront
    (tree_eq : cursor.tree = tree)
    (nodes_eq : nodes = below ++ above) :
    Stands tree nodes (cursor.inFront (firstOr none above)) (.gap below.length) := by
  obtain ⟨_, place⟩ := cursor
  cases tree_eq
  cases above with
  | nil =>
      rw [List.append_nil] at nodes_eq
      subst nodes_eq
      exact .afterLast
  | cons node above =>
      exact .before nodes_eq

/-- Settling on the first of some nodes is the step of a position with the others behind. -/
theorem settle_next
    (tree_eq : cursor.tree = tree)
    (nodes_eq : nodes = below ++ above)
    (ahead : position.ahead = below.length) :
    (cursor.settle (firstOr none above) .afterLast).1 = (position.next nodes.length).1 ∧
      Stands tree nodes (cursor.settle (firstOr none above) .afterLast).2
        (position.next nodes.length).2 := by
  obtain ⟨_, place⟩ := cursor
  cases tree_eq
  cases above with
  | nil =>
      rw [List.append_nil] at nodes_eq
      subst nodes_eq
      rw [Position.next, ahead, if_neg (Nat.lt_irrefl _)]
      exact ⟨rfl, .afterLast⟩
  | cons node above =>
      rw [Position.next, ahead, if_pos (by simp [nodes_eq])]
      exact ⟨rfl, .on nodes_eq⟩

/-- Settling on the last of some nodes is the step of a position with these behind. -/
theorem settle_previous
    (tree_eq : cursor.tree = tree)
    (nodes_eq : nodes = below ++ above)
    (behind : position.behind = below.length) :
    (cursor.settle (lastOr none below) .beforeFirst).1 = position.previous.1 ∧
      Stands tree nodes (cursor.settle (lastOr none below) .beforeFirst).2
        position.previous.2 := by
  obtain ⟨_, place⟩ := cursor
  cases tree_eq
  rw [Position.previous, behind]
  rcases List.eq_nil_or_concat below with rfl | ⟨lower, node, rfl⟩
  · exact ⟨rfl, .beforeFirst⟩
  · rw [List.concat_eq_append] at nodes_eq ⊢
    rw [List.append_assoc, List.singleton_append] at nodes_eq
    rw [lastOr_append, List.length_append]
    exact ⟨rfl, .on nodes_eq⟩

/-- A step forward leads to the next position and tells the same. -/
theorem next
    (represents : tree.Represents nodes)
    (stands : Stands tree nodes cursor position) :
    cursor.next.1 = (position.next nodes.length).1 ∧
      Stands tree nodes cursor.next.2 (position.next nodes.length).2 := by
  cases stands with
  | beforeFirst =>
      rw [TreeCursor.next, represents.first_eq]
      exact settle_next rfl (List.nil_append nodes).symm rfl
  | afterLast =>
      exact settle_next rfl (List.append_nil nodes).symm rfl
  | @on below above node nodes_eq =>
      have regrouped : nodes = (below ++ [node]) ++ above := by
        rw [nodes_eq, List.append_assoc, List.singleton_append]
      have reached : (Position.on below.length).ahead = (below ++ [node]).length := by
        rw [List.length_append]
        rfl
      unfold TreeCursor.next
      dsimp only
      rw [represents.next?_eq nodes_eq]
      exact settle_next rfl regrouped reached
  | before nodes_eq =>
      exact settle_next rfl nodes_eq rfl

/-- A step backward leads to the previous position and tells the same. -/
theorem previous
    (represents : tree.Represents nodes)
    (stands : Stands tree nodes cursor position) :
    cursor.previous.1 = position.previous.1 ∧
      Stands tree nodes cursor.previous.2 position.previous.2 := by
  cases stands with
  | beforeFirst =>
      exact settle_previous rfl (List.nil_append nodes).symm rfl
  | afterLast =>
      rw [TreeCursor.previous, represents.last_eq]
      exact settle_previous rfl (List.append_nil nodes).symm rfl
  | on nodes_eq =>
      unfold TreeCursor.previous
      dsimp only
      rw [represents.previous?_eq nodes_eq]
      exact settle_previous rfl nodes_eq rfl
  | before nodes_eq =>
      unfold TreeCursor.previous
      dsimp only
      rw [represents.previous?_eq nodes_eq]
      exact settle_previous rfl nodes_eq rfl

theorem to_beforeFirst (stands : Stands tree nodes cursor position) :
    Stands tree nodes cursor.beforeFirst (.gap 0) := by
  rw [TreeCursor.beforeFirst, stands.tree_eq]
  exact .beforeFirst

theorem to_afterLast (stands : Stands tree nodes cursor position) :
    Stands tree nodes cursor.afterLast (.gap nodes.length) := by
  rw [TreeCursor.afterLast, stands.tree_eq]
  exact .afterLast

/-- The gap before a key is found among the nodes. -/
theorem to_before
    [Std.TransCmp tree.order]
    (represents : tree.Represents nodes)
    (stands : Stands tree nodes cursor position)
    (key : Key) :
    Stands tree nodes (cursor.before key)
      (.before (tree.order key) (nodes.map TreeNode.key)) := by
  rw [TreeCursor.before, stands.tree_eq, represents.findAtLeast?_eq, Position.before,
    Order.lower_map, List.length_map]
  exact inFront stands.tree_eq (Order.lower_append_notLower nodes).symm

/-- The gap after a key is found among the nodes. -/
theorem to_after
    [Std.TransCmp tree.order]
    (represents : tree.Represents nodes)
    (stands : Stands tree nodes cursor position)
    (key : Key) :
    Stands tree nodes (cursor.after key)
      (.after (tree.order key) (nodes.map TreeNode.key)) := by
  rw [TreeCursor.after, stands.tree_eq, represents.findAbove?_eq, Position.after,
    Order.notUpper_map, List.length_map]
  exact inFront stands.tree_eq (Order.notUpper_append_upper nodes).symm

end Stands

end OrderedIndex.TreeCursor

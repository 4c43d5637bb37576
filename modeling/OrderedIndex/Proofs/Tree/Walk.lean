import OrderedIndex.Proofs.Tree.Represents

namespace OrderedIndex.OrderedTree.Formed

/-!
# Walking a tree

A walk from node to node follows the chain, so it reads the list of nodes
from the node where it starts, in either direction.
-/

open TreeNode

variable
  {Key Value : Type}
  {tree : OrderedTree Key Value}
  {nodes below above : List (TreeNode Key Value)}
  {node : TreeNode Key Value}

/-- The slots of the shape are those of the nodes. -/
theorem ids_eq (formed : tree.Formed nodes) :
    tree.shape.ids = nodes.map TreeNode.id := by
  rw [Shape.ids, formed.sequence, List.map_map]
  rfl

/-- A node is followed by the first one behind it. -/
theorem next?_eq
    (formed : tree.Formed nodes)
    (nodes_eq : nodes = below ++ node :: above) :
    tree.next? node.id = firstOr none above := by
  simp [next?, formed.entry?_eq nodes_eq]

/-- A node is preceded by the last one in front of it. -/
theorem previous?_eq
    (formed : tree.Formed nodes)
    (nodes_eq : nodes = below ++ node :: above) :
    tree.previous? node.id = lastOr none below := by
  simp [previous?, formed.entry?_eq nodes_eq]

/-- Walking up reads the nodes from the first one on. -/
theorem ascend_eq
    (formed : tree.Formed nodes)
    (nodes_eq : nodes = below ++ above)
    (count : Nat) :
    tree.ascend count (firstOr none above) = (above.take count).map TreeNode.id := by
  induction count generalizing below above with
  | zero =>
      rfl
  | succ count inductionHypothesis =>
      cases above with
      | nil =>
          rfl
      | cons node above =>
          have shifted : nodes = (below ++ [node]) ++ above := by
            rw [nodes_eq, List.append_assoc, List.singleton_append]
          rw [firstOr_cons, ascend, formed.next?_eq nodes_eq,
            inductionHypothesis shifted, List.take_succ_cons, List.map_cons]

/-- Walking down reads the nodes from the last one on. -/
theorem descend_eq
    (formed : tree.Formed nodes)
    (nodes_eq : nodes = below.reverse ++ above)
    (count : Nat) :
    tree.descend count (lastOr none below.reverse) = (below.take count).map TreeNode.id := by
  induction count generalizing below above with
  | zero =>
      rfl
  | succ count inductionHypothesis =>
      cases below with
      | nil =>
          rfl
      | cons node below =>
          rw [List.reverse_cons, List.append_assoc, List.singleton_append] at nodes_eq
          rw [List.reverse_cons, lastOr_append, lastOr_cons, lastOr_nil, descend,
            formed.previous?_eq nodes_eq, inductionHypothesis nodes_eq,
            List.take_succ_cons, List.map_cons]

theorem nodes_eq (formed : tree.Formed nodes) :
    tree.nodes = nodes.map TreeNode.id := by
  rw [OrderedTree.nodes, formed.first_eq, formed.size_eq,
    formed.ascend_eq (List.nil_append nodes).symm, List.take_length]

/-! ## Reading along the walk -/

/-- What a slot holds besides its links is read off the nodes. -/
theorem filterMap_ids
    (formed : tree.Formed nodes)
    {Field : Type}
    {field : Entry Key Value → Field}
    {nodeField : TreeNode Key Value → Field}
    (reads :
      ∀ (node : TreeNode Key Value) previous next,
        field ⟨node.key, node.value, previous, next⟩ = nodeField node) :
    ((nodes.map TreeNode.id).filterMap fun id => (tree.entry? id).map field) =
      nodes.map nodeField := by
  have readNode :
      ∀ node ∈ nodes, (tree.entry? node.id).map field = some (nodeField node) := by
    intro node member
    obtain ⟨previous, next, found⟩ := formed.linked.entry_of_mem member
    rw [found, Option.map_some, reads]
  clear formed
  induction nodes with
  | nil =>
      rfl
  | cons first rest inductionHypothesis =>
      have restRead :=
        inductionHypothesis fun node member => readNode node (List.mem_cons_of_mem first member)
      rw [List.map_cons, List.filterMap_cons, readNode first List.mem_cons_self, restRead,
        List.map_cons]

/-- The pairs of a tree are those of its nodes. -/
theorem toList_eq (formed : tree.Formed nodes) :
    tree.toList = nodes.map pair := by
  rw [toList, entries, List.map_filterMap, formed.nodes_eq]
  exact formed.filterMap_ids fun _ _ _ => rfl

theorem keys_eq (formed : tree.Formed nodes) :
    tree.keys = nodes.map TreeNode.key := by
  rw [keys, entries, List.map_filterMap, formed.nodes_eq]
  exact formed.filterMap_ids fun _ _ _ => rfl

theorem values_eq (formed : tree.Formed nodes) :
    tree.values = nodes.map TreeNode.value := by
  rw [values, entries, List.map_filterMap, formed.nodes_eq]
  exact formed.filterMap_ids fun _ _ _ => rfl

end OrderedIndex.OrderedTree.Formed

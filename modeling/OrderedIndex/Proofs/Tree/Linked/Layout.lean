import OrderedIndex.Proofs.Tree.Linked.Search

namespace OrderedIndex

/-!
# The layout in memory

A memory that stores a tree is the layout of that tree, so there is only one: its
entries are those of the tree, and the branch of every node is told by the shape.
-/

open Shape

namespace Shape

variable {Key : Type} {shape : Shape Key} {id : NodeId}

/-- The branches of a shape are those of its nodes. -/
theorem branch?_isSome_iff : (shape.branch? id).isSome ↔ id ∈ shape.ids := by
  induction shape with
  | empty =>
      simp [branch?, ids]
  | node left other key height right leftHypothesis rightHypothesis =>
      rw [branch?, mem_ids_node, ← leftHypothesis, ← rightHypothesis]
      split
      · rename_i same
        simp [same]
      · rename_i different
        simp [Ne.symm different]

theorem branch?_eq_none (stranger : id ∉ shape.ids) : shape.branch? id = none := by
  rwa [← branch?_isSome_iff, Option.not_isSome_iff_eq_none] at stranger

end Shape

namespace LinkedTree

variable
  {Key Value : Type}
  {tree : LinkedTree Key Value}
  {ordered : OrderedTree Key Value}
  {nodes : List (TreeNode Key Value)}
  {shape : Shape Key}
  {id : NodeId}

/-- A memory holds a shape of distinct nodes exactly if it has the branches of the shape. -/
theorem holds_iff
    (distinct : shape.ids.Nodup) :
    tree.Holds shape ↔ ∀ id ∈ shape.ids, tree.branch? id = shape.branch? id := by
  induction shape with
  | empty =>
      simp [Holds, Shape.ids]
  | node left here key height right leftHypothesis rightHypothesis =>
      obtain ⟨leftDistinct, rightDistinct, hereLeft, hereRight, apart⟩ := nodup_ids_node.mp distinct
      have atHere : (Shape.node left here key height right).branch? here =
          some ⟨left.root?, right.root?, height⟩ := by
        rw [Shape.branch?, if_pos rfl]
      have inLeft (id : NodeId) (member : id ∈ left.ids) :
          (Shape.node left here key height right).branch? id = left.branch? id := by
        rw [Shape.branch?, if_neg (by rintro rfl; exact hereLeft member),
          branch?_eq_none (apart id member), Option.or_none]
      have inRight (id : NodeId) (member : id ∈ right.ids) :
          (Shape.node left here key height right).branch? id = right.branch? id := by
        rw [Shape.branch?, if_neg (by rintro rfl; exact hereRight member),
          branch?_eq_none (fun isLeft => apart id isLeft member), Option.none_or]
      rw [Holds, leftHypothesis leftDistinct, rightHypothesis rightDistinct]
      simp only [mem_ids_node]
      constructor
      · rintro ⟨isHere, leftSame, rightSame⟩ id (member | rfl | member)
        · exact (leftSame id member).trans (inLeft id member).symm
        · exact isHere.trans atHere.symm
        · exact (rightSame id member).trans (inRight id member).symm
      · intro same
        refine ⟨(same here (.inr (.inl rfl))).trans atHere, ?_, ?_⟩
        · intro id member
          exact (same id (.inl member)).trans (inLeft id member)
        · intro id member
          exact (same id (.inr (.inr member))).trans (inRight id member)

/-- A slot of the layout has an entry of the tree with the branch of its node. -/
theorem node?_linked (ordered : OrderedTree Key Value) (id : NodeId) :
    ordered.linked.node? id =
      (ordered.entry? id).map fun entry => ⟨entry, (ordered.shape.branch? id).getD .leaf⟩ := by
  unfold node? OrderedTree.linked OrderedTree.entry?
  simp only [Array.getElem?_mapIdx]
  cases ordered.slots[id]? with
  | none =>
      rfl
  | some slot =>
      rfl

/-- The slots in use are those of the shape's nodes. -/
theorem mem_ids_iff (formed : ordered.Formed nodes) :
    id ∈ ordered.shape.ids ↔ (ordered.entry? id).isSome := by
  rw [formed.ids_eq, formed.entry?_isSome_iff]

/-- The layout of a tree stores the tree. -/
theorem stores_linked (formed : ordered.Formed nodes) : ordered.linked.Stores ordered where
  under_eq := by
    have slots_eq : (ordered.linked.under ordered.shape).slots = ordered.slots := by
      refine Array.ext_getElem? ?_
      intro slot
      simp only [under, OrderedTree.linked, Array.getElem?_map, Array.getElem?_mapIdx]
      cases ordered.slots[slot]? with
      | none =>
          rfl
      | some entry =>
          cases entry <;> rfl
    exact congrArg (fun slots => { ordered with slots := slots }) slots_eq
  root_eq := rfl
  holds := by
    refine (holds_iff (formed.ids_eq ▸ formed.distinct)).mpr ?_
    intro id member
    obtain ⟨branch, isBranch⟩ := Option.isSome_iff_exists.mp (branch?_isSome_iff.mpr member)
    obtain ⟨entry, isEntry⟩ := Option.isSome_iff_exists.mp ((mem_ids_iff formed).mp member)
    rw [branch?, node?_linked, isEntry, isBranch]
    rfl

/-- What stores a tree is the layout of the tree. -/
theorem Stores.eq_linked
    (stores : tree.Stores ordered)
    (formed : ordered.Formed nodes) :
    tree = ordered.linked := by
  have branches := (holds_iff (formed.ids_eq ▸ formed.distinct)).mp stores.holds
  have nodes_eq : tree.nodes = ordered.linked.nodes := by
    refine Array.ext_getElem? ?_
    intro slot
    have slots_eq :
        ordered.slots[slot]? = tree.nodes[slot]?.map (Option.map LinkedNode.toEntry) := by
      rw [← stores.under_eq, under, Array.getElem?_map]
    simp only [OrderedTree.linked, Array.getElem?_mapIdx, slots_eq]
    cases inSlot : tree.nodes[slot]? with
    | none =>
        rfl
    | some node? =>
        cases node? with
        | none =>
            rfl
        | some node =>
            have read : tree.node? slot = some node := by
              rw [node?, inSlot]
              rfl
            have live : slot ∈ ordered.shape.ids := by
              rw [mem_ids_iff formed, stores.entry?_eq, read]
              rfl
            have branch_eq := branches slot live
            rw [branch?, read, Option.map_some] at branch_eq
            rw [← branch_eq]
            rfl
  calc
    tree =
        ⟨tree.order, tree.nodes, tree.free, tree.root, tree.first, tree.last, tree.size⟩ := rfl
    _ = ordered.linked := by
      rw [stores.order_eq, nodes_eq, stores.free_eq, stores.root_eq, stores.first_eq,
        stores.last_eq, stores.size_eq]
      rfl

end LinkedTree

end OrderedIndex

import OrderedIndex.Proofs.Computation
import OrderedIndex.Proofs.Shape.Sides
import OrderedIndex.Proofs.Tree.Arena
import OrderedIndex.Tree.Linked.Layout

namespace OrderedIndex

/-!
# Reading memory

A tree in memory is read in two ways: its entries make an ordered tree under any
shape, and its branches hold a shape or do not.  An operation that balances
changes branches only, and those of the nodes that it works on; one that changes
an entry leaves all branches as they are.  So what is held elsewhere stays held.
-/

namespace LinkedTree

variable {Key Value : Type} {tree middle result : LinkedTree Key Value} {id : NodeId}

/-- The children and the height of a node. -/
def branch? (tree : LinkedTree Key Value) (id : NodeId) : Option Branch :=
  (tree.node? id).map LinkedNode.toBranch

/-- The ordered tree that the entries in a memory make under a shape. -/
def under (tree : LinkedTree Key Value) (shape : Shape Key) : OrderedTree Key Value where
  order := tree.order
  shape := shape
  slots := tree.nodes.map (Option.map LinkedNode.toEntry)
  free := tree.free
  first := tree.first
  last := tree.last
  size := tree.size

/-- The nodes of a shape are in memory, with its links between them and its heights. -/
def Holds (tree : LinkedTree Key Value) : Shape Key → Prop
  | .empty => True
  | .node left id _ height right =>
      tree.branch? id = some ⟨left.root?, right.root?, height⟩ ∧
        tree.Holds left ∧ tree.Holds right

/-- A memory with the same entries, and the same branches but for some nodes. -/
structure Regrown (ids : List NodeId) (tree result : LinkedTree Key Value) : Prop where
  under_eq : ∀ shape, result.under shape = tree.under shape
  branch?_eq : ∀ id, id ∉ ids → result.branch? id = tree.branch? id

/-- A memory with the same branches, and with entries that were changed in some way. -/
structure Rechained
    (change : OrderedTree Key Value → OrderedTree Key Value)
    (tree result : LinkedTree Key Value) :
    Prop where
  under_eq : ∀ shape, result.under shape = change (tree.under shape)
  branch?_eq : ∀ id, result.branch? id = tree.branch? id

/-! ## Nodes -/

theorem entry?_under (tree : LinkedTree Key Value) (shape : Shape Key) (id : NodeId) :
    OrderedTree.entry? (tree.under shape) id = (tree.node? id).map LinkedNode.toEntry := by
  unfold OrderedTree.entry? node?
  simp only [under, Array.getElem?_map]
  cases tree.nodes[id]? with
  | none =>
      rfl
  | some slot =>
      rfl

theorem node_eq_ok_iff {node : LinkedNode Key Value} :
    tree.node id = .ok node ↔ tree.node? id = some node := by
  unfold LinkedTree.node
  cases tree.node? id <;> simp [TreeFault.expect]

/-- A slot with an entry and a branch has the node of both. -/
theorem node_of_parts
    {shape : Shape Key}
    {entry : Entry Key Value}
    {branch : Branch}
    (entry_eq : OrderedTree.entry? (tree.under shape) id = some entry)
    (branch_eq : tree.branch? id = some branch) :
    tree.node id = .ok ⟨entry, branch⟩ := by
  rw [entry?_under] at entry_eq
  obtain ⟨node, found, rfl⟩ := Option.map_eq_some_iff.mp branch_eq
  rw [found, Option.map_some, Option.some.injEq] at entry_eq
  rw [node_eq_ok_iff, found, ← entry_eq]

theorem node_of_branch?
    {branch : Branch}
    (found : tree.branch? id = some branch) :
    ∃ node, tree.node id = .ok node ∧ node.toBranch = branch := by
  obtain ⟨node, isNode, branch_eq⟩ := Option.map_eq_some_iff.mp found
  exact ⟨node, node_eq_ok_iff.mpr isNode, branch_eq⟩

/-- A node that is changed is changed in its slot alone. -/
theorem node?_modify
    (tree : LinkedTree Key Value)
    (id slot : NodeId)
    (change : LinkedNode Key Value → LinkedNode Key Value) :
    node? { tree with nodes := tree.nodes.modify id (Option.map change) } slot =
      if id = slot then (tree.node? slot).map change else tree.node? slot := by
  unfold node?
  simp only [Array.getElem?_modify]
  split
  · cases tree.nodes[slot]? with
    | none =>
        rfl
    | some node =>
        rfl
  · rfl

/-- The entries after a change of nodes that does to an entry what another change does. -/
theorem under_modify
    (tree : LinkedTree Key Value)
    (id : NodeId)
    {change : LinkedNode Key Value → LinkedNode Key Value}
    (onEntry : Entry Key Value → Entry Key Value)
    (entry_eq : ∀ node, (change node).toEntry = onEntry node.toEntry)
    (shape : Shape Key) :
    under { tree with nodes := tree.nodes.modify id (Option.map change) } shape =
      (tree.under shape).modifyEntry id onEntry := by
  unfold under OrderedTree.modifyEntry
  congr 1
  refine Array.ext_getElem? ?_
  intro slot
  simp only [Array.getElem?_map, Array.getElem?_modify]
  split
  · cases tree.nodes[slot]? with
    | none =>
        rfl
    | some node =>
        cases node <;> simp [entry_eq]
  · rfl

/-- Changing an entry leaves the branches as they are. -/
theorem modify_entry
    {node : LinkedNode Key Value}
    (found : tree.node id = .ok node)
    (onEntry : Entry Key Value → Entry Key Value) :
    ∃ result,
      tree.modify id (fun node => { node with toEntry := onEntry node.toEntry }) = .ok result ∧
        Rechained (fun ordered => ordered.modifyEntry id onEntry) tree result := by
  refine ⟨_, by rw [modify, found]; rfl, under_modify tree id onEntry fun _ => rfl, ?_⟩
  intro slot
  rw [branch?, node?_modify]
  split
  · rw [Option.map_map]
    rfl
  · rfl

/-- Changing a branch leaves the entries and all other branches as they are. -/
theorem modify_branch
    {branch : Branch}
    (found : tree.branch? id = some branch)
    (onBranch : Branch → Branch) :
    ∃ result,
      tree.modify id (fun node => { node with toBranch := onBranch node.toBranch }) = .ok result ∧
        Regrown [id] tree result ∧ result.branch? id = some (onBranch branch) := by
  obtain ⟨node, isNode, rfl⟩ := node_of_branch? found
  refine ⟨_, by rw [modify, isNode]; rfl, ⟨?_, ?_⟩, ?_⟩
  · intro shape
    have sameSlots :
        (tree.under shape).slots.modify id (Option.map fun entry => entry) =
          (tree.under shape).slots := by
      refine Array.ext_getElem? ?_
      intro slot
      rw [Array.getElem?_modify]
      simp
    refine (under_modify tree id (fun entry => entry) ?_ shape).trans ?_
    · exact fun _ => rfl
    · rw [OrderedTree.modifyEntry, sameSlots]
  · intro slot stranger
    rw [branch?, node?_modify, if_neg (Ne.symm (List.ne_of_not_mem_cons stranger))]
    rfl
  · rw [branch?, node?_modify, if_pos rfl, node_eq_ok_iff.mp isNode]
    rfl

/-! ## Frames -/

namespace Regrown

variable {ids moreIds : List NodeId}

theorem refl (ids : List NodeId) (tree : LinkedTree Key Value) : Regrown ids tree tree :=
  ⟨fun _ => rfl, fun _ _ => rfl⟩

theorem trans
    (first : Regrown ids tree middle)
    (second : Regrown ids middle result) :
    Regrown ids tree result where
  under_eq shape := (second.under_eq shape).trans (first.under_eq shape)
  branch?_eq id stranger := (second.branch?_eq id stranger).trans (first.branch?_eq id stranger)

theorem mono
    (regrown : Regrown ids tree result)
    (within : ids ⊆ moreIds) :
    Regrown moreIds tree result where
  under_eq := regrown.under_eq
  branch?_eq id stranger := regrown.branch?_eq id fun member => stranger (within member)

end Regrown

/-- What a memory holds depends on the branches of its nodes alone. -/
theorem Holds.congr
    {shape : Shape Key}
    (holds : tree.Holds shape)
    (same : ∀ id ∈ shape.ids, result.branch? id = tree.branch? id) :
    result.Holds shape := by
  induction shape with
  | empty =>
      trivial
  | node left id key height right leftHypothesis rightHypothesis =>
      obtain ⟨here, holdsLeft, holdsRight⟩ := holds
      simp only [Shape.mem_ids_node] at same
      refine ⟨(same id (.inr (.inl rfl))).trans here, leftHypothesis holdsLeft ?_,
        rightHypothesis holdsRight ?_⟩
      · exact fun other member => same other (.inl member)
      · exact fun other member => same other (.inr (.inr member))

/-- What has no node among those that were changed is still held. -/
theorem Regrown.holds
    {ids : List NodeId}
    {shape : Shape Key}
    (regrown : Regrown ids tree result)
    (holds : tree.Holds shape)
    (apart : ∀ id ∈ shape.ids, id ∉ ids) :
    result.Holds shape :=
  holds.congr fun id member => regrown.branch?_eq id (apart id member)

end LinkedTree

end OrderedIndex

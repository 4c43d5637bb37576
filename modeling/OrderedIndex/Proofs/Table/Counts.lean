import OrderedIndex.Proofs.Table.Questions
import OrderedIndex.Proofs.Tree.Neighbours

namespace OrderedIndex

/-!
# Counting along the chain

The tuples on either side of a key are counted group by group, along the chain
of nodes from the neighbour of the key on.  Over stores that do not fail the sum
is the size of that side of the map.
-/

variable {Key Value : Type}

/-! ## Walks from a neighbour -/

namespace OrderedTree.Represents

variable
  {tree : OrderedTree Key Value}
  [Std.TransCmp tree.order]
  {nodes : List (TreeNode Key Value)}

/-- The walk up from the neighbour above a key visits the nodes above it. -/
theorem ascend_above
    (represents : tree.Represents nodes)
    (key : Key) :
    tree.ascend tree.size (tree.findAbove? key) =
      (Order.upper (tree.probeNode key) nodes).map TreeNode.id := by
  have split :
      Order.notUpper (tree.probeNode key) nodes ++ Order.upper (tree.probeNode key) nodes =
        nodes :=
    Order.notUpper_append_upper nodes
  have notMore : (Order.upper (tree.probeNode key) nodes).length ≤ tree.size := by
    rw [represents.size_eq, ← congrArg List.length split, List.length_append]
    exact Nat.le_add_left _ _
  rw [represents.findAbove?_eq, represents.ascend_eq split.symm, List.take_of_length_le notMore]

/-- The walk down from the neighbour below a key visits the nodes below it. -/
theorem descend_below
    (represents : tree.Represents nodes)
    (key : Key) :
    tree.descend tree.size (tree.findBelow? key) =
      (Order.lower (tree.probeNode key) nodes).reverse.map TreeNode.id := by
  have split :
      Order.lower (tree.probeNode key) nodes ++ Order.notLower (tree.probeNode key) nodes =
        nodes :=
    Order.lower_append_notLower nodes
  have notMore : (Order.lower (tree.probeNode key) nodes).reverse.length ≤ tree.size := by
    rw [represents.size_eq, ← congrArg List.length split, List.length_append, List.length_reverse]
    exact Nat.le_add_right _ _
  have reversed :
      nodes =
        (Order.lower (tree.probeNode key) nodes).reverse.reverse ++
          Order.notLower (tree.probeNode key) nodes := by
    rw [List.reverse_reverse, split]
  have descended := represents.descend_eq reversed tree.size
  rw [List.reverse_reverse, List.take_of_length_le notMore] at descended
  rw [represents.findBelow?_eq, descended]

end OrderedTree.Represents

/-! ## Sums of sizes -/

theorem TableSpec.size_reverse (map : Multimap Key Value) :
    TableSpec.size map.reverse = TableSpec.size map := by
  induction map with
  | nil =>
      rfl
  | cons pair rest inductionHypothesis =>
      rw [List.reverse_cons, TableSpec.size_append, inductionHypothesis, TableSpec.size_cons,
        TableSpec.size_cons]
      exact Nat.add_comm _ _

namespace Table

variable {table : Table Key Value}

/-- A table seen as the nodes of its tree of keys, whatever is stored at them. -/
structure ListedBy
    {Stored : Type}
    (table : Table Key Value)
    (tree : OrderedTree Key Stored)
    (values : Stored → List Value)
    (nodes : List (TreeNode Key Stored)) :
    Prop where
  ask_eq :
    ∀ {Answer : Type} (question : {Stored : Type} → OrderedTree Key Stored → Answer),
      table.entries.ask question = question tree
  order_eq : tree.order = table.spec.keys
  represents : tree.Represents nodes
  groups_eq : table.groups = nodes.map fun node => (node.key, values node.value)
  ensures_groupSize :
    ∀ node ∈ nodes,
      Ensures .reliable (table.groupSize node.id)
        (Regime.reliable.Tells (values node.value).length)

theorem Sound.listed (sound : table.Sound) :
    ∃ (Stored : Type) (tree : OrderedTree Key Stored) (values : Stored → List Value)
      (nodes : List (TreeNode Key Stored)),
      table.ListedBy tree values nodes := by
  cases entries : table.entries with
  | unique tree =>
      have stored := storedAs_unique sound entries
      have order_eq := stored.order_eq
      have treeSound := stored.treeSound
      obtain ⟨nodes, represents⟩ := treeSound.represents
      refine ⟨Value, tree, fun value => [value], nodes, ?_, order_eq, represents, ?_, ?_⟩
      · intro Answer question
        rw [entries]
        rfl
      · rw [stored.groups_table, OrderedTree.groupsBy, represents.toList_eq, List.map_map]
        rfl
      · intro node _
        rw [groupSize, entries]
        exact Ensures.pure rfl
  | duplicates tree policy =>
      have stored := storedAs_duplicates sound entries
      have order_eq := stored.order_eq
      have treeSound := stored.treeSound
      have allValid := stored.allValid
      obtain ⟨nodes, represents⟩ := treeSound.represents
      refine ⟨Group Value, tree, Group.toList, nodes, ?_, order_eq, represents, ?_, ?_⟩
      · intro Answer question
        rw [entries]
        rfl
      · rw [stored.groups_table, OrderedTree.groupsBy, represents.toList_eq, List.map_map]
        rfl
      · intro node member
        obtain ⟨below, above, nodes_eq⟩ := List.append_of_mem member
        have inTree : node.pair ∈ tree.toList := by
          rw [represents.toList_eq]
          exact List.mem_map_of_mem member
        rw [groupSize, entries]
        dsimp only
        rw [represents.value?_eq nodes_eq]
        exact Group.ensures_size (allValid node.pair inTree).1

namespace ListedBy

variable
  {Stored : Type}
  {tree : OrderedTree Key Stored}
  {values : Stored → List Value}
  {nodes : List (TreeNode Key Stored)}

theorem probeNode_eq
    (listed : table.ListedBy tree values nodes)
    (key : Key) :
    tree.probeNode key = fun node => table.spec.probe key (node.key, values node.value) := by
  funext node
  rw [OrderedTree.probeNode, listed.order_eq]
  rfl

/-- The group sizes of some nodes add up to the size of their part of the map. -/
theorem ensures_groupSizes
    (listed : table.ListedBy tree values nodes)
    {side : List (TreeNode Key Stored)}
    (inTree : side ⊆ nodes)
    (total : Nat) :
    Ensures .reliable (table.groupSizes total (side.map TreeNode.id)) fun answer =>
      answer =
        .ok (total + TableSpec.size (side.map fun node => (node.key, values node.value))) := by
  induction side generalizing total with
  | nil =>
      exact Ensures.pure rfl
  | cons node rest inductionHypothesis =>
      obtain ⟨member, restInTree⟩ := List.cons_subset.mp inTree
      refine Ensures.bind_tells (listed.ensures_groupSize node member) ?_
      rw [List.map_cons, TableSpec.size_cons, ← Nat.add_assoc]
      exact inductionHypothesis restInTree (total + (values node.value).length)

end ListedBy

namespace Sound

/-- The tuples above a key are those of the part of the map above it. -/
theorem countAbove_eq
    (sound : table.Sound)
    (key : Key) :
    Ensures .reliable (table.countAbove key) fun answer =>
      answer = .ok (TableSpec.size (Order.upper (table.spec.probe key) table.groups)) := by
  obtain ⟨Stored, tree, values, nodes, listed⟩ := sound.listed
  have lawful : Std.TransCmp tree.order := by
    rw [listed.order_eq]
    exact sound.lawfulKeys
  have inTree : Order.upper (tree.probeNode key) nodes ⊆ nodes :=
    (List.dropWhile_suffix _).subset
  have counted := listed.ensures_groupSizes inTree 0
  rw [Nat.zero_add] at counted
  rw [countAbove, listed.ask_eq, listed.represents.ascend_above, listed.groups_eq,
    Order.upper_map, ← listed.probeNode_eq]
  exact counted

/-- The tuples below a key are those of the part of the map below it. -/
theorem countBelow_eq
    (sound : table.Sound)
    (key : Key) :
    Ensures .reliable (table.countBelow key) fun answer =>
      answer = .ok (TableSpec.size (Order.lower (table.spec.probe key) table.groups)) := by
  obtain ⟨Stored, tree, values, nodes, listed⟩ := sound.listed
  have lawful : Std.TransCmp tree.order := by
    rw [listed.order_eq]
    exact sound.lawfulKeys
  have inTree : (Order.lower (tree.probeNode key) nodes).reverse ⊆ nodes := by
    intro node member
    exact (List.takeWhile_prefix _).subset (List.mem_reverse.mp member)
  have counted := listed.ensures_groupSizes inTree 0
  rw [Nat.zero_add, List.map_reverse, List.map_reverse, TableSpec.size_reverse] at counted
  rw [countBelow, listed.ask_eq, listed.represents.descend_below, listed.groups_eq,
    Order.lower_map, ← listed.probeNode_eq, List.map_reverse]
  exact counted

end Sound

end Table

end OrderedIndex

import OrderedIndex.Proofs.Tree.Linked.Faultless

namespace OrderedIndex

/-!
# Logarithmic heights

A balanced tree has so many nodes for its height that the heights of all trees
within the arena stay far below the sign of a byte.  So no operation computes a
height that a signed byte could not hold, not even between two rotations, and
neither does the check of stored links, whatever they are.
-/

/-! ## Checking stored links -/

namespace LinkTree

variable {arithmetic : HeightArithmetic} {balances : Array Int} {tree : LinkTree} {height : Nat}

/-- A tree that passes the check of its balances has as many nodes as its height requires. -/
theorem fib_le_of_checkBalance (checked : tree.checkBalance balances = .ok height) :
    Nat.fib (height + 2) ≤ tree.toList.length + 1 := by
  induction tree generalizing height with
  | empty =>
      cases checked
      simp
  | node left index right leftHypothesis rightHypothesis =>
      simp only [checkBalance, bind_eq_ok_iff] at checked
      obtain ⟨rightHeight, rightChecked, leftHeight, leftChecked, checked⟩ := checked
      split at checked
      next near =>
        cases checked
        have isNear : Shape.Near leftHeight rightHeight := by
          unfold Shape.Near
          omega
        have least :=
          Shape.fib_le_of_near isNear (leftHypothesis leftChecked) (rightHypothesis rightChecked)
        rw [toList, List.length_append, List.length_cons]
        omega
      next =>
        contradiction

/-- The check of balances computes no height that an exact arithmetic would not. -/
theorem checkBalanceBy_eq
    (precise : arithmetic.Exact)
    (small : tree.toList.length < UInt64.size) :
    tree.checkBalanceBy arithmetic balances = .ok (tree.checkBalance balances) := by
  induction tree with
  | empty =>
      rfl
  | node left index right leftHypothesis rightHypothesis =>
      rw [toList, List.length_append, List.length_cons] at small
      rw [checkBalanceBy, checkBalance, rightHypothesis (by omega), leftHypothesis (by omega)]
      cases rightChecked : right.checkBalance balances with
      | error cause =>
          rfl
      | ok rightHeight =>
          cases leftChecked : left.checkBalance balances with
          | error cause =>
              rfl
          | ok leftHeight =>
              have rightLow :=
                Shape.low_of_fib_le (fib_le_of_checkBalance rightChecked) (by omega)
              have leftLow :=
                Shape.low_of_fib_le (fib_le_of_checkBalance leftChecked) (by omega)
              simp only [ok_bind, precise.above_eq (Nat.lt_of_le_of_lt leftLow (by decide))
                (Nat.lt_of_le_of_lt rightLow (by decide))]
              split <;> rfl

end LinkTree

/-- The check of links computes no height that an exact arithmetic would not. -/
theorem Links.checkShapeBy_eq
    {arithmetic : HeightArithmetic}
    (precise : arithmetic.Exact)
    (links : Links)
    {records : List NodeRecord}
    (small : records.length < UInt64.size) :
    links.checkShapeBy arithmetic records = .ok (links.checkShape records) := by
  unfold checkShapeBy checkShape
  dsimp only
  cases misplaced? 0 links.toTree.toList with
  | some index =>
      rfl
  | none =>
      by_cases counts : links.toTree.toList.length = records.length
      · rw [if_neg (Classical.not_not.mpr counts), if_neg (Classical.not_not.mpr counts),
          LinkTree.checkBalanceBy_eq precise (counts ▸ small)]
        cases links.toTree.checkBalance _ <;> rfl
      · rw [if_pos counts, if_pos counts]
        rfl

/-! ## Subtrees in memory -/

namespace LinkedTree

variable
  {Key Value : Type}
  {order : Order Key}
  {tree : LinkedTree Key Value}
  {ordered : OrderedTree Key Value}
  {nodes : List (TreeNode Key Value)}
  {shape : Shape Key}
  {id : NodeId}
  {node : LinkedNode Key Value}

/-- The nodes that the links lead to from a node on make a shape. -/
structure Subtree (tree : LinkedTree Key Value) (id : NodeId) (shape : Shape Key) : Prop where
  root_eq : shape.root? = some id
  holds : tree.Holds shape
  distinct : shape.ids.Nodup

/-- Every node of a balanced shape is the topmost one of a balanced shape within it. -/
theorem Holds.exists_subtree
    (holds : tree.Holds shape)
    (distinct : shape.ids.Nodup)
    (balanced : shape.Balanced)
    (member : id ∈ shape.ids) :
    ∃ subtree : Shape Key,
      tree.Subtree id subtree ∧ subtree.Balanced ∧ subtree.size ≤ shape.size := by
  induction shape with
  | empty =>
      contradiction
  | node left root key height right leftHypothesis rightHypothesis =>
      obtain ⟨leftDistinct, rightDistinct, -⟩ := Shape.nodup_ids_node.mp distinct
      rcases Shape.mem_ids_node.mp member with inLeft | rfl | inRight
      · obtain ⟨subtree, isSubtree, subtreeBalanced, smaller⟩ :=
          leftHypothesis holds.2.1 leftDistinct balanced.1 inLeft
        exact ⟨subtree, isSubtree, subtreeBalanced, by rw [Shape.size]; omega⟩
      · exact ⟨_, ⟨rfl, holds, distinct⟩, balanced, Nat.le_refl _⟩
      · obtain ⟨subtree, isSubtree, subtreeBalanced, smaller⟩ :=
          rightHypothesis holds.2.2 rightDistinct balanced.2.1 inRight
        exact ⟨subtree, isSubtree, subtreeBalanced, by rw [Shape.size]; omega⟩

/-- The height that is stored at a node is that of the shape from there on. -/
theorem Subtree.height_eq
    (subtree : tree.Subtree id shape)
    (found : tree.node? id = some node) :
    shape.height = node.height := by
  have stored := heightOf_eq subtree.holds
  rw [subtree.root_eq, heightOf, node_eq_ok_iff.mpr found] at stored
  exact (Except.ok.inj stored).symm

/-- The heights of the children of a low node are compared as they are. -/
theorem Subtree.balance_eq
    (subtree : tree.Subtree id shape)
    (balanced : shape.Balanced)
    (low : shape.Low)
    (found : tree.node? id = some node) :
    ∃ left right,
      tree.heightOf node.left = .ok left ∧
        tree.heightOf node.right = .ok right ∧ tree.balance id = .ok ((left : Int) - right) := by
  obtain ⟨root_eq, holds, -⟩ := subtree
  cases shape with
  | empty =>
      contradiction
  | node left root key height right =>
      cases Option.some.inj root_eq
      obtain ⟨-, -, rfl, -⟩ := balanced
      have lows : 1 + max left.height right.height ≤ 125 := low
      have weighed := LinkedTree.balance_eq holds (by omega) (by omega)
      obtain ⟨here, holdsLeft, holdsRight⟩ := holds
      rw [branch?, found, Option.map_some, Option.some.injEq] at here
      refine ⟨left.height, right.height, ?_, ?_, weighed⟩
      · rw [here, heightOf_eq holdsLeft]
      · rw [here, heightOf_eq holdsRight]

/-- Every node of the layout of a tree has a balanced shape of some of the tree's nodes. -/
theorem exists_subtree_linked
    (formed : ordered.Formed nodes)
    (found : ordered.linked.node? id = some node) :
    ∃ subtree : Shape Key,
      ordered.linked.Subtree id subtree ∧
        subtree.Balanced ∧ subtree.height = node.height ∧ subtree.size ≤ ordered.size := by
  have stores := stores_linked formed
  have member : id ∈ ordered.shape.ids := by
    rw [mem_ids_iff formed, stores.entry?_eq, found]
    rfl
  obtain ⟨subtree, isSubtree, balanced, smaller⟩ :=
    stores.holds.exists_subtree (formed.ids_eq ▸ formed.distinct) formed.balanced member
  exact ⟨subtree, isSubtree, balanced, isSubtree.height_eq found, formed.size_shape ▸ smaller⟩

/-! ## Heights -/

/-- Every node has as many nodes below it, itself included, as its height requires. -/
def Logarithmic (tree : LinkedTree Key Value) : Prop :=
  ∀ {id node},
    tree.node? id = some node →
    ∃ shape : Shape Key,
      tree.Subtree id shape ∧
        shape.height = node.height ∧ Nat.fib (node.height + 2) - 1 ≤ shape.size

/-- No height is above the greatest signed byte, at rest or within a change. -/
structure SignedHeights (tree : LinkedTree Key Value) : Prop where
  height_le : ∀ {id node}, tree.node? id = some node → node.height ≤ 127
  /-- The difference of two signed bytes is that of the heights. -/
  balance_eq :
    ∀ {id node},
      tree.node? id = some node →
      ∃ left right,
        tree.heightOf node.left = .ok left ∧
          tree.heightOf node.right = .ok right ∧ tree.balance id = .ok ((left : Int) - right)
  /-- Changes run to their end where no height may be above the greatest signed byte. -/
  change_eq :
    ∀ change,
      ∃ answer result,
        tree.changeBy .limited change = .ok (answer, result) ∧
          tree.changeBy .bytes change = .ok (answer, result) ∧
            tree.change change = .ok (answer, result)

theorem logarithmic_linked (formed : ordered.Formed nodes) : ordered.linked.Logarithmic := by
  intro id node found
  obtain ⟨subtree, isSubtree, balanced, height_eq, -⟩ := exists_subtree_linked formed found
  have least := Shape.fib_le_size balanced
  rw [height_eq] at least
  exact ⟨subtree, isSubtree, height_eq, Nat.sub_le_of_le_add least⟩

theorem signedHeights_linked
    (formed : ordered.Formed nodes)
    (within : ordered.slots.size ≤ UInt32.size)
    (small : ordered.size < UInt32.size) :
    ordered.linked.SignedHeights where
  height_le found := by
    obtain ⟨subtree, -, balanced, height_eq, smaller⟩ := exists_subtree_linked formed found
    have low := balanced.low (lt_of_le_of_lt smaller (small.trans (by decide)))
    exact height_eq ▸ low.trans (by decide)
  balance_eq := by
    intro id node found
    obtain ⟨subtree, isSubtree, balanced, -, smaller⟩ := exists_subtree_linked formed found
    have low := balanced.low (lt_of_le_of_lt smaller (small.trans (by decide)))
    exact isSubtree.balance_eq balanced low found
  change_eq := by
    intro change
    have fits := (size_apply_le ordered change).trans small
    refine ⟨(change.apply ordered).1, (change.apply ordered).2.linked, ?_, ?_, ?_⟩
    · rw [changeBy_linked formed HeightArithmetic.exact_limited within, if_pos fits]
    · rw [changeBy_linked formed HeightArithmetic.exact_bytes within, if_pos fits]
    · rw [change_linked formed within, if_pos fits]

/--
Heights grow with the logarithm of the number of nodes, so what bytes compute of
the heights of trees and of stored links is exact.
-/
theorem heightsAreSigned :
    (∀ {Key Value : Type} {order : Order Key} {tree : LinkedTree Key Value},
      Reachable order tree →
      tree.Logarithmic ∧ (tree.size < UInt32.size → tree.SignedHeights)) ∧
      ∀ {links : Links} {records : List NodeRecord},
        records.length < UInt32.size →
        links.checkShapeBy .limited records = .ok (links.checkShape records) ∧
          links.checkShapeBy .bytes records = .ok (links.checkShape records) := by
  constructor
  · intro Key Value order tree reachable
    obtain ⟨peak, ordered, bounded, ordinary, rfl⟩ := reachable.exists_ordered
    obtain ⟨nodes, formed⟩ := ordinary.formed
    exact ⟨logarithmic_linked formed,
      signedHeights_linked formed (ordinary.slots_size_eq_peak.trans_le bounded)⟩
  · intro links records small
    have wordSized : records.length < UInt64.size := small.trans (by decide)
    exact ⟨links.checkShapeBy_eq HeightArithmetic.exact_limited wordSized,
      links.checkShapeBy_eq HeightArithmetic.exact_bytes wordSized⟩

/-- Four keys, of which the third turned the first two, and the links of one record. -/
theorem heightsAreSigned_turned :
    let changes : List (TreeChange Nat Char) :=
      [.insert 1 'a', .insert 3 'b', .insert 2 'c', .insert 4 'd']
    let tree := (TreeChange.run (.empty .natural) changes).2.linked
    Reachable .natural tree ∧
      tree.size = 4 ∧
        tree.Logarithmic ∧
          tree.SignedHeights ∧
            tree.balance 2 = .ok (-1) ∧
              Links.checkShapeBy .limited ⟨0, #[(none, none)]⟩ [⟨noNode, noNode, 0, [], []⟩] =
                .ok (.ok (.node .empty 0 .empty)) := by
  intro changes tree
  have bounded : TreeChange.runPeak (.empty .natural) 0 changes ≤ UInt32.size := by
    decide +kernel
  have reachable : Reachable .natural tree :=
    reachable_linked (OrderedTree.Reachable.new.run changes) bounded
  have size_eq : tree.size = 4 := by
    decide +kernel
  have small : tree.size < UInt32.size := by
    rw [size_eq]
    decide
  obtain ⟨logarithmic, signed⟩ := heightsAreSigned.1 reachable
  have checked :
      Links.checkShapeBy .limited ⟨0, #[(none, none)]⟩ [⟨noNode, noNode, 0, [], []⟩] =
        .ok (Links.checkShape ⟨0, #[(none, none)]⟩ [⟨noNode, noNode, 0, [], []⟩]) :=
    (heightsAreSigned.2 (by decide)).1
  exact ⟨reachable, size_eq, logarithmic, signed small, by decide +kernel,
    checked.trans (by decide +kernel)⟩

end LinkedTree

end OrderedIndex

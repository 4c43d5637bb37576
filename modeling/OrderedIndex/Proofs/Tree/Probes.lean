import OrderedIndex.Proofs.Tree.Lifetime
import OrderedIndex.Proofs.Tree.Neighbours

namespace OrderedIndex

/-!
# Exact probes

The five searches of a tree are told by the walk over its nodes: each finds the
last or the first node whose key is on the side of the sought one that it asks
for, and nothing if there is none.
-/

namespace OrderedTree

open TreeNode

variable {Key Value : Type} {tree : OrderedTree Key Value}

/-- The first node of the walk over a tree whose key meets a condition. -/
def firstWhere (tree : OrderedTree Key Value) (condition : Key → Bool) : Option NodeId :=
  (tree.shape.toList.find? fun node => condition node.2).map Prod.fst

/-- The last node of the walk over a tree whose key meets a condition. -/
def lastWhere (tree : OrderedTree Key Value) (condition : Key → Bool) : Option NodeId :=
  (tree.shape.toList.reverse.find? fun node => condition node.2).map Prod.fst

/--
What the searches for a key find among the nodes of a tree, which ascend
strictly, and how their answers are neighbours.
-/
structure ProbesExactly (tree : OrderedTree Key Value) (key : Key) : Prop where
  ascending : Order.Ascending tree.order (tree.shape.toList.map Prod.snd)
  keyed : ∀ node ∈ tree.shape.toList, tree.keyAt node.1 = .ok node.2
  chained : tree.nodes = tree.shape.ids
  findBelow?_eq : tree.findBelow? key = tree.lastWhere fun stored => tree.order stored key == .lt
  findAtMost?_eq : tree.findAtMost? key = tree.lastWhere fun stored => (tree.order stored key).isLE
  find?_eq : tree.find? key = tree.firstWhere fun stored => tree.order stored key == .eq
  findAtLeast?_eq :
    tree.findAtLeast? key = tree.firstWhere fun stored => (tree.order stored key).isGE
  findAbove?_eq : tree.findAbove? key = tree.firstWhere fun stored => tree.order stored key == .gt
  previousAt_eq :
    ∀ id, tree.findAtLeast? key = some id → tree.previousAt id = .ok (tree.findBelow? key)
  nextAt_eq :
    ∀ id, tree.findAtMost? key = some id → tree.nextAt id = .ok (tree.findAbove? key)

namespace Represents

variable {nodes : List (TreeNode Key Value)}

theorem firstWhere_eq
    (represents : tree.Represents nodes)
    (condition : Key → Bool) :
    tree.firstWhere condition =
      (nodes.find? fun node => condition node.key).map TreeNode.id := by
  rw [firstWhere, represents.sequence, List.find?_map, Option.map_map]
  rfl

theorem lastWhere_eq
    (represents : tree.Represents nodes)
    (condition : Key → Bool) :
    tree.lastWhere condition =
      (nodes.reverse.find? fun node => condition node.key).map TreeNode.id := by
  rw [lastWhere, represents.sequence, ← List.map_reverse, List.find?_map, Option.map_map]
  rfl

theorem find?_eq_firstWhere
    [Std.TransCmp tree.order]
    (represents : tree.Represents nodes)
    (key : Key) :
    tree.find? key = tree.firstWhere fun stored => tree.order key stored == .eq := by
  rw [represents.firstWhere_eq]
  rcases represents.located key with
    ⟨below, above, node, rfl, equal, allBelow, _, located, _⟩ |
      ⟨below, above, rfl, allBelow, allAbove, located, _⟩
  · have found :
        Order.lookup? (tree.probeNode key) (below ++ node :: above) = some node :=
      Order.lookup?_present allBelow equal
    rw [find?, located]
    exact (congrArg (Option.map TreeNode.id) found).symm
  · have missing : Order.lookup? (tree.probeNode key) (below ++ above) = none :=
      Order.lookup?_absent allBelow allAbove
    rw [find?, located]
    exact (congrArg (Option.map TreeNode.id) missing).symm

/-- The node in front of the first one at or above a key is the last one below it. -/
theorem previousAt_findAtLeast?
    [Std.TransCmp tree.order]
    (represents : tree.Represents nodes)
    {key : Key}
    {id : NodeId}
    (found : tree.findAtLeast? key = some id) :
    tree.previousAt id = .ok (tree.findBelow? key) := by
  rw [represents.findAtLeast?_eq] at found
  rw [represents.findBelow?_eq]
  have split :
      Order.lower (tree.probeNode key) nodes ++ Order.notLower (tree.probeNode key) nodes = nodes :=
    Order.lower_append_notLower nodes
  cases notLower : Order.notLower (tree.probeNode key) nodes with
  | nil =>
      rw [notLower] at found
      contradiction
  | cons node above =>
      rw [notLower, firstOr_cons, Option.some.injEq] at found
      rw [notLower] at split
      rw [previousAt, entryAt, ← found, represents.entry?_eq split.symm]
      rfl

/-- The node behind the last one at or below a key is the first one above it. -/
theorem nextAt_findAtMost?
    [Std.TransCmp tree.order]
    (represents : tree.Represents nodes)
    {key : Key}
    {id : NodeId}
    (found : tree.findAtMost? key = some id) :
    tree.nextAt id = .ok (tree.findAbove? key) := by
  rw [represents.findAtMost?_eq] at found
  rw [represents.findAbove?_eq]
  have split :
      Order.notUpper (tree.probeNode key) nodes ++ Order.upper (tree.probeNode key) nodes = nodes :=
    Order.notUpper_append_upper nodes
  rcases List.eq_nil_or_concat (Order.notUpper (tree.probeNode key) nodes) with
    notUpper | ⟨below, node, notUpper⟩
  · rw [notUpper] at found
    contradiction
  · rw [List.concat_eq_append] at notUpper
    rw [notUpper, lastOr_append, lastOr_cons, lastOr_nil, Option.some.injEq] at found
    rw [notUpper, List.append_assoc, List.singleton_append] at split
    rw [nextAt, entryAt, ← found, represents.entry?_eq split.symm]
    rfl

/-- Every probe of a tree is told by the list of nodes that the tree represents. -/
theorem probes
    [Std.TransCmp tree.order]
    (represents : tree.Represents nodes)
    (key : Key) :
    tree.ProbesExactly key := by
  have separates : Order.Separates (tree.probeNode key) nodes :=
    represents.ascending.separates_map key
  refine {
    ascending := ?_
    keyed := ?_
    chained := represents.nodes_eq.trans represents.ids_eq.symm
    findBelow?_eq := ?_
    findAtMost?_eq := ?_
    find?_eq := ?_
    findAtLeast?_eq := ?_
    findAbove?_eq := ?_
    previousAt_eq := fun _ found => represents.previousAt_findAtLeast? found
    nextAt_eq := fun _ found => represents.nextAt_findAtMost? found }
  · rw [represents.sequence, List.map_map]
    exact represents.ascending
  · rw [represents.sequence]
    refine List.forall_mem_map.mpr ?_
    intro node member
    obtain ⟨before, after, found⟩ := represents.linked.entry_of_mem member
    simp [keyAt, entryAt, found, Except.map]
  · rw [represents.findBelow?_eq, lastOr_none, separates.lower_eq_filter, List.getLast?_filter,
      represents.lastWhere_eq]
    simp only [Order.turned_lt tree.order _ key]
    rfl
  · rw [represents.findAtMost?_eq, lastOr_none, separates.notUpper_eq_filter, List.getLast?_filter,
      represents.lastWhere_eq]
    simp only [Order.turned_isLE tree.order _ key]
    rfl
  · simp only [Order.turned_eq tree.order _ key]
    exact represents.find?_eq_firstWhere key
  · rw [represents.findAtLeast?_eq, firstOr_none, separates.notLower_eq_filter, List.head?_filter,
      represents.firstWhere_eq]
    simp only [Order.turned_isGE tree.order _ key]
    rfl
  · rw [represents.findAbove?_eq, firstOr_none, separates.upper_eq_filter, List.head?_filter,
      represents.firstWhere_eq]
    simp only [Order.turned_gt tree.order _ key]
    rfl

end Represents

/-- Every probe of a tree is exact, all its life. -/
theorem Reachable.probesExactly
    {order : Order Key}
    [Std.TransCmp order]
    {peak : Nat}
    (reachable : Reachable order peak tree)
    (key : Key) :
    tree.ProbesExactly key := by
  obtain ⟨nodes, represents⟩ := reachable.represents
  have lawful : Std.TransCmp tree.order := by
    rwa [reachable.order_eq]
  exact represents.probes key

/-- Three keys in the order of halves, where the sought one is equal to the middle one. -/
theorem probesExactly_halves :
    let order : Order Nat := Order.byRank fun number => number / 2
    let changes : List (TreeChange Nat Char) := [.insert 8 'a', .insert 4 'b', .insert 12 'c']
    let tree := (TreeChange.run (empty order) changes).2
    tree.ProbesExactly 9 ∧
      tree.findBelow? 9 = some 1 ∧ tree.find? 9 = some 0 ∧ tree.findAbove? 9 = some 2 := by
  intro order changes tree
  exact ⟨Reachable.probesExactly (Reachable.new.run changes) 9, by decide, by decide, by decide⟩

end OrderedTree

end OrderedIndex

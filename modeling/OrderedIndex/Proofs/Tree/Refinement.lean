import OrderedIndex.Proofs.Tree.Change
import OrderedIndex.Proofs.Tree.Iteration

namespace OrderedIndex

/-!
# Trees as ascending association lists

Whatever sequence of changes made a tree, the answers along the way and
everything that can be asked of the tree afterwards are those of the reference
list.  Keys that compare equal are one key, under the spelling that came first.
-/

variable {Key Value : Type}

/-- All questions about a tree are answered by an ascending association list. -/
structure OrderedTree.Presents
    (tree : OrderedTree Key Value)
    (pairs : List (Key × Value)) :
    Prop where
  ascending : Order.Ascending tree.order (pairs.map Prod.fst)
  toList_eq : tree.toList = pairs
  keys_eq : tree.keys = pairs.map Prod.fst
  values_eq : tree.values = pairs.map Prod.snd
  size_eq : tree.size = pairs.length
  find?_eq :
    ∀ key,
      ((tree.find? key).bind fun id =>
          (tree.entry? id).map fun entry => (entry.key, entry.value)) =
        Order.lookup? (probePair tree.order key) pairs
  contains_eq :
    ∀ key, tree.contains key = (Order.lookup? (probePair tree.order key) pairs).isSome
  get?_eq :
    ∀ key, tree.get? key = (Order.lookup? (probePair tree.order key) pairs).map Prod.snd
  /-- Iteration yields the pairs in order and then nothing. -/
  forward :
    ∀ count,
      (tree.iterator.run (List.replicate count .front)).1 =
        (List.range count).map fun place => pairs[place]?
  /-- Iteration from the back yields them in the opposite order. -/
  backward :
    ∀ count,
      (tree.iterator.run (List.replicate count .back)).1 =
        (List.range count).map fun place => pairs.reverse[place]?

namespace OrderedTree.Represents

variable {tree : OrderedTree Key Value} {nodes : List (TreeNode Key Value)}

theorem run_iterator
    (represents : tree.Represents nodes)
    (ends : List IteratorEnd) :
    (tree.iterator.run ends).1 =
      (IteratorEnd.takeAll (nodes.map TreeNode.pair) ends).1 := by
  obtain ⟨_, _, _, _, answers⟩ := (TreeIterator.covers_iterator represents.toFormed).run ends
  exact congrArg Prod.fst answers

/-- A tree answers as the list of its pairs does. -/
theorem presents
    [Std.TransCmp tree.order]
    (represents : tree.Represents nodes) :
    tree.Presents (nodes.map TreeNode.pair) where
  ascending := by
    rw [List.map_map]
    exact represents.ascending
  toList_eq := represents.toList_eq
  keys_eq := by
    rw [List.map_map]
    exact represents.keys_eq
  values_eq := by
    rw [List.map_map]
    exact represents.values_eq
  size_eq := by
    rw [List.length_map]
    exact represents.size_eq
  find?_eq := represents.find?_eq
  contains_eq := represents.contains_eq
  get?_eq := represents.get?_eq
  forward := by
    intro count
    rw [represents.run_iterator, IteratorEnd.takeAll_front]
  backward := by
    intro count
    rw [represents.run_iterator, IteratorEnd.takeAll_back, IteratorEnd.takeAll_front]

end OrderedTree.Represents

namespace TreeChange

/-- A run of changes of an empty tree answers and ends as it does on the empty list. -/
theorem run_presents
    (order : Order Key)
    [Std.TransCmp order]
    (changes : List (TreeChange Key Value)) :
    (run (.empty order) changes).1 = (runOnList order [] changes).1 ∧
      (run (.empty order) changes).2.order = order ∧
        (run (.empty order) changes).2.Presents (runOnList order [] changes).2 := by
  have startOrder : (OrderedTree.empty order : OrderedTree Key Value).order = order := rfl
  obtain ⟨nodes, order_eq, represents, answers⟩ :=
    run_represents startOrder (OrderedTree.represents_empty order) changes
  have lawful : Std.TransCmp (run (.empty order) changes).2.order := by
    rw [order_eq]
    infer_instance
  refine ⟨congrArg Prod.fst answers, order_eq, ?_⟩
  have pairs : nodes.map TreeNode.pair = (runOnList order [] changes).2 :=
    congrArg Prod.snd answers
  rw [← pairs]
  exact represents.presents

/-- Halving makes `4` and `5` one key, which keeps the spelling `5` that came first. -/
theorem run_presents_halves :
    (run (.empty (Order.byRank (· / 2)))
        [.insert 5 'a', .insert 9 'b', .insert 4 'c', .set 4 'd', .remove 8]).2.Presents
      [(5, 'd')] :=
  (run_presents (Order.byRank fun number : Nat => number / 2)
    [.insert 5 'a', .insert 9 'b', .insert 4 'c', .set 4 'd', .remove 8]).2.2

end TreeChange

end OrderedIndex

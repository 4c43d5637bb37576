import OrderedIndex.Proofs.SortedList
import OrderedIndex.Proofs.Tree.Walk

namespace OrderedIndex

/-!
# Changes of a tree

Every change by key does to a tree what the reference operation does to the
list of its pairs, and answers what that list answers.  So a run of changes can
be followed on the list alone.
-/

/-- A change of a tree by key. -/
inductive TreeChange (Key Value : Type) where
  | insert (key : Key) (value : Value)
  | remove (key : Key)
  | clear
  /-- Write to the value of a key that is present. -/
  | set (key : Key) (value : Value)
  deriving Repr, DecidableEq

/-- What a change answers. -/
inductive TreeAnswer (Value : Type) where
  | told (answer : Bool)
  | given (value : Option Value)
  | done
  deriving Repr, DecidableEq

namespace TreeChange

variable {Key Value : Type}

/-- Make a change. -/
def apply (tree : OrderedTree Key Value) :
    TreeChange Key Value → TreeAnswer Value × OrderedTree Key Value
  | .insert key value => (.told (tree.insert key value).1, (tree.insert key value).2)
  | .remove key => (.given (tree.remove key).1, (tree.remove key).2)
  | .clear => (.done, tree.clear)
  | .set key value => (.told (tree.set key value).1, (tree.set key value).2)

/-- Make changes one after the other and collect their answers. -/
def run (tree : OrderedTree Key Value) :
    List (TreeChange Key Value) → List (TreeAnswer Value) × OrderedTree Key Value
  | [] => ([], tree)
  | change :: rest =>
      let (answer, changed) := change.apply tree
      let (answers, final) := run changed rest
      (answer :: answers, final)

end TreeChange

/-! ## The reference -/

/-- The comparison of a key with those of pairs. -/
def probePair {Key Value : Type} (order : Order Key) (key : Key) (pair : Key × Value) :
    Ordering :=
  order key pair.1

namespace TreeChange

variable {Key Value : Type}

/-- What a change makes of an ascending association list, and what the list answers. -/
def applyToList (order : Order Key) (pairs : List (Key × Value)) :
    TreeChange Key Value → TreeAnswer Value × List (Key × Value)
  | .insert key value =>
      (.told (Order.lookup? (probePair order key) pairs).isNone,
        Order.place (probePair order key) (key, value) pairs)
  | .remove key =>
      (.given ((Order.lookup? (probePair order key) pairs).map Prod.snd),
        Order.discard (probePair order key) pairs)
  | .clear => (.done, [])
  | .set key value =>
      (.told (Order.lookup? (probePair order key) pairs).isSome,
        Order.adjust (probePair order key) (fun pair => (pair.1, value)) pairs)

/-- Make changes of an ascending association list one after the other. -/
def runOnList (order : Order Key) (pairs : List (Key × Value)) :
    List (TreeChange Key Value) → List (TreeAnswer Value) × List (Key × Value)
  | [] => ([], pairs)
  | change :: rest =>
      let (answer, changed) := change.applyToList order pairs
      let (answers, final) := runOnList order changed rest
      (answer :: answers, final)

end TreeChange

/-! ## Changes of the represented list -/

namespace OrderedTree

variable {Key Value : Type} {tree : OrderedTree Key Value}

namespace Represents

variable {nodes below above : List (TreeNode Key Value)}

theorem allBelow_pairs
    {key : Key}
    (allBelow : Order.AllBelow (tree.probeNode key) below) :
    Order.AllBelow (probePair tree.order key) (below.map TreeNode.pair) :=
  List.forall_mem_map.mpr allBelow

theorem allAbove_pairs
    {key : Key}
    (allAbove : Order.AllAbove (tree.probeNode key) above) :
    Order.AllAbove (probePair tree.order key) (above.map TreeNode.pair) :=
  List.forall_mem_map.mpr allAbove

theorem equal_pair
    {key : Key}
    {node : TreeNode Key Value}
    (equal : tree.order key node.key = .eq) :
    probePair tree.order key node.pair = .eq :=
  equal

/-- A search finds the node of the pair that the list finds. -/
theorem find?_eq
    [Std.TransCmp tree.order]
    (represents : tree.Represents nodes)
    (key : Key) :
    ((tree.find? key).bind fun id =>
        (tree.entry? id).map fun entry => (entry.key, entry.value)) =
      Order.lookup? (probePair tree.order key) (nodes.map TreeNode.pair) := by
  rcases represents.located key with
    ⟨below, above, node, rfl, equal, allBelow, _, located, _⟩ |
      ⟨below, above, rfl, allBelow, allAbove, located, _⟩
  · have found := represents.entry?_eq rfl
    rw [List.map_append, List.map_cons,
      Order.lookup?_present (allBelow_pairs allBelow) (equal_pair equal)]
    simp [find?, located, found, TreeNode.pair]
  · rw [List.map_append,
      Order.lookup?_absent (allBelow_pairs allBelow) (allAbove_pairs allAbove)]
    simp [find?, located]

theorem get?_eq
    [Std.TransCmp tree.order]
    (represents : tree.Represents nodes)
    (key : Key) :
    tree.get? key =
      (Order.lookup? (probePair tree.order key) (nodes.map TreeNode.pair)).map Prod.snd := by
  rw [← represents.find?_eq key]
  cases found : tree.find? key with
  | none =>
      simp [get?, found]
  | some id =>
      simp [get?, found, value?, Function.comp_def]

theorem contains_eq
    [Std.TransCmp tree.order]
    (represents : tree.Represents nodes)
    (key : Key) :
    tree.contains key =
      (Order.lookup? (probePair tree.order key) (nodes.map TreeNode.pair)).isSome := by
  rcases represents.located key with
    ⟨below, above, node, rfl, equal, allBelow, _, located, _⟩ |
      ⟨below, above, rfl, allBelow, allAbove, located, _⟩
  · rw [List.map_append, List.map_cons,
      Order.lookup?_present (allBelow_pairs allBelow) (equal_pair equal)]
    simp [contains, find?, located]
  · rw [List.map_append,
      Order.lookup?_absent (allBelow_pairs allBelow) (allAbove_pairs allAbove)]
    simp [contains, find?, located]

/-- An insertion places the pair, and answers whether its key was absent. -/
theorem insert
    [Std.TransCmp tree.order]
    (represents : tree.Represents nodes)
    (key : Key)
    (value : Value) :
    ∃ changed,
      (tree.insert key value).2.Represents changed ∧
        changed.map TreeNode.pair =
          Order.place (probePair tree.order key) (key, value) (nodes.map TreeNode.pair) ∧
        (tree.insert key value).1 =
          (Order.lookup? (probePair tree.order key) (nodes.map TreeNode.pair)).isNone := by
  rcases represents.located key with
    ⟨below, above, node, rfl, equal, allBelow, _, located, _⟩ |
      ⟨below, above, rfl, allBelow, allAbove, located, inserted⟩
  · have unchanged : tree.insert key value = (false, tree) := by
      simp [OrderedTree.insert, located]
    refine ⟨below ++ node :: above, ?_, ?_, ?_⟩
    · rw [unchanged]
      exact represents
    · rw [List.map_append, List.map_cons]
      exact (Order.place_present (allBelow_pairs allBelow) (equal_pair equal) (key, value)).symm
    · rw [unchanged, List.map_append, List.map_cons,
        Order.lookup?_present (allBelow_pairs allBelow) (equal_pair equal)]
      rfl
  · obtain ⟨id, _, answer, result⟩ :=
      insert_absent value represents allBelow allAbove located inserted
    refine ⟨below ++ ⟨id, key, value⟩ :: above, result, ?_, ?_⟩
    · rw [List.map_append, List.map_append, List.map_cons]
      exact (Order.place_absent (allBelow_pairs allBelow) (allAbove_pairs allAbove) _).symm
    · rw [answer, List.map_append,
        Order.lookup?_absent (allBelow_pairs allBelow) (allAbove_pairs allAbove)]
      rfl

/-- A removal discards the pair, and answers the value that it had. -/
theorem remove
    [Std.TransCmp tree.order]
    (represents : tree.Represents nodes)
    (key : Key) :
    ∃ changed,
      (tree.remove key).2.Represents changed ∧
        changed.map TreeNode.pair =
          Order.discard (probePair tree.order key) (nodes.map TreeNode.pair) ∧
        (tree.remove key).1 =
          (Order.lookup? (probePair tree.order key) (nodes.map TreeNode.pair)).map
            Prod.snd := by
  rcases represents.located key with
    ⟨below, above, node, rfl, equal, allBelow, allAbove, located, erased⟩ |
      ⟨below, above, rfl, allBelow, allAbove, located, _⟩
  · obtain ⟨answer, result⟩ := remove_present represents located erased
    refine ⟨below ++ above, result, ?_, ?_⟩
    · rw [List.map_append, List.map_append, List.map_cons]
      exact (Order.discard_present (allBelow_pairs allBelow) (equal_pair equal)
        (allAbove_pairs allAbove)).symm
    · rw [answer, List.map_append, List.map_cons,
        Order.lookup?_present (allBelow_pairs allBelow) (equal_pair equal)]
      rfl
  · have unchanged : tree.remove key = (none, tree) := by
      simp [OrderedTree.remove, find?, located]
    refine ⟨below ++ above, ?_, ?_, ?_⟩
    · rw [unchanged]
      exact represents
    · rw [List.map_append]
      exact (Order.discard_absent (allBelow_pairs allBelow) (allAbove_pairs allAbove)).symm
    · rw [unchanged, List.map_append,
        Order.lookup?_absent (allBelow_pairs allBelow) (allAbove_pairs allAbove)]
      rfl

/-- A write to a key adjusts its pair, and answers whether the key is present. -/
theorem set
    [Std.TransCmp tree.order]
    (represents : tree.Represents nodes)
    (key : Key)
    (value : Value) :
    ∃ changed,
      (tree.set key value).2.Represents changed ∧
        changed.map TreeNode.pair =
          Order.adjust (probePair tree.order key) (fun pair => (pair.1, value))
            (nodes.map TreeNode.pair) ∧
        (tree.set key value).1 =
          (Order.lookup? (probePair tree.order key) (nodes.map TreeNode.pair)).isSome := by
  rcases represents.located key with
    ⟨below, above, node, rfl, equal, allBelow, allAbove, located, _⟩ |
      ⟨below, above, rfl, allBelow, allAbove, located, _⟩
  · have result : tree.set key value = (true, tree.setValue node.id value) := by
      simp [OrderedTree.set, find?, located]
    rw [result]
    refine ⟨below ++ { node with value := value } :: above, represents.setValue value, ?_, ?_⟩
    · rw [List.map_append, List.map_append, List.map_cons, List.map_cons,
        Order.adjust_present (allBelow_pairs allBelow) (equal_pair equal) (allAbove_pairs allAbove)]
      rfl
    · rw [List.map_append, List.map_cons,
        Order.lookup?_present (allBelow_pairs allBelow) (equal_pair equal)]
      rfl
  · have unchanged : tree.set key value = (false, tree) := by
      simp [OrderedTree.set, find?, located]
    rw [unchanged]
    refine ⟨below ++ above, represents, ?_, ?_⟩
    · rw [List.map_append,
        Order.adjust_absent (allBelow_pairs allBelow) (allAbove_pairs allAbove)]
    · rw [List.map_append,
        Order.lookup?_absent (allBelow_pairs allBelow) (allAbove_pairs allAbove)]
      rfl

end Represents

end OrderedTree

/-! ## Runs of changes -/

namespace TreeChange

variable {Key Value : Type} {tree : OrderedTree Key Value} {nodes : List (TreeNode Key Value)}

@[simp] theorem order_apply (change : TreeChange Key Value) :
    (change.apply tree).2.order = tree.order := by
  cases change with
  | insert key value =>
      exact tree.order_insert key value
  | remove key =>
      exact tree.order_remove key
  | clear =>
      rfl
  | set key value =>
      exact tree.order_set key value

/-- A change of a tree is the change of the list that it represents. -/
theorem apply_represents
    [Std.TransCmp tree.order]
    (represents : tree.Represents nodes)
    (change : TreeChange Key Value) :
    ∃ changed,
      (change.apply tree).2.Represents changed ∧
        ((change.apply tree).1, changed.map TreeNode.pair) =
          change.applyToList tree.order (nodes.map TreeNode.pair) := by
  cases change with
  | insert key value =>
      obtain ⟨changed, result, pairs, answer⟩ := represents.insert key value
      exact ⟨changed, result, Prod.ext (congrArg TreeAnswer.told answer) pairs⟩
  | remove key =>
      obtain ⟨changed, result, pairs, answer⟩ := represents.remove key
      exact ⟨changed, result, Prod.ext (congrArg TreeAnswer.given answer) pairs⟩
  | clear =>
      exact ⟨[], OrderedTree.represents_empty tree.order, rfl⟩
  | set key value =>
      obtain ⟨changed, result, pairs, answer⟩ := represents.set key value
      exact ⟨changed, result, Prod.ext (congrArg TreeAnswer.told answer) pairs⟩

/-- A run of changes of a tree is the run on the list that it represents. -/
theorem run_represents
    {order : Order Key}
    [Std.TransCmp order]
    (order_eq : tree.order = order)
    (represents : tree.Represents nodes)
    (changes : List (TreeChange Key Value)) :
    ∃ changed,
      (run tree changes).2.order = order ∧
        (run tree changes).2.Represents changed ∧
          ((run tree changes).1, changed.map TreeNode.pair) =
            runOnList order (nodes.map TreeNode.pair) changes := by
  induction changes generalizing tree nodes with
  | nil =>
      exact ⟨nodes, order_eq, represents, rfl⟩
  | cons change rest inductionHypothesis =>
      subst order_eq
      obtain ⟨changed, changedRepresents, answer⟩ := apply_represents represents change
      obtain ⟨final, finalOrder, finalRepresents, answers⟩ :=
        inductionHypothesis (order_apply change) changedRepresents
      refine ⟨final, finalOrder, finalRepresents, ?_⟩
      rw [runOnList, ← answer]
      dsimp only
      rw [← answers]
      rfl

end TreeChange

end OrderedIndex

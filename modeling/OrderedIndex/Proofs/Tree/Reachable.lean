import OrderedIndex.Proofs.Tree.Change
import OrderedIndex.Proofs.Tree.Decoding
import OrderedIndex.Proofs.Tree.Validation
import OrderedIndex.Tree.Handle

namespace OrderedIndex

/-!
# Reachable trees

What can happen to a tree: changes by key, writes through a handle, and being
saved and loaded again.  Each keeps the tree representing some list of nodes, so
every tree that they reach is valid.
-/

/-- A step in the life of a tree. -/
inductive TreeStep (Key Value : Type) where
  | byKey (change : TreeChange Key Value)
  /-- Write to the value behind a handle. -/
  | setAt (id : NodeId) (value : Value)
  /-- Encode the tree and decode the bytes, with whatever codecs. -/
  | reload (keys : Codec Key) (values : Codec Value)

namespace TreeStep

variable {Key Value : Type} {tree : OrderedTree Key Value} {nodes : List (TreeNode Key Value)}

/-- The tree that decoding makes of the bytes of a tree. -/
def reloaded? (tree : OrderedTree Key Value) (keys : Codec Key) (values : Codec Value) :
    Option (OrderedTree Key Value) :=
  let format : TreeFormat Key Value := ⟨tree.order, keys, values⟩
  (format.encode tree).toOption.bind fun bytes => (format.decode bytes).toOption

/-- Take a step; a step that fails leaves the tree as it was. -/
def apply (tree : OrderedTree Key Value) : TreeStep Key Value → OrderedTree Key Value
  | .byKey change => (change.apply tree).2
  | .setAt id value => (tree.setValueAt id value).toOption.getD tree
  | .reload keys values => (reloaded? tree keys values).getD tree

/-- Take steps one after the other. -/
def run (tree : OrderedTree Key Value) (steps : List (TreeStep Key Value)) :
    OrderedTree Key Value :=
  steps.foldl apply tree

/-- A write through a handle keeps the order and a list of nodes. -/
theorem setAt_represents
    (represents : tree.Represents nodes)
    (id : NodeId)
    (value : Value) :
    (apply tree (.setAt id value)).order = tree.order ∧
      ∃ changed, (apply tree (.setAt id value)).Represents changed := by
  cases found : tree.entry? id with
  | none =>
      have unchanged : apply tree (.setAt id value) = tree := by
        simp [apply, OrderedTree.setValueAt, OrderedTree.entryAt, found, Except.map,
          Except.toOption]
      rw [unchanged]
      exact ⟨rfl, nodes, represents⟩
  | some entry =>
      have result : apply tree (.setAt id value) = tree.setValue id value := by
        simp [apply, OrderedTree.setValueAt, OrderedTree.entryAt, found, Except.map,
          Except.toOption]
      have live : id ∈ nodes.map TreeNode.id := by
        refine represents.entry?_isSome_iff.mp ?_
        rw [found]
        rfl
      obtain ⟨node, member, rfl⟩ := List.mem_map.mp live
      obtain ⟨below, above, rfl⟩ := List.append_of_mem member
      rw [result]
      exact ⟨rfl, _, represents.setValue value⟩

/-- Whatever comes back from encoding and decoding represents a list of nodes. -/
theorem reload_represents
    [Std.TransCmp tree.order]
    (represents : tree.Represents nodes)
    (keys : Codec Key)
    (values : Codec Value) :
    (apply tree (.reload keys values)).order = tree.order ∧
      ∃ changed, (apply tree (.reload keys values)).Represents changed := by
  cases loaded : reloaded? tree keys values with
  | none =>
      have unchanged : apply tree (.reload keys values) = tree := by
        simp [apply, loaded]
      rw [unchanged]
      exact ⟨rfl, nodes, represents⟩
  | some result =>
      obtain ⟨bytes, _, decoded⟩ := Option.bind_eq_some_iff.mp loaded
      have replaced : apply tree (.reload keys values) = result := by
        simp [apply, loaded]
      rw [replaced]
      cases answer : (⟨tree.order, keys, values⟩ : TreeFormat Key Value).decode bytes with
      | error cause =>
          rw [answer] at decoded
          contradiction
      | ok other =>
          rw [answer] at decoded
          have same : other = result := Option.some.inj decoded
          subst same
          have lawful :
              Std.TransCmp (⟨tree.order, keys, values⟩ : TreeFormat Key Value).order := by
            assumption
          exact TreeFormat.decode_represents answer

theorem apply_represents
    [Std.TransCmp tree.order]
    (represents : tree.Represents nodes)
    (step : TreeStep Key Value) :
    (apply tree step).order = tree.order ∧
      ∃ changed, (apply tree step).Represents changed := by
  cases step with
  | byKey change =>
      obtain ⟨changed, result, _⟩ := TreeChange.apply_represents represents change
      exact ⟨TreeChange.order_apply change, changed, result⟩
  | setAt id value =>
      exact setAt_represents represents id value
  | reload keys values =>
      exact reload_represents represents keys values

/-- Every tree that steps reach represents a list of nodes, in the same order of keys. -/
theorem run_represents
    {order : Order Key}
    [Std.TransCmp order]
    (order_eq : tree.order = order)
    (represents : tree.Represents nodes)
    (steps : List (TreeStep Key Value)) :
    (run tree steps).order = order ∧ ∃ final, (run tree steps).Represents final := by
  induction steps generalizing tree nodes with
  | nil =>
      exact ⟨order_eq, nodes, represents⟩
  | cons step rest inductionHypothesis =>
      subst order_eq
      obtain ⟨stepOrder, changed, stepRepresents⟩ := apply_represents represents step
      exact inductionHypothesis stepOrder stepRepresents

/-- Every tree that steps reach from the empty one is valid and passes the check. -/
theorem run_valid
    (order : Order Key)
    [Std.TransCmp order]
    (steps : List (TreeStep Key Value)) :
    (run (.empty order) steps).order = order ∧
      (run (.empty order) steps).Valid ∧
        (run (.empty order) steps).violation? = none := by
  have startOrder : (OrderedTree.empty order : OrderedTree Key Value).order = order := rfl
  obtain ⟨order_eq, nodes, represents⟩ :=
    run_represents startOrder (OrderedTree.represents_empty order) steps
  have lawful : Std.TransCmp (run (.empty order) steps).order := by
    rw [order_eq]
    infer_instance
  exact ⟨order_eq, represents.valid, OrderedTree.violation?_eq_none_iff.mpr represents.valid⟩

/-- Five keys, a write, a removal with two children and a reload, in the order of halves. -/
theorem run_valid_halves :
    (run (.empty (Order.byRank fun number : Nat => number / 2))
        [.byKey (.insert 8 'a'), .byKey (.insert 4 'b'), .byKey (.insert 12 'c'),
          .byKey (.insert 10 'd'), .byKey (.insert 14 'e'), .setAt 3 'f', .byKey (.remove 13),
          .reload ⟨fun number => .ok [UInt8.ofNat number],
              fun bytes => .ok (BigEndian.decode bytes)⟩
            ⟨fun letter => .ok [letter.toUInt8],
              fun bytes => .ok (Char.ofNat (BigEndian.decode bytes))⟩]).violation? =
      none :=
  (run_valid (Order.byRank fun number : Nat => number / 2)
    [.byKey (.insert 8 'a'), .byKey (.insert 4 'b'), .byKey (.insert 12 'c'),
      .byKey (.insert 10 'd'), .byKey (.insert 14 'e'), .setAt 3 'f', .byKey (.remove 13),
      .reload ⟨fun number => .ok [UInt8.ofNat number],
          fun bytes => .ok (BigEndian.decode bytes)⟩
        ⟨fun letter => .ok [letter.toUInt8],
          fun bytes => .ok (Char.ofNat (BigEndian.decode bytes))⟩]).2.2

end TreeStep

end OrderedIndex

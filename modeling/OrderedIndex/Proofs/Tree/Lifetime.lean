import OrderedIndex.Proofs.Tree.Change
import OrderedIndex.Proofs.Tree.Decoding
import OrderedIndex.Tree.Handle

namespace OrderedIndex

/-!
# Lives of trees

A tree starts empty or is decoded from bytes, and is then changed by key and
written to through its handles.  Whatever its order says of two keys, every
part of it tells the same list of nodes all its life.
-/

open TreeNode

namespace OrderedTree

variable {Key Value : Type} {tree : OrderedTree Key Value} {nodes : List (TreeNode Key Value)}

/-! ## What a change does to the nodes -/

/-- What an insertion does to the nodes of a tree. -/
inductive Inserts
    (tree : OrderedTree Key Value)
    (key : Key)
    (value : Value)
    (nodes : List (TreeNode Key Value)) :
    Prop where
  /-- Nothing, since a node has an equal key. -/
  | kept (unchanged : tree.insert key value = (false, tree))
  /-- A node in a vacant slot joins the others. -/
  | added
      (below above : List (TreeNode Key Value))
      (id : NodeId)
      (nodes_eq : nodes = below ++ above)
      (vacant : tree.entry? id = none)
      (answer : (tree.insert key value).1 = true)
      (formed : (tree.insert key value).2.Formed (below ++ ⟨id, key, value⟩ :: above))

/-- What a removal does to the nodes of a tree. -/
inductive Removes
    (tree : OrderedTree Key Value)
    (key : Key)
    (nodes : List (TreeNode Key Value)) :
    Prop where
  /-- Nothing, since no node has an equal key. -/
  | kept (unchanged : tree.remove key = (none, tree))
  /-- The node that a search for the key finds leaves the others. -/
  | taken
      (below above : List (TreeNode Key Value))
      (node : TreeNode Key Value)
      (nodes_eq : nodes = below ++ node :: above)
      (found : tree.find? key = some node.id)
      (answer : (tree.remove key).1 = some node.value)
      (formed : (tree.remove key).2.Formed (below ++ above))

namespace Formed

theorem inserts
    (formed : tree.Formed nodes)
    (key : Key)
    (value : Value) :
    Inserts tree key value nodes := by
  rcases formed.landed key with
    ⟨below, above, node, rfl, _, located, _⟩ | ⟨below, above, rfl, _, _, located, inserted⟩
  · exact .kept (by simp [OrderedTree.insert, located])
  · obtain ⟨id, vacant, answer, result⟩ := insert_absent value formed located inserted
    exact .added below above id rfl vacant answer result

theorem removes
    (formed : tree.Formed nodes)
    (key : Key) :
    Removes tree key nodes := by
  rcases formed.landed key with
    ⟨below, above, node, rfl, _, located, erased⟩ | ⟨below, above, rfl, _, _, located, _⟩
  · obtain ⟨answer, result⟩ := remove_present formed located erased
    exact .taken below above node rfl (by simp [find?, located]) answer result
  · exact .kept (by simp [OrderedTree.remove, find?, located])

/-- Writing to any slot in use keeps a tree formed. -/
theorem setValue_of_live
    (formed : tree.Formed nodes)
    {id : NodeId}
    (live : (tree.entry? id).isSome)
    (value : Value) :
    ∃ changed, (tree.setValue id value).Formed changed := by
  obtain ⟨node, member, rfl⟩ := List.mem_map.mp (formed.entry?_isSome_iff.mp live)
  obtain ⟨below, above, rfl⟩ := List.append_of_mem member
  exact ⟨_, setValue formed value⟩

/-- What a search finds is in use. -/
theorem isSome_of_find?
    (formed : tree.Formed nodes)
    {key : Key}
    {id : NodeId}
    (found : tree.find? key = some id) :
    (tree.entry? id).isSome := by
  rcases formed.landed key with
    ⟨below, above, node, nodes_eq, _, located, _⟩ | ⟨_, _, _, _, _, located, _⟩
  · simp only [find?, located, Option.some.injEq] at found
    rw [← found, formed.entry?_eq nodes_eq]
    rfl
  · simp [find?, located] at found

/-- Every change by key keeps a tree formed. -/
theorem change
    (formed : tree.Formed nodes)
    (change : TreeChange Key Value) :
    ∃ changed, (change.apply tree).2.Formed changed := by
  cases change with
  | insert key value =>
      rcases formed.inserts key value with unchanged | ⟨below, above, id, _, _, _, result⟩
      · rw [TreeChange.apply, unchanged]
        exact ⟨nodes, formed⟩
      · exact ⟨_, result⟩
  | remove key =>
      rcases formed.removes key with unchanged | ⟨below, above, node, _, _, _, result⟩
      · rw [TreeChange.apply, unchanged]
        exact ⟨nodes, formed⟩
      · exact ⟨_, result⟩
  | clear =>
      exact ⟨[], formed_empty tree.order⟩
  | set key value =>
      cases found : tree.find? key with
      | none =>
          have unchanged : tree.set key value = (false, tree) := by
            simp [OrderedTree.set, found]
          rw [TreeChange.apply, unchanged]
          exact ⟨nodes, formed⟩
      | some id =>
          have written : tree.set key value = (true, tree.setValue id value) := by
            simp [OrderedTree.set, found]
          rw [TreeChange.apply, written]
          exact formed.setValue_of_live (formed.isSome_of_find? found) value

end Formed

end OrderedTree

namespace TreeChange

variable {Key Value : Type}

/-- The largest number of keys since the last new start, after a change of a tree. -/
def peak (tree : OrderedTree Key Value) (peak : Nat) : TreeChange Key Value → Nat
  | .clear => 0
  | change => max peak (change.apply tree).2.size

/-- The largest number of keys since the last new start, after changes one after the other. -/
def runPeak (tree : OrderedTree Key Value) (peak : Nat) : List (TreeChange Key Value) → Nat
  | [] => peak
  | change :: rest => runPeak (change.apply tree).2 (change.peak tree peak) rest

end TreeChange

namespace OrderedTree

variable {Key Value : Type} {order : Order Key} {peak : Nat} {tree : OrderedTree Key Value}

/--
The trees of an order that come to be, each with the largest number of keys that
it had since it was new, cleared or decoded.
-/
inductive Reachable (order : Order Key) : (peak : Nat) → OrderedTree Key Value → Prop where
  | new : Reachable order 0 (.empty order)
  | decoded
      {format : TreeFormat Key Value}
      {bytes : Bytes}
      {tree : OrderedTree Key Value}
      (order_eq : format.order = order)
      (decode_eq : format.decode bytes = .ok tree) :
      Reachable order tree.size tree
  | changed
      {peak : Nat}
      {tree : OrderedTree Key Value}
      (reachable : Reachable order peak tree)
      (change : TreeChange Key Value) :
      Reachable order (change.peak tree peak) (change.apply tree).2
  /-- A write through a handle. -/
  | written
      {peak : Nat}
      {tree result : OrderedTree Key Value}
      {id : NodeId}
      {value : Value}
      (reachable : Reachable order peak tree)
      (write_eq : tree.setValueAt id value = .ok result) :
      Reachable order peak result

/-- A write through a handle goes to a slot in use. -/
theorem setValueAt_eq_ok_iff
    {result : OrderedTree Key Value}
    {id : NodeId}
    {value : Value} :
    tree.setValueAt id value = .ok result ↔
      (tree.entry? id).isSome ∧ result = tree.setValue id value := by
  cases found : tree.entry? id <;> simp [setValueAt, entryAt, found, Except.map, eq_comm]

namespace Reachable

theorem order_eq (reachable : Reachable order peak tree) : tree.order = order := by
  induction reachable with
  | new =>
      rfl
  | decoded order_eq decode_eq =>
      exact (TreeFormat.decode_formed decode_eq).1.trans order_eq
  | changed _ change inductionHypothesis =>
      exact (TreeChange.order_apply change).trans inductionHypothesis
  | written _ write_eq inductionHypothesis =>
      obtain ⟨_, rfl⟩ := setValueAt_eq_ok_iff.mp write_eq
      exact inductionHypothesis

/-- All parts of a tree tell the same list of nodes, all its life. -/
theorem formed (reachable : Reachable order peak tree) : ∃ nodes, tree.Formed nodes := by
  induction reachable with
  | new =>
      exact ⟨[], formed_empty order⟩
  | decoded _ decode_eq =>
      exact (TreeFormat.decode_formed decode_eq).2
  | changed _ change inductionHypothesis =>
      obtain ⟨nodes, formed⟩ := inductionHypothesis
      exact formed.change change
  | written _ write_eq inductionHypothesis =>
      obtain ⟨nodes, formed⟩ := inductionHypothesis
      obtain ⟨live, rfl⟩ := setValueAt_eq_ok_iff.mp write_eq
      exact formed.setValue_of_live live _

/-- In a lawful order, the keys ascend along that list as well. -/
theorem represents
    [Std.TransCmp order]
    (reachable : Reachable order peak tree) :
    ∃ nodes, tree.Represents nodes := by
  induction reachable with
  | new =>
      exact ⟨[], represents_empty order⟩
  | @decoded format _ _ order_eq decode_eq =>
      have lawful : Std.TransCmp format.order := by
        rwa [order_eq]
      exact (TreeFormat.decode_represents decode_eq).2
  | @changed _ tree reachable change inductionHypothesis =>
      have lawful : Std.TransCmp tree.order := by
        rwa [reachable.order_eq]
      obtain ⟨nodes, represents⟩ := inductionHypothesis
      obtain ⟨changed, result, _⟩ := TreeChange.apply_represents represents change
      exact ⟨changed, result⟩
  | @written _ tree _ id value _ write_eq inductionHypothesis =>
      obtain ⟨nodes, represents⟩ := inductionHypothesis
      obtain ⟨live, rfl⟩ := setValueAt_eq_ok_iff.mp write_eq
      obtain ⟨node, member, rfl⟩ := List.mem_map.mp (represents.entry?_isSome_iff.mp live)
      obtain ⟨below, above, rfl⟩ := List.append_of_mem member
      exact ⟨_, represents.setValue value⟩

/-- Changes one after the other lead from one reachable tree to another. -/
theorem run
    (reachable : Reachable order peak tree)
    (changes : List (TreeChange Key Value)) :
    Reachable order (TreeChange.runPeak tree peak changes) (TreeChange.run tree changes).2 := by
  induction changes generalizing peak tree with
  | nil =>
      exact reachable
  | cons change rest inductionHypothesis =>
      exact inductionHypothesis (reachable.changed change)

end Reachable

end OrderedTree

end OrderedIndex

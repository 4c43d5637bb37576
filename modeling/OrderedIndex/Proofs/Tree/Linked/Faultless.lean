import OrderedIndex.Proofs.Tree.Linked.Change
import OrderedIndex.Proofs.Tree.Linked.Serialize
import OrderedIndex.Proofs.Tree.Linked.Walk

namespace OrderedIndex.LinkedTree

/-!
# Trees in memory never fail

The trees in memory that come to be are the layouts of the ordered trees that
come to be within the arena.  As long as there is a number for one more key, all
checks of all operations hold: a node with two children is followed by one on the
left spine of its right child, a node that is to be rotated has the child to lift
and leans by one at most afterwards, and every link that is followed leads to a
slot in use.  Only the use of a stale handle is a fault.
-/

variable
  {Key Value : Type}
  {order : Order Key}
  {tree : LinkedTree Key Value}
  {ordered : OrderedTree Key Value}

/-! ## Lives of trees in memory -/

/-- The trees in memory that come to be by operations that meet no fault. -/
inductive Reachable (order : Order Key) : LinkedTree Key Value → Prop where
  | new : Reachable order (.empty order)
  | decoded
      {format : TreeFormat Key Value}
      {bytes : Bytes}
      {ordered : OrderedTree Key Value}
      (order_eq : format.order = order)
      (decode_eq : format.decode bytes = .ok ordered) :
      Reachable order ordered.linked
  | changed
      {tree result : LinkedTree Key Value}
      {change : TreeChange Key Value}
      {answer : TreeAnswer Value}
      (reachable : Reachable order tree)
      (change_eq : tree.change change = .ok (answer, result)) :
      Reachable order result
  /-- A write through a handle. -/
  | written
      {tree result : LinkedTree Key Value}
      {id : NodeId}
      {value : Value}
      (reachable : Reachable order tree)
      (write_eq : tree.setValueAt id value = .ok result) :
      Reachable order result

/-- The peak after a change is that of before or the new size. -/
theorem peak_le (ordered : OrderedTree Key Value) (peak : Nat) (change : TreeChange Key Value) :
    change.peak ordered peak ≤ max peak (change.apply ordered).2.size := by
  cases change with
  | clear =>
      exact Nat.zero_le _
  | insert | remove | set =>
      exact Nat.le_refl _

/-- A change adds one key at most. -/
theorem size_apply_le (ordered : OrderedTree Key Value) (change : TreeChange Key Value) :
    (change.apply ordered).2.size ≤ ordered.size + 1 := by
  cases change with
  | insert key value =>
      rcases ordered.sizes_insert key value with unchanged | ⟨size_eq, -⟩
      · rw [TreeChange.apply, unchanged]
        exact Nat.le_succ _
      · exact size_eq.le
  | remove key =>
      exact (ordered.sizes_remove key).1.trans (Nat.le_succ _)
  | clear =>
      exact Nat.zero_le _
  | set key value =>
      exact (ordered.sizes_set key value).1.le.trans (Nat.le_succ _)

/-- A tree that comes to be in memory is the layout of one that comes to be within the arena. -/
theorem Reachable.exists_ordered (reachable : Reachable order tree) :
    ∃ peak ordered,
      peak ≤ UInt32.size ∧ OrderedTree.Reachable order peak ordered ∧ tree = ordered.linked := by
  induction reachable with
  | new =>
      exact ⟨0, .empty order, Nat.zero_le _, .new, (empty_linked order).symm⟩
  | @decoded format bytes ordered order_eq decode_eq =>
      exact ⟨ordered.size, ordered, Nat.le_of_lt (TreeFormat.size_lt_of_decode decode_eq),
        .decoded order_eq decode_eq, rfl⟩
  | @changed tree result change answer _ change_eq inductionHypothesis =>
      obtain ⟨peak, ordered, bounded, reachable, rfl⟩ := inductionHypothesis
      obtain ⟨nodes, formed⟩ := reachable.formed
      rw [change_linked formed (reachable.slots_size_eq_peak.trans_le bounded)] at change_eq
      split at change_eq
      next fits =>
        cases Except.ok.inj change_eq
        exact ⟨_, _, (peak_le ordered peak change).trans (Nat.max_le.mpr ⟨bounded, fits⟩),
          reachable.changed change, rfl⟩
      next =>
        contradiction
  | @written tree result id value _ write_eq inductionHypothesis =>
      obtain ⟨peak, ordered, bounded, reachable, rfl⟩ := inductionHypothesis
      obtain ⟨nodes, formed⟩ := reachable.formed
      rw [setValueAt_linked formed] at write_eq
      cases written : ordered.setValueAt id value with
      | error stale =>
          rw [written] at write_eq
          contradiction
      | ok changed =>
          rw [written] at write_eq
          exact ⟨peak, changed, bounded, reachable.written written, (Except.ok.inj write_eq).symm⟩

/-- The layout of a tree that comes to be within the arena comes to be in memory. -/
theorem reachable_linked
    {peak : Nat}
    (reachable : OrderedTree.Reachable order peak ordered)
    (bounded : peak ≤ UInt32.size) :
    Reachable order ordered.linked := by
  induction reachable with
  | new =>
      rw [empty_linked]
      exact .new
  | decoded order_eq decode_eq =>
      exact .decoded order_eq decode_eq
  | @changed peak tree reachable change inductionHypothesis =>
      obtain ⟨nodes, formed⟩ := reachable.formed
      have goesOn
          (stays : peak ≤ UInt32.size)
          (fits : (change.apply tree).2.size ≤ UInt32.size) :
          Reachable order (change.apply tree).2.linked := by
        have changed := change_linked formed (reachable.slots_size_eq_peak.trans_le stays) change
        rw [if_pos fits] at changed
        exact (inductionHypothesis stays).changed changed
      cases change with
      | clear =>
          rw [TreeChange.apply, OrderedTree.clear, reachable.order_eq, empty_linked]
          exact .new
      | insert | remove | set =>
          exact goesOn (Nat.max_le.mp bounded).1 (Nat.max_le.mp bounded).2
  | @written peak tree result id value reachable write_eq inductionHypothesis =>
      obtain ⟨nodes, formed⟩ := reachable.formed
      refine (inductionHypothesis bounded).written (?_ : tree.linked.setValueAt id value = _)
      rw [setValueAt_linked formed, write_eq]
      rfl

/-! ## Operations -/

/--
Operations on a tree in memory meet no fault but a stale handle, and each does
what the operation on an ordered tree does.
-/
structure Faultless (tree : LinkedTree Key Value) (ordered : OrderedTree Key Value) : Prop where
  change :
    ∀ change,
      tree.change change = .ok ((change.apply ordered).1, (change.apply ordered).2.linked)
  find? : ∀ key, tree.find? key = .ok (ordered.find? key)
  findAtLeast? : ∀ key, tree.findAtLeast? key = .ok (ordered.findAtLeast? key)
  findAbove? : ∀ key, tree.findAbove? key = .ok (ordered.findAbove? key)
  findAtMost? : ∀ key, tree.findAtMost? key = .ok (ordered.findAtMost? key)
  findBelow? : ∀ key, tree.findBelow? key = .ok (ordered.findBelow? key)
  contains : ∀ key, tree.contains key = .ok (ordered.contains key)
  get? : ∀ key, tree.get? key = .ok (ordered.get? key)
  iterate :
    ∀ ends,
      tree.iterator.run ends =
        .ok ((ordered.iterator.run ends).1, (ordered.iterator.run ends).2.linked)
  /-- Moves of a cursor, each of which shows its key, and the entry that it ends on. -/
  walk :
    ∀ moves,
      ∃ observations final,
        Cursor.run ordered.cursor moves = pure (observations, final) ∧
          tree.cursor.run moves = .ok (observations, final.linked) ∧
            final.linked.entry = .ok final.entry
  serialize : ∀ format, tree.serialize format = answered (format.encode ordered)
  keyAt : tree.UsesHandles tree.keyAt ordered.keyAt
  valueAt : tree.UsesHandles tree.valueAt ordered.valueAt
  nextAt : tree.UsesHandles tree.nextAt ordered.nextAt
  previousAt : tree.UsesHandles tree.previousAt ordered.previousAt
  setValueAt :
    ∀ value,
      tree.UsesHandles (tree.setValueAt · value)
        fun id => (ordered.setValueAt id value).map OrderedTree.linked

/-- The layout of a tree that leaves a number for one more key. -/
theorem faultless_linked
    {nodes : List (TreeNode Key Value)}
    (formed : ordered.Formed nodes)
    (within : ordered.slots.size ≤ UInt32.size)
    (small : ordered.size < UInt32.size) :
    ordered.linked.Faultless ordered := by
  have stores := stores_linked formed
  exact {
    change := by
      intro change
      have fits := (size_apply_le ordered change).trans small
      rw [change_linked formed within, if_pos fits]
    find? := stores.find?_eq formed
    findAtLeast? := stores.findAtLeast?_eq formed
    findAbove? := stores.findAbove?_eq formed
    findAtMost? := stores.findAtMost?_eq formed
    findBelow? := stores.findBelow?_eq formed
    contains := stores.contains_eq formed
    get? := stores.get?_eq formed
    iterate := (TreeIterator.live_iterator formed).run_linked
    walk := by
      intro moves
      obtain ⟨observations, final, ran, runLinked, finalLive⟩ :=
        (TreeCursor.live_cursor formed).run_linked moves
      exact ⟨observations, final, ran, runLinked, finalLive.entry_linked⟩
    serialize := stores.serialize_eq formed (small.trans (by decide))
    keyAt := stores.usesHandles_read Entry.key
    valueAt := stores.usesHandles_read Entry.value
    nextAt := stores.usesHandles_read Entry.next
    previousAt := stores.usesHandles_read Entry.previous
    setValueAt := by
      intro value
      refine stores.usesHandles (fun id => setValueAt_linked formed id value)
        (fun id _ => (ordered.setValue id value).linked) ?_
      intro id
      rw [OrderedTree.setValueAt]
      cases ordered.entryAt id <;> rfl }

/-- Whatever has happened to a tree in memory, no operation on it meets a fault. -/
theorem Reachable.faultless
    (reachable : Reachable order tree)
    (small : tree.size < UInt32.size) :
    ∃ peak ordered,
      OrderedTree.Reachable order peak ordered ∧
        tree = ordered.linked ∧ tree.Faultless ordered := by
  obtain ⟨peak, ordered, bounded, ordinary, rfl⟩ := reachable.exists_ordered
  obtain ⟨nodes, formed⟩ := ordinary.formed
  exact ⟨peak, ordered, ordinary, rfl,
    faultless_linked formed (ordinary.slots_size_eq_peak.trans_le bounded) small⟩

/-- Five keys, of which the topmost one with two children is gone, and its handle is stale. -/
theorem faultless_halves :
    let order : Order Nat := Order.byRank fun number => number / 2
    let changes : List (TreeChange Nat Char) :=
      [.insert 8 'a', .insert 4 'b', .insert 12 'c', .insert 10 'd', .insert 14 'e', .remove 9]
    let tree := (TreeChange.run (.empty order) changes).2.linked
    Reachable order tree ∧
      tree.size = 4 ∧
        (∃ peak ordered,
          OrderedTree.Reachable order peak ordered ∧
            tree = ordered.linked ∧ tree.Faultless ordered) ∧
          tree.keyAt 0 = .error (.stale ⟨0⟩) ∧ tree.keyAt 3 = .ok 10 := by
  intro order changes tree
  have bounded : TreeChange.runPeak (.empty order) 0 changes ≤ UInt32.size := by
    decide +kernel
  have reachable : Reachable order tree :=
    reachable_linked (OrderedTree.Reachable.new.run changes) bounded
  have size_eq : tree.size = 4 := by
    decide +kernel
  have small : tree.size < UInt32.size := by
    rw [size_eq]
    decide
  exact ⟨reachable, size_eq, reachable.faultless small, by decide +kernel, by decide +kernel⟩

end OrderedIndex.LinkedTree

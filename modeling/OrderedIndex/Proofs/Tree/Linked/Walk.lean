import OrderedIndex.Proofs.Tree.Iteration
import OrderedIndex.Proofs.Tree.Linked.Layout
import OrderedIndex.Proofs.Tree.Liveness
import OrderedIndex.Tree.Cursor

namespace OrderedIndex

/-!
# Walking in memory

An iterator and a cursor are always at nodes in use, so every step in memory
finds the node that it reads and does what the step over the tree does.
-/

variable {Key Value : Type} {nodes : List (TreeNode Key Value)}

/-! ## Iteration -/

namespace LinkedIterator

/-- Hand out the entry at an end. -/
def step (iterator : LinkedIterator Key Value) :
    IteratorEnd → Except TreeFault (Option (Key × Value) × LinkedIterator Key Value)
  | .front => iterator.next
  | .back => iterator.nextBack

/-- Hand out entries at the ends, one after the other. -/
def run (iterator : LinkedIterator Key Value) :
    List IteratorEnd →
      Except TreeFault (List (Option (Key × Value)) × LinkedIterator Key Value)
  | [] => .ok ([], iterator)
  | atEnd :: rest => do
      let (answer, moved) ← iterator.step atEnd
      let (answers, final) ← moved.run rest
      return (answer :: answers, final)

end LinkedIterator

namespace TreeIterator

variable {iterator : TreeIterator Key Value}

/-- An iterator over a formed tree, both ends of which are at nodes in use or nowhere. -/
structure Live
    (nodes : List (TreeNode Key Value))
    (iterator : TreeIterator Key Value) :
    Prop where
  formed : iterator.tree.Formed nodes
  front : iterator.tree.Leads iterator.front
  back : iterator.tree.Leads iterator.back

/-- A new iterator is at the two ends of its tree. -/
theorem live_iterator
    {tree : OrderedTree Key Value}
    (formed : tree.Formed nodes) :
    tree.iterator.Live nodes :=
  ⟨formed, formed.leads_first, formed.leads_last⟩

namespace Live

/-- The iterator gives the next pair in memory as it does over the tree. -/
theorem next_linked (live : iterator.Live nodes) :
    iterator.linked.next = .ok (iterator.next.1, iterator.next.2.linked) ∧
      iterator.next.2.Live nodes := by
  have stores := LinkedTree.stores_linked live.formed
  by_cases exhausted : iterator.remaining = 0
  · have unchanged : iterator.next = (none, iterator) := if_pos exhausted
    rw [unchanged]
    exact ⟨if_pos exhausted, live⟩
  · cases atFront : iterator.front with
    | none =>
        have unchanged : iterator.next = (none, iterator) := by
          simp [TreeIterator.next, atFront]
        rw [unchanged]
        refine ⟨?_, live⟩
        simp [LinkedIterator.next, TreeIterator.linked, atFront]
    | some id =>
        obtain ⟨entry, branch, found, read⟩ := stores.node_live (live.front id atFront)
        have moved :
            iterator.next =
              (some (entry.key, entry.value),
                { iterator with front := entry.next, remaining := iterator.remaining - 1 }) := by
          simp [TreeIterator.next, exhausted, atFront, found]
        rw [moved]
        refine ⟨?_, live.formed, (live.formed.leads_of_entry? found).2, live.back⟩
        simp [LinkedIterator.next, TreeIterator.linked, exhausted, atFront, read]

/-- The iterator gives the last pair in memory as it does over the tree. -/
theorem nextBack_linked (live : iterator.Live nodes) :
    iterator.linked.nextBack = .ok (iterator.nextBack.1, iterator.nextBack.2.linked) ∧
      iterator.nextBack.2.Live nodes := by
  have stores := LinkedTree.stores_linked live.formed
  by_cases exhausted : iterator.remaining = 0
  · have unchanged : iterator.nextBack = (none, iterator) := if_pos exhausted
    rw [unchanged]
    exact ⟨if_pos exhausted, live⟩
  · cases atBack : iterator.back with
    | none =>
        have unchanged : iterator.nextBack = (none, iterator) := by
          simp [TreeIterator.nextBack, atBack]
        rw [unchanged]
        refine ⟨?_, live⟩
        simp [LinkedIterator.nextBack, TreeIterator.linked, atBack]
    | some id =>
        obtain ⟨entry, branch, found, read⟩ := stores.node_live (live.back id atBack)
        have moved :
            iterator.nextBack =
              (some (entry.key, entry.value),
                { iterator with back := entry.previous, remaining := iterator.remaining - 1 }) := by
          simp [TreeIterator.nextBack, exhausted, atBack, found]
        rw [moved]
        refine ⟨?_, live.formed, live.front, (live.formed.leads_of_entry? found).1⟩
        simp [LinkedIterator.nextBack, TreeIterator.linked, exhausted, atBack, read]

/-- A step in memory hands out what a step over the tree hands out. -/
theorem step_linked (live : iterator.Live nodes) (atEnd : IteratorEnd) :
    iterator.linked.step atEnd =
        .ok ((iterator.step atEnd).1, (iterator.step atEnd).2.linked) ∧
      (iterator.step atEnd).2.Live nodes := by
  cases atEnd with
  | front =>
      exact live.next_linked
  | back =>
      exact live.nextBack_linked

/-- A run of steps in memory hands out what the run over the tree hands out. -/
theorem run_linked (live : iterator.Live nodes) (ends : List IteratorEnd) :
    iterator.linked.run ends = .ok ((iterator.run ends).1, (iterator.run ends).2.linked) := by
  induction ends generalizing iterator with
  | nil =>
      rfl
  | cons atEnd rest inductionHypothesis =>
      obtain ⟨stepped, stepLive⟩ := live.step_linked atEnd
      rw [LinkedIterator.run, stepped, ok_bind]
      dsimp only
      rw [inductionHypothesis stepLive]
      rfl

end Live

end TreeIterator

/-! ## Cursors -/

/-- The key under a cursor is that of the entry. -/
theorem LinkedCursor.get_eq (cursor : LinkedCursor Key Value) :
    cursor.get = do return (← cursor.entry).map Prod.fst := by
  unfold LinkedCursor.get LinkedCursor.entry
  cases cursor.node? with
  | none =>
      rfl
  | some id =>
      simp only [LinkedTree.keyAt]
      cases cursor.tree.node id <;> rfl

namespace TreePosition

/-- The node that a position refers to. -/
def node? : TreePosition → Option NodeId
  | .on id | .before id => some id
  | .beforeFirst | .afterLast => none

end TreePosition

namespace TreeCursor

variable {cursor : TreeCursor Key Value}

/-- A cursor over a formed tree that is at a node in use or nowhere. -/
structure Live
    (nodes : List (TreeNode Key Value))
    (cursor : TreeCursor Key Value) :
    Prop where
  formed : cursor.tree.Formed nodes
  leads : cursor.tree.Leads cursor.position.node?

/-- A new cursor is at the front of its tree. -/
theorem live_cursor
    {tree : OrderedTree Key Value}
    (formed : tree.Formed nodes) :
    tree.cursor.Live nodes :=
  ⟨formed, OrderedTree.leads_none⟩

namespace Live

theorem to_beforeFirst (live : cursor.Live nodes) : cursor.beforeFirst.Live nodes :=
  ⟨live.formed, OrderedTree.leads_none⟩

theorem to_afterLast (live : cursor.Live nodes) : cursor.afterLast.Live nodes :=
  ⟨live.formed, OrderedTree.leads_none⟩

/-- In front of a node in use, or after the last one. -/
theorem inFront
    (live : cursor.Live nodes)
    {target : Option NodeId}
    (leads : cursor.tree.Leads target) :
    (cursor.inFront target).Live nodes := by
  refine ⟨live.formed, ?_⟩
  cases target with
  | none =>
      exact OrderedTree.leads_none
  | some id =>
      exact leads

/-- On a node in use, or at an end. -/
theorem settle
    (live : cursor.Live nodes)
    {target : Option NodeId}
    (leads : cursor.tree.Leads target)
    (exhausted : TreePosition)
    (nowhere : exhausted.node? = none) :
    cursor.linked.settle target exhausted =
        ((cursor.settle target exhausted).1, (cursor.settle target exhausted).2.linked) ∧
      (cursor.settle target exhausted).2.Live nodes := by
  cases target with
  | none =>
      refine ⟨rfl, live.formed, ?_⟩
      rw [TreeCursor.settle, nowhere]
      exact OrderedTree.leads_none
  | some id =>
      exact ⟨rfl, live.formed, leads⟩

section Moves

variable (live : cursor.Live nodes)
include live

/-- A step forward in memory is the step over the tree. -/
theorem next_linked :
    cursor.linked.next = .ok (cursor.next.1, cursor.next.2.linked) ∧ cursor.next.2.Live nodes := by
  have stores := LinkedTree.stores_linked live.formed
  cases position : cursor.position with
  | beforeFirst =>
      obtain ⟨same, settled⟩ := live.settle live.formed.leads_first .afterLast rfl
      simp only [LinkedCursor.next, TreeCursor.next, TreeCursor.linked, position]
      exact ⟨congrArg Except.ok same, settled⟩
  | afterLast =>
      obtain ⟨same, settled⟩ := live.settle OrderedTree.leads_none .afterLast rfl
      simp only [LinkedCursor.next, TreeCursor.next, TreeCursor.linked, position]
      exact ⟨congrArg Except.ok same, settled⟩
  | on id =>
      have inUse := live.leads id (by rw [position]; rfl)
      have leads : cursor.tree.Leads (cursor.tree.next? id) := live.formed.leads_next?
      obtain ⟨same, settled⟩ := live.settle leads .afterLast rfl
      simp only [LinkedCursor.next, TreeCursor.next, TreeCursor.linked, position,
        stores.nextAt_live inUse]
      exact ⟨congrArg Except.ok same, settled⟩
  | before id =>
      have inUse := live.leads id (by rw [position]; rfl)
      obtain ⟨same, settled⟩ := live.settle (OrderedTree.leads_some inUse) .afterLast rfl
      simp only [LinkedCursor.next, TreeCursor.next, TreeCursor.linked, position]
      exact ⟨congrArg Except.ok same, settled⟩

/-- A step backward in memory is the step over the tree. -/
theorem previous_linked :
    cursor.linked.previous = .ok (cursor.previous.1, cursor.previous.2.linked) ∧
      cursor.previous.2.Live nodes := by
  have stores := LinkedTree.stores_linked live.formed
  cases position : cursor.position with
  | beforeFirst =>
      obtain ⟨same, settled⟩ := live.settle OrderedTree.leads_none .beforeFirst rfl
      simp only [LinkedCursor.previous, TreeCursor.previous, TreeCursor.linked, position]
      exact ⟨congrArg Except.ok same, settled⟩
  | afterLast =>
      obtain ⟨same, settled⟩ := live.settle live.formed.leads_last .beforeFirst rfl
      simp only [LinkedCursor.previous, TreeCursor.previous, TreeCursor.linked, position]
      exact ⟨congrArg Except.ok same, settled⟩
  | on id | before id =>
      have inUse := live.leads id (by rw [position]; rfl)
      have leads : cursor.tree.Leads (cursor.tree.previous? id) := live.formed.leads_previous?
      obtain ⟨same, settled⟩ := live.settle leads .beforeFirst rfl
      simp only [LinkedCursor.previous, TreeCursor.previous, TreeCursor.linked, position,
        stores.previousAt_live inUse]
      exact ⟨congrArg Except.ok same, settled⟩

/-- The gap before a key is found in memory as it is in the tree. -/
theorem before_linked (key : Key) :
    cursor.linked.before key = .ok (cursor.before key).linked ∧ (cursor.before key).Live nodes := by
  have stores := LinkedTree.stores_linked live.formed
  refine ⟨?_, live.inFront (live.formed.leads_findAtLeast? key)⟩
  simp only [LinkedCursor.before, TreeCursor.linked, stores.findAtLeast?_eq live.formed key]
  rfl

/-- The gap after a key is found in memory as it is in the tree. -/
theorem after_linked (key : Key) :
    cursor.linked.after key = .ok (cursor.after key).linked ∧ (cursor.after key).Live nodes := by
  have stores := LinkedTree.stores_linked live.formed
  refine ⟨?_, live.inFront (live.formed.leads_findAbove? key)⟩
  simp only [LinkedCursor.after, TreeCursor.linked, stores.findAbove?_eq live.formed key]
  rfl

/-- A move in memory reports what a move over the tree reports. -/
theorem perform_linked (move : Move Key) :
    ∃ report moved,
      Cursor.perform cursor move = pure (.ok report, moved) ∧
        cursor.linked.perform move = .ok (report, moved.linked) ∧ moved.Live nodes := by
  cases move with
  | next =>
      obtain ⟨stepped, steppedLive⟩ := live.next_linked
      exact ⟨_, _, rfl, by rw [LinkedCursor.perform, stepped]; rfl, steppedLive⟩
  | previous =>
      obtain ⟨stepped, steppedLive⟩ := live.previous_linked
      exact ⟨_, _, rfl, by rw [LinkedCursor.perform, stepped]; rfl, steppedLive⟩
  | first =>
      have same : cursor.linked.beforeFirst = cursor.beforeFirst.linked := rfl
      obtain ⟨stepped, steppedLive⟩ := live.to_beforeFirst.next_linked
      exact ⟨_, _, rfl, by rw [LinkedCursor.perform, same, stepped]; rfl, steppedLive⟩
  | last =>
      have same : cursor.linked.afterLast = cursor.afterLast.linked := rfl
      obtain ⟨stepped, steppedLive⟩ := live.to_afterLast.previous_linked
      exact ⟨_, _, rfl, by rw [LinkedCursor.perform, same, stepped]; rfl, steppedLive⟩
  | beforeFirst =>
      exact ⟨_, _, rfl, rfl, live.to_beforeFirst⟩
  | afterLast =>
      exact ⟨_, _, rfl, rfl, live.to_afterLast⟩
  | before key =>
      obtain ⟨placed, placedLive⟩ := live.before_linked key
      exact ⟨_, _, rfl, by rw [LinkedCursor.perform, placed]; rfl, placedLive⟩
  | after key =>
      obtain ⟨placed, placedLive⟩ := live.after_linked key
      exact ⟨_, _, rfl, by rw [LinkedCursor.perform, placed]; rfl, placedLive⟩

/-- What a cursor is on can be read. -/
theorem entry_linked : cursor.linked.entry = .ok cursor.entry := by
  have stores := LinkedTree.stores_linked live.formed
  cases position : cursor.position with
  | beforeFirst | afterLast | before id =>
      simp [LinkedCursor.entry, TreeCursor.entry, LinkedCursor.node?, TreeCursor.node?,
        TreeCursor.linked, position]
  | on id =>
      obtain ⟨entry, branch, found, read⟩ :=
        stores.node_live (live.leads id (by rw [position]; rfl))
      simp [LinkedCursor.entry, TreeCursor.entry, LinkedCursor.node?, TreeCursor.node?,
        TreeCursor.linked, position, read, found]

end Moves

/-- A cursor in memory shows the key that it shows over the tree. -/
theorem get_linked (live : cursor.Live nodes) : cursor.linked.get = .ok cursor.get := by
  rw [LinkedCursor.get_eq, live.entry_linked]
  rfl

/-- Moves in memory show what moves over the tree show. -/
theorem run_linked (live : cursor.Live nodes) (moves : List (Move Key)) :
    ∃ observations final,
      Cursor.run cursor moves = pure (observations, final) ∧
        cursor.linked.run moves = .ok (observations, final.linked) ∧ final.Live nodes := by
  induction moves generalizing cursor with
  | nil =>
      exact ⟨[], cursor, rfl, rfl, live⟩
  | cons move rest inductionHypothesis =>
      obtain ⟨report, moved, performed, moveLinked, movedLive⟩ := live.perform_linked move
      obtain ⟨observations, final, ran, runLinked, finalLive⟩ := inductionHypothesis movedLive
      refine ⟨⟨.ok report, Cursor.available moved, Cursor.get moved⟩ :: observations, final, ?_, ?_,
        finalLive⟩
      · rw [Cursor.run, performed, pure_bind]
        dsimp only
        rw [ran]
        rfl
      · rw [LinkedCursor.run, moveLinked, ok_bind]
        dsimp only
        rw [movedLive.get_linked, ok_bind, runLinked]
        rfl

end Live

end TreeCursor

end OrderedIndex

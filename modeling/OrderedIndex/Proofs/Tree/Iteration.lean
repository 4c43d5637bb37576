import OrderedIndex.Proofs.Tree.Walk
import OrderedIndex.Tree.Iterator

namespace OrderedIndex

/-!
# Iteration

An iterator over a tree has handed out some nodes at the front and some at the
back; what it has yet to hand out lies between them.  Each step moves one node
from the middle to a side.
-/

open TreeNode

/-- The two ends at which an iterator hands out entries. -/
inductive IteratorEnd where
  | front
  | back
  deriving Repr, DecidableEq

namespace IteratorEnd

/-- Take an element from an end of a list. -/
def take {Element : Type} (elements : List Element) :
    IteratorEnd → Option Element × List Element
  | .front => (elements.head?, elements.tail)
  | .back => (elements.getLast?, elements.dropLast)

/-- Take elements from the ends of a list, one after the other. -/
def takeAll {Element : Type} (elements : List Element) :
    List IteratorEnd → List (Option Element) × List Element
  | [] => ([], elements)
  | atEnd :: rest =>
      let (taken, others) := atEnd.take elements
      let (answers, final) := takeAll others rest
      (taken :: answers, final)

variable {Element : Type}

/-- Taking from the front reads a list in order. -/
theorem takeAll_front (count : Nat) (elements : List Element) :
    (takeAll elements (List.replicate count .front)).1 =
      (List.range count).map fun place => elements[place]? := by
  induction count generalizing elements with
  | zero =>
      rfl
  | succ count inductionHypothesis =>
      rw [List.replicate_succ, List.range_succ_eq_map, List.map_cons, List.map_map]
      refine List.cons_eq_cons.mpr ⟨List.head?_eq_getElem?, ?_⟩
      refine (inductionHypothesis elements.tail).trans ?_
      simp [Function.comp_def]

/-- Taking from the back is taking from the front of the reversed list. -/
theorem takeAll_back (count : Nat) (elements : List Element) :
    (takeAll elements (List.replicate count .back)).1 =
      (takeAll elements.reverse (List.replicate count .front)).1 := by
  induction count generalizing elements with
  | zero =>
      rfl
  | succ count inductionHypothesis =>
      rw [List.replicate_succ, List.replicate_succ]
      refine List.cons_eq_cons.mpr ⟨List.head?_reverse.symm, ?_⟩
      refine (inductionHypothesis elements.dropLast).trans ?_
      rw [← List.tail_reverse]

end IteratorEnd

namespace TreeIterator

variable {Key Value : Type} {iterator : TreeIterator Key Value}

/-- Hand out the entry at an end. -/
def step (iterator : TreeIterator Key Value) :
    IteratorEnd → Option (Key × Value) × TreeIterator Key Value
  | .front => iterator.next
  | .back => iterator.nextBack

/-- Hand out entries at the ends, one after the other. -/
def run (iterator : TreeIterator Key Value) :
    List IteratorEnd → List (Option (Key × Value)) × TreeIterator Key Value
  | [] => ([], iterator)
  | atEnd :: rest =>
      let (answer, moved) := iterator.step atEnd
      let (answers, final) := moved.run rest
      (answer :: answers, final)

/-- The nodes that an iterator has yet to hand out, between those that it has. -/
structure Covers
    (iterator : TreeIterator Key Value)
    (below middle above : List (TreeNode Key Value)) :
    Prop where
  formed : iterator.tree.Formed (below ++ middle ++ above)
  front_eq : iterator.front = firstOr none (middle ++ above)
  back_eq : iterator.back = lastOr none (below ++ middle)
  remaining_eq : iterator.remaining = middle.length

variable {below middle above : List (TreeNode Key Value)} {node : TreeNode Key Value}

/-- A new iterator has yet to hand out all nodes. -/
theorem covers_iterator
    {tree : OrderedTree Key Value}
    {nodes : List (TreeNode Key Value)}
    (formed : tree.Formed nodes) :
    tree.iterator.Covers [] nodes [] where
  formed := by
    rw [List.nil_append, List.append_nil]
    exact formed
  front_eq := by
    rw [List.append_nil]
    exact formed.first_eq
  back_eq := formed.last_eq
  remaining_eq := formed.size_eq

namespace Covers

/-- An iterator that has handed out all nodes has nothing more. -/
theorem step_nil
    (covers : iterator.Covers below [] above)
    (atEnd : IteratorEnd) :
    iterator.step atEnd = (none, iterator) := by
  cases atEnd with
  | front =>
      exact if_pos covers.remaining_eq
  | back =>
      exact if_pos covers.remaining_eq

theorem next_cons (covers : iterator.Covers below (node :: middle) above) :
    ∃ rest,
      iterator.next = (some node.pair, rest) ∧ rest.Covers (below ++ [node]) middle above := by
  have nodes_eq : below ++ node :: middle ++ above = below ++ node :: (middle ++ above) := by
    simp
  have found := covers.formed.entry?_eq nodes_eq
  refine ⟨{ iterator with
    front := firstOr none (middle ++ above), remaining := iterator.remaining - 1 }, ?_, ?_⟩
  · have more : iterator.remaining ≠ 0 := by
      simp [covers.remaining_eq]
    rw [next, if_neg more, covers.front_eq]
    simp [found, TreeNode.pair]
  · refine ⟨?_, rfl, ?_, ?_⟩
    · rw [List.append_assoc, List.append_assoc, List.singleton_append, ← nodes_eq]
      exact covers.formed
    · rw [List.append_assoc, List.singleton_append]
      exact covers.back_eq
    · simp [covers.remaining_eq]

theorem nextBack_concat (covers : iterator.Covers below (middle ++ [node]) above) :
    ∃ rest,
      iterator.nextBack = (some node.pair, rest) ∧
        rest.Covers below middle (node :: above) := by
  have nodes_eq :
      below ++ (middle ++ [node]) ++ above = (below ++ middle) ++ node :: above := by
    simp
  have found := covers.formed.entry?_eq nodes_eq
  refine ⟨{ iterator with
    back := lastOr none (below ++ middle), remaining := iterator.remaining - 1 }, ?_, ?_⟩
  · have more : iterator.remaining ≠ 0 := by
      simp [covers.remaining_eq]
    have atBack : iterator.back = some node.id := by
      rw [covers.back_eq, ← List.append_assoc, lastOr_append, lastOr_cons, lastOr_nil]
    rw [nextBack, if_neg more, atBack]
    simp [found, TreeNode.pair]
  · refine ⟨?_, ?_, rfl, ?_⟩
    · rw [← nodes_eq]
      exact covers.formed
    · have frontSame := covers.front_eq
      rw [List.append_assoc, List.singleton_append] at frontSame
      exact frontSame
    · simp [covers.remaining_eq]

/-- A step hands out what the list of remaining pairs has at that end. -/
theorem step
    (covers : iterator.Covers below middle above)
    (atEnd : IteratorEnd) :
    ∃ belowAfter middleAfter aboveAfter,
      (iterator.step atEnd).2.Covers belowAfter middleAfter aboveAfter ∧
        ((iterator.step atEnd).1, middleAfter.map pair) = atEnd.take (middle.map pair) := by
  cases middle with
  | nil =>
      refine ⟨below, [], above, ?_, ?_⟩
      · rw [covers.step_nil]
        exact covers
      · rw [covers.step_nil]
        cases atEnd <;> rfl
  | cons first others =>
      cases atEnd with
      | front =>
          obtain ⟨rest, answer, restCovers⟩ := covers.next_cons
          refine ⟨below ++ [first], others, above, ?_, ?_⟩
          · rw [TreeIterator.step, answer]
            exact restCovers
          · rw [TreeIterator.step, answer]
            rfl
      | back =>
          obtain ⟨front, last, split⟩ : ∃ front last, first :: others = front ++ [last] :=
            ⟨_, _, (List.dropLast_concat_getLast (List.cons_ne_nil first others)).symm⟩
          rw [split] at covers ⊢
          obtain ⟨rest, answer, restCovers⟩ := covers.nextBack_concat
          refine ⟨below, front, last :: above, ?_, ?_⟩
          · rw [TreeIterator.step, answer]
            exact restCovers
          · rw [TreeIterator.step, answer]
            simp [IteratorEnd.take]

/-- A run of steps hands out what the list of remaining pairs has at those ends. -/
theorem run
    (covers : iterator.Covers below middle above)
    (ends : List IteratorEnd) :
    ∃ belowAfter middleAfter aboveAfter,
      (iterator.run ends).2.Covers belowAfter middleAfter aboveAfter ∧
        ((iterator.run ends).1, middleAfter.map pair) =
          IteratorEnd.takeAll (middle.map pair) ends := by
  induction ends generalizing iterator below middle above with
  | nil =>
      exact ⟨below, middle, above, covers, rfl⟩
  | cons atEnd rest inductionHypothesis =>
      obtain ⟨belowNext, middleNext, aboveNext, stepped, answer⟩ := covers.step atEnd
      obtain ⟨belowLast, middleLast, aboveLast, finished, answers⟩ :=
        inductionHypothesis stepped
      refine ⟨belowLast, middleLast, aboveLast, finished, ?_⟩
      rw [IteratorEnd.takeAll, ← answer]
      dsimp only
      rw [← answers]
      rfl

end Covers

end TreeIterator

end OrderedIndex

import OrderedIndex.Proofs.Tree.Iteration
import OrderedIndex.Proofs.Tree.Lifetime

namespace OrderedIndex

/-!
# Iteration from both ends

However calls at the two ends of an iterator take turns, the front hands out the
entries of the tree in order and the back hands them out from the last one down,
until the two meet.  Until then every call hands out an entry, after it none
does, and the bounds on what is still to come are exact all along.
-/

/-! ## Taking from both ends of a list -/

namespace IteratorEnd

variable {Element : Type}

/-- What the calls at one of the ends were given, in the order of the calls. -/
def taken (atEnd : IteratorEnd) (ends : List IteratorEnd) (answers : List (Option Element)) :
    List Element :=
  (ends.zip answers).filterMap fun call => if call.1 = atEnd then call.2 else none

@[simp] theorem taken_nil {atEnd : IteratorEnd} {answers : List (Option Element)} :
    taken atEnd [] answers = [] :=
  rfl

@[simp] theorem taken_none
    {atEnd asked : IteratorEnd}
    {ends : List IteratorEnd}
    {answers : List (Option Element)} :
    taken atEnd (asked :: ends) (none :: answers) = taken atEnd ends answers := by
  simp [taken]

@[simp] theorem taken_some
    {atEnd asked : IteratorEnd}
    {ends : List IteratorEnd}
    {element : Element}
    {answers : List (Option Element)} :
    taken atEnd (asked :: ends) (some element :: answers) =
      if asked = atEnd then element :: taken atEnd ends answers
      else taken atEnd ends answers := by
  by_cases same : asked = atEnd <;> simp [taken, same]

/-- What was taken from the two ends lies around what is left. -/
theorem takeAll_split (ends : List IteratorEnd) (elements : List Element) :
    elements =
      taken .front ends (takeAll elements ends).1 ++ (takeAll elements ends).2 ++
        (taken .back ends (takeAll elements ends).1).reverse := by
  induction ends generalizing elements with
  | nil =>
      simp [takeAll]
  | cons atEnd rest inductionHypothesis =>
      cases atEnd with
      | front =>
          cases elements with
          | nil =>
              simpa [takeAll, take] using inductionHypothesis []
          | cons first others =>
              simpa [takeAll, take] using inductionHypothesis others
      | back =>
          rcases List.eq_nil_or_concat elements with rfl | ⟨others, last, rfl⟩
          · simpa [takeAll, take] using inductionHypothesis []
          · simpa [takeAll, take, ← List.append_assoc] using inductionHypothesis others

/-- Taking from an end finds an element if there is one, and leaves one element less. -/
theorem take_counts (atEnd : IteratorEnd) (elements : List Element) :
    (atEnd.take elements).1.isSome = decide (0 < elements.length) ∧
      (atEnd.take elements).2.length = elements.length - 1 := by
  cases atEnd with
  | front =>
      cases elements <;> simp [take]
  | back =>
      rcases List.eq_nil_or_concat elements with rfl | ⟨others, last, rfl⟩ <;> simp [take]

theorem length_takeAll (ends : List IteratorEnd) (elements : List Element) :
    (takeAll elements ends).2.length = elements.length - ends.length := by
  induction ends generalizing elements with
  | nil =>
      rfl
  | cons atEnd rest inductionHypothesis =>
      rw [takeAll]
      dsimp only
      rw [inductionHypothesis, (take_counts atEnd elements).2, List.length_cons]
      omega

/-- As many calls find an element as there are elements, and these are the first ones. -/
theorem takeAll_answered (ends : List IteratorEnd) (elements : List Element) :
    (takeAll elements ends).1.map Option.isSome =
      (List.range ends.length).map fun call => decide (call < elements.length) := by
  induction ends generalizing elements with
  | nil =>
      rfl
  | cons atEnd rest inductionHypothesis =>
      obtain ⟨found, left⟩ := take_counts atEnd elements
      rw [takeAll, List.length_cons, List.range_succ_eq_map]
      simp only [List.map_cons, List.map_map, found, inductionHypothesis, left]
      refine congrArg _ (List.map_congr_left ?_)
      intro call _
      rw [Function.comp_apply, decide_eq_decide]
      omega

/-- Enough calls take as many elements as there are. -/
theorem count_takeAll
    {ends : List IteratorEnd}
    {elements : List Element}
    (enough : elements.length ≤ ends.length) :
    ((takeAll elements ends).1.filterMap id).length = elements.length := by
  induction ends generalizing elements with
  | nil =>
      have none : elements = [] := List.length_eq_zero_iff.mp (Nat.le_zero.mp enough)
      rw [none]
      rfl
  | cons atEnd rest inductionHypothesis =>
      obtain ⟨found, left⟩ := take_counts atEnd elements
      have others : (atEnd.take elements).2.length ≤ rest.length := by
        rw [List.length_cons] at enough
        omega
      have counted := inductionHypothesis others
      rw [takeAll]
      dsimp only
      cases answer : (atEnd.take elements).1 with
      | none =>
          rw [answer] at found
          simp_all
      | some element =>
          rw [answer] at found
          simp_all
          omega

end IteratorEnd

/-! ## What is still to come -/

namespace TreeIterator.Covers

variable
  {Key Value : Type}
  {iterator : TreeIterator Key Value}
  {below middle above : List (TreeNode Key Value)}

/-- The bounds are exact, whatever the iterator has handed out. -/
theorem sizeHint_eq (covers : iterator.Covers below middle above) :
    iterator.sizeHint = (middle.length, some middle.length) ∧
      iterator.length? = some middle.length := by
  have exact : iterator.sizeHint = (middle.length, some middle.length) := by
    rw [sizeHint, covers.remaining_eq]
  exact ⟨exact, by simp [length?, exact]⟩

/-- Enough calls hand out exactly what the bounds promise. -/
theorem count_run
    (covers : iterator.Covers below middle above)
    {ends : List IteratorEnd}
    (enough : middle.length ≤ ends.length) :
    ((iterator.run ends).1.filterMap id).length = middle.length := by
  obtain ⟨_, _, _, _, answers⟩ := covers.run ends
  have taken : (iterator.run ends).1 = (IteratorEnd.takeAll (middle.map TreeNode.pair) ends).1 :=
    congrArg Prod.fst answers
  rw [← List.length_map TreeNode.pair] at enough ⊢
  rw [taken]
  exact IteratorEnd.count_takeAll enough

end TreeIterator.Covers

/-! ## Every reachable tree -/

/-- How an iterator over a tree hands out the entries, whichever ends the calls are made at. -/
structure OrderedTree.IteratesFromBothEnds
    {Key Value : Type}
    (tree : OrderedTree Key Value) :
    Prop where
  walk_eq : tree.shape.toList = tree.nodes.zip (tree.toList.map Prod.fst)
  length_eq : tree.toList.length = tree.size
  /--
  The front has handed out the first entries in order and the back the last ones
  from the last one down; the rest is between them.
  -/
  split_eq :
    ∀ ends,
      ∃ rest,
        tree.toList =
            IteratorEnd.taken .front ends (tree.iterator.run ends).1 ++ rest ++
              (IteratorEnd.taken .back ends (tree.iterator.run ends).1).reverse ∧
          rest.length = tree.size - ends.length
  /-- Exactly as many calls find an entry as there are entries, and these are the first ones. -/
  answered :
    ∀ ends,
      (tree.iterator.run ends).1.map Option.isSome =
        (List.range ends.length).map fun call => decide (call < tree.size)
  /-- Before each call the bounds are the number of entries that all later calls can get. -/
  sizeHint_eq :
    ∀ ends more,
      tree.size ≤ ends.length + more.length →
        let left := (tree.iterator.run ends).2
        let coming := ((left.run more).1.filterMap id).length
        left.sizeHint = (coming, some coming) ∧ left.length? = some coming

namespace OrderedTree

variable
  {Key Value : Type}
  {tree : OrderedTree Key Value}
  {nodes : List (TreeNode Key Value)}

theorem Formed.drains (formed : tree.Formed nodes) : tree.IteratesFromBothEnds := by
  have length_eq : tree.toList.length = tree.size := by
    rw [formed.toList_eq, List.length_map, formed.size_eq]
  have covers := TreeIterator.covers_iterator formed
  have answers (ends : List IteratorEnd) :
      (tree.iterator.run ends).1 = (IteratorEnd.takeAll tree.toList ends).1 := by
    obtain ⟨_, _, _, _, run_eq⟩ := covers.run ends
    rw [formed.toList_eq, ← run_eq]
  refine {
    walk_eq := ?_
    length_eq := length_eq
    split_eq := ?_
    answered := ?_
    sizeHint_eq := ?_ }
  · rw [formed.sequence, formed.nodes_eq, formed.toList_eq, List.map_map, List.zip_map']
    rfl
  · intro ends
    refine ⟨(IteratorEnd.takeAll tree.toList ends).2, ?_, ?_⟩
    · rw [answers]
      exact IteratorEnd.takeAll_split ends tree.toList
    · rw [IteratorEnd.length_takeAll, length_eq]
  · intro ends
    rw [answers, IteratorEnd.takeAll_answered, length_eq]
  · intro ends more enough
    obtain ⟨_, middle, _, coversLeft, run_eq⟩ := covers.run ends
    have middle_length : middle.length = tree.size - ends.length := by
      rw [← length_eq, formed.toList_eq, ← IteratorEnd.length_takeAll, ← run_eq, List.length_map]
    have enoughLeft : middle.length ≤ more.length := by
      omega
    dsimp only
    rw [coversLeft.count_run enoughLeft]
    exact coversLeft.sizeHint_eq

/-- An iterator over any tree hands out its entries from both ends until these meet. -/
theorem Reachable.iteratesFromBothEnds
    {order : Order Key}
    {peak : Nat}
    (reachable : Reachable order peak tree) :
    tree.IteratesFromBothEnds := by
  obtain ⟨nodes, formed⟩ := reachable.formed
  exact formed.drains

/-- The ends of three entries meet at the second one; the fourth call gets nothing. -/
theorem iteratesFromBothEnds_three :
    let changes : List (TreeChange Nat Char) :=
      [.insert 8 'a', .insert 4 'b', .insert 9 'd', .remove 9, .insert 12 'c']
    let tree := (TreeChange.run (empty (Order.byRank id)) changes).2
    let ends : List IteratorEnd := [.back, .front, .back, .front]
    tree.IteratesFromBothEnds ∧
      (tree.iterator.run ends).1 = [some (12, 'c'), some (4, 'b'), some (8, 'a'), none] ∧
        (tree.iterator.run (ends.take 2)).2.length? = some 1 := by
  intro changes tree ends
  have iterates := Reachable.iteratesFromBothEnds
    (Reachable.new.run changes : Reachable (Order.byRank id) _ tree)
  exact ⟨iterates, by decide, by decide⟩

end OrderedTree

end OrderedIndex

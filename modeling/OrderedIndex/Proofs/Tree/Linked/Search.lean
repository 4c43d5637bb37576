import OrderedIndex.Proofs.Tree.Linked.Climb
import OrderedIndex.Proofs.Tree.Stability

namespace OrderedIndex

/-!
# Searching in memory

A memory stores a tree if it has the tree's entries and holds its shape.  Then a
search finds every node that it asks for, ends where the search of the shape
ends, and leaves a path behind that waits for whatever is hung at its end.
-/

open Shape

/-- A tree has as many keys as its shape has nodes. -/
theorem OrderedTree.Formed.size_shape
    {Key Value : Type}
    {tree : OrderedTree Key Value}
    {nodes : List (TreeNode Key Value)}
    (formed : tree.Formed nodes) :
    tree.shape.size = tree.size := by
  rw [← length_ids, formed.ids_eq, List.length_map, formed.size_eq]

namespace LinkedTree

variable
  {Key Value : Type}
  {tree : LinkedTree Key Value}
  {ordered : OrderedTree Key Value}
  {nodes : List (TreeNode Key Value)}
  {id : NodeId}

/-- A tree in memory has the entries of an ordered tree and holds its shape. -/
structure Stores (tree : LinkedTree Key Value) (ordered : OrderedTree Key Value) : Prop where
  under_eq : tree.under ordered.shape = ordered
  root_eq : tree.root = ordered.shape.root?
  holds : tree.Holds ordered.shape

/-! ## Descents -/

section Descents

variable
  {probe : Key → Ordering}
  {path finalPath : Path Key}
  {shape subtree : Shape Key}

/-- A descent in memory takes the same way as a descent through the shape that is held. -/
theorem descend_ok
    {fuel : Nat}
    (holds : tree.Holds shape)
    (keyed : ∀ item ∈ shape.toList, tree.keyAt item.1 = .ok item.2)
    (deep : shape.size ≤ fuel)
    (descended : shape.descend probe path = (finalPath, subtree)) :
    tree.descend probe fuel path.turns shape.root? = .ok (finalPath.turns, subtree.root?) := by
  induction shape generalizing path fuel with
  | empty =>
      simp only [Shape.descend, Prod.mk.injEq] at descended
      obtain ⟨rfl, rfl⟩ := descended
      cases fuel <;> rfl
  | node left id key height right leftHypothesis rightHypothesis =>
      obtain ⟨here, holdsLeft, holdsRight⟩ := holds
      obtain ⟨node, read, parts⟩ := node_of_branch? here
      rw [toList_node] at keyed
      have key_eq := keyed (id, key) (by simp)
      rw [keyAt, read, ok_bind] at key_eq
      have sameKey : node.key = key := Except.ok.inj key_eq
      rw [Shape.size] at deep
      obtain ⟨less, rfl⟩ : ∃ less, fuel = less + 1 := ⟨fuel - 1, by omega⟩
      rw [root?, LinkedTree.descend, read, ok_bind, sameKey, parts]
      cases compared : probe key with
      | lt =>
          simp only [Shape.descend, compared] at descended
          exact leftHypothesis holdsLeft (fun item member => keyed item (by simp [member]))
            (by omega) descended
      | gt =>
          simp only [Shape.descend, compared] at descended
          exact rightHypothesis holdsRight (fun item member => keyed item (by simp [member]))
            (by omega) descended
      | eq =>
          simp only [Shape.descend, compared, Prod.mk.injEq] at descended
          obtain ⟨rfl, rfl⟩ := descended
          rfl

/-- A descent leaves a waiting path behind. -/
theorem awaits_of_descend
    (holds : tree.Holds shape)
    (awaits : tree.Awaits path)
    (descended : shape.descend probe path = (finalPath, subtree)) :
    tree.Awaits finalPath ∧ tree.Holds subtree := by
  induction shape generalizing path with
  | empty =>
      simp only [Shape.descend, Prod.mk.injEq] at descended
      obtain ⟨rfl, rfl⟩ := descended
      exact ⟨awaits, holds⟩
  | node left id key height right leftHypothesis rightHypothesis =>
      have whole := holds
      obtain ⟨here, holdsLeft, holdsRight⟩ := holds
      cases compared : probe key with
      | lt =>
          simp only [Shape.descend, compared] at descended
          have leftAwaits : tree.Awaits (.left id key right :: path) :=
            ⟨⟨_, height, here⟩, holdsRight, awaits⟩
          exact leftHypothesis holdsLeft leftAwaits descended
      | gt =>
          simp only [Shape.descend, compared] at descended
          have rightAwaits : tree.Awaits (.right left id key :: path) :=
            ⟨⟨_, height, here⟩, holdsLeft, awaits⟩
          exact rightHypothesis holdsRight rightAwaits descended
      | eq =>
          simp only [Shape.descend, compared, Prod.mk.injEq] at descended
          obtain ⟨rfl, rfl⟩ := descended
          exact ⟨awaits, whole⟩

/-- The last turn to the left was taken at the least node above. -/
theorem passed?_left (path : Path Key) : path.turns.passed? .left = path.above? := by
  induction path with
  | nil =>
      rfl
  | cons step rest inductionHypothesis =>
      cases step with
      | left id key right =>
          rfl
      | right left id key =>
          exact inductionHypothesis

/-- The last turn to the right was taken at the greatest node below. -/
theorem passed?_right (path : Path Key) : path.turns.passed? .right = path.below? := by
  induction path with
  | nil =>
      rfl
  | cons step rest inductionHypothesis =>
      cases step with
      | left id key right =>
          exact inductionHypothesis
      | right left id key =>
          rfl

end Descents

namespace Stores

/-! ## Reading nodes -/

theorem order_eq (stores : tree.Stores ordered) : tree.order = ordered.order :=
  congrArg OrderedTree.order stores.under_eq

theorem free_eq (stores : tree.Stores ordered) : tree.free = ordered.free :=
  congrArg OrderedTree.free stores.under_eq

theorem first_eq (stores : tree.Stores ordered) : tree.first = ordered.first :=
  congrArg OrderedTree.first stores.under_eq

theorem last_eq (stores : tree.Stores ordered) : tree.last = ordered.last :=
  congrArg OrderedTree.last stores.under_eq

theorem size_eq (stores : tree.Stores ordered) : tree.size = ordered.size :=
  congrArg OrderedTree.size stores.under_eq

/-- A memory has as many slots as the tree that it stores. -/
theorem nodes_size (stores : tree.Stores ordered) : tree.nodes.size = ordered.slots.size := by
  rw [← congrArg OrderedTree.slots stores.under_eq]
  simp [under]

/-- A slot is in use in memory as it is in the tree. -/
theorem entry?_eq (stores : tree.Stores ordered) (id : NodeId) :
    ordered.entry? id = (tree.node? id).map LinkedNode.toEntry := by
  rw [← entry?_under tree ordered.shape, stores.under_eq]

/-- A slot in use has a node with the entry. -/
theorem node_eq
    (stores : tree.Stores ordered)
    {entry : Entry Key Value}
    (found : ordered.entry? id = some entry) :
    ∃ branch, tree.node id = .ok ⟨entry, branch⟩ := by
  rw [stores.entry?_eq] at found
  obtain ⟨node, isNode, rfl⟩ := Option.map_eq_some_iff.mp found
  exact ⟨node.toBranch, node_eq_ok_iff.mpr isNode⟩

/-- A slot that is free or not in the arena has none. -/
theorem node_stale
    (stores : tree.Stores ordered)
    (vacant : ordered.entry? id = none) :
    tree.node id = .error (.stale ⟨id⟩) := by
  rw [stores.entry?_eq, Option.map_eq_none_iff] at vacant
  rw [node, vacant]
  rfl

/-- Whatever is read behind a handle, it is there or the handle is stale. -/
theorem read_eq
    (stores : tree.Stores ordered)
    (id : NodeId)
    {Field : Type}
    (field : Entry Key Value → Field) :
    (do return field (← tree.node id).toEntry) =
      ((ordered.entryAt id).map field).mapError TreeFault.stale := by
  unfold OrderedTree.entryAt
  cases found : ordered.entry? id with
  | none =>
      rw [stores.node_stale found]
      rfl
  | some entry =>
      obtain ⟨branch, read⟩ := stores.node_eq found
      rw [read]
      rfl

section Live

variable (stores : tree.Stores ordered) (live : (ordered.entry? id).isSome)
include stores live

/-- What is in use can be read, with the entry that the tree has there. -/
theorem node_live :
    ∃ entry branch, ordered.entry? id = some entry ∧ tree.node id = .ok ⟨entry, branch⟩ := by
  obtain ⟨entry, found⟩ := Option.isSome_iff_exists.mp live
  obtain ⟨branch, read⟩ := stores.node_eq found
  exact ⟨entry, branch, found, read⟩

/-- A handle that is in use leads to the next node. -/
theorem nextAt_live : tree.nextAt id = .ok (ordered.next? id) := by
  obtain ⟨entry, branch, found, read⟩ := stores.node_live live
  simp only [nextAt, read, OrderedTree.next?, found]
  rfl

/-- A handle that is in use leads to the previous node. -/
theorem previousAt_live : tree.previousAt id = .ok (ordered.previous? id) := by
  obtain ⟨entry, branch, found, read⟩ := stores.node_live live
  simp only [previousAt, read, OrderedTree.previous?, found]
  rfl

end Live

/-! ## Probes -/

section Probes

variable (stores : tree.Stores ordered) (formed : ordered.Formed nodes) (key : Key)
include stores formed

/-- The key of every node of the shape is behind its number. -/
theorem keyed : ∀ item ∈ ordered.shape.toList, tree.keyAt item.1 = .ok item.2 := by
  rw [formed.sequence]
  refine List.forall_mem_map.mpr ?_
  intro node member
  refine (stores.read_eq node.id Entry.key).trans ?_
  rw [← OrderedTree.keyAt, formed.keyAt_eq member]
  rfl

/-- A search in memory goes the way of the search of the tree. -/
theorem search_eq
    {path : Path Key}
    {subtree : Shape Key}
    (descended : ordered.shape.descend (ordered.order key) [] = (path, subtree)) :
    tree.search key = .ok (path.turns, subtree.root?) := by
  have deep : ordered.shape.size ≤ tree.nodes.size := by
    rw [stores.nodes_size, formed.size_shape]
    exact formed.size_le_slots
  rw [search, stores.order_eq, stores.root_eq]
  exact descend_ok stores.holds (stores.keyed formed) deep descended

/-- What is left to tell of a probe is where its search ends. -/
theorem search_cases :
    (∃ path left id found height right,
      ordered.shape.descend (ordered.order key) [] =
          (path, .node left id found height right) ∧
        tree.search key = .ok (path.turns, some id) ∧
        ordered.locate key = .present id) ∨
      ∃ path,
        ordered.shape.descend (ordered.order key) [] = (path, .empty) ∧
          tree.search key = .ok (path.turns, none) ∧
          ordered.locate key = .absent path.below? path.above? := by
  cases descended : ordered.shape.descend (ordered.order key) [] with
  | mk path subtree =>
      have searched := stores.search_eq formed key descended
      cases subtree with
      | empty =>
          exact .inr ⟨path, rfl, searched, by simp [OrderedTree.locate, locate, descended]⟩
      | node left id found height right =>
          exact .inl ⟨path, left, id, found, height, right, rfl, searched,
            by simp [OrderedTree.locate, locate, descended]⟩

/-- A key is found in memory where it is found in the tree. -/
theorem find?_eq : tree.find? key = .ok (ordered.find? key) := by
  rcases stores.search_cases formed key with
    ⟨_, _, _, _, _, _, _, searched, located⟩ | ⟨_, _, searched, located⟩
  · simp only [LinkedTree.find?, searched, ok_bind, OrderedTree.find?, located]
    rfl
  · simp only [LinkedTree.find?, searched, ok_bind, OrderedTree.find?, located]
    rfl

/-- The least key at or above the sought one is found in memory as in the tree. -/
theorem findAtLeast?_eq : tree.findAtLeast? key = .ok (ordered.findAtLeast? key) := by
  rcases stores.search_cases formed key with
    ⟨_, _, _, _, _, _, _, searched, located⟩ | ⟨path, _, searched, located⟩
  · simp only [LinkedTree.findAtLeast?, searched, ok_bind, OrderedTree.findAtLeast?, located]
    rfl
  · simp only [LinkedTree.findAtLeast?, searched, ok_bind, OrderedTree.findAtLeast?, located,
      passed?_left]
    rfl

/-- The greatest key at or below the sought one is found in memory as in the tree. -/
theorem findAtMost?_eq : tree.findAtMost? key = .ok (ordered.findAtMost? key) := by
  rcases stores.search_cases formed key with
    ⟨_, _, _, _, _, _, _, searched, located⟩ | ⟨path, _, searched, located⟩
  · simp only [LinkedTree.findAtMost?, searched, ok_bind, OrderedTree.findAtMost?, located]
    rfl
  · simp only [LinkedTree.findAtMost?, searched, ok_bind, OrderedTree.findAtMost?, located,
      passed?_right]
    rfl

/-- The least key above the sought one is found in memory as in the tree. -/
theorem findAbove?_eq : tree.findAbove? key = .ok (ordered.findAbove? key) := by
  rcases stores.search_cases formed key with
    ⟨_, _, id, _, _, _, _, searched, located⟩ | ⟨path, _, searched, located⟩
  · have live := formed.isSome_of_find? (by rw [OrderedTree.find?, located])
    simp only [LinkedTree.findAbove?, searched, ok_bind, OrderedTree.findAbove?, located]
    exact stores.nextAt_live live
  · simp only [LinkedTree.findAbove?, searched, ok_bind, OrderedTree.findAbove?, located,
      passed?_left]
    rfl

/-- The greatest key below the sought one is found in memory as in the tree. -/
theorem findBelow?_eq : tree.findBelow? key = .ok (ordered.findBelow? key) := by
  rcases stores.search_cases formed key with
    ⟨_, _, id, _, _, _, _, searched, located⟩ | ⟨path, _, searched, located⟩
  · have live := formed.isSome_of_find? (by rw [OrderedTree.find?, located])
    simp only [LinkedTree.findBelow?, searched, ok_bind, OrderedTree.findBelow?, located]
    exact stores.previousAt_live live
  · simp only [LinkedTree.findBelow?, searched, ok_bind, OrderedTree.findBelow?, located,
      passed?_right]
    rfl

theorem contains_eq : tree.contains key = .ok (ordered.contains key) := by
  rw [LinkedTree.contains, stores.find?_eq formed key]
  rfl

theorem get?_eq : tree.get? key = .ok (ordered.get? key) := by
  rw [LinkedTree.get?, stores.find?_eq formed key, ok_bind, OrderedTree.get?]
  cases found : ordered.find? key with
  | none =>
      rfl
  | some id =>
      obtain ⟨entry, branch, isEntry, read⟩ := stores.node_live (formed.isSome_of_find? found)
      simp only [valueAt, read, ok_bind, Option.bind_some, OrderedTree.value?, isEntry]
      rfl

end Probes

end Stores

end LinkedTree

end OrderedIndex

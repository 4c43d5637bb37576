import OrderedIndex.Proofs.Tree.Linked.Search

namespace OrderedIndex

/-!
# Restoring balance in memory

A balanced search tree in memory hangs under a link: its nodes hold a shape with
exact heights, and their keys ascend.  At a node whose two children are such
trees and differ in height by two at most, rebalancing makes one such tree of
all three.  A tree that lost a subtree at the end of a path, and has another one
of nearly the same height to hang there, becomes such a tree on the way back up.
Nothing but branches changes, and those of the nodes of the tree alone.
-/

namespace Shape

variable {Key : Type} {path finalPath : Path Key} {shape subtree : Shape Key}

namespace Path

/-- Hang a subtree at the end of a path and leave every node above it as it is. -/
def fill : Path Key → Shape Key → Shape Key
  | [], subtree => subtree
  | .left id key right :: rest, subtree => fill rest (join subtree id key right)
  | .right left id key :: rest, subtree => fill rest (join left id key subtree)

/-- A filled path has the nodes in front of it, those of the subtree and those behind. -/
theorem toList_fill : (path.fill subtree).toList = path.before ++ subtree.toList ++ path.after := by
  induction path generalizing subtree with
  | nil =>
      simp [fill, before, after]
  | cons step rest inductionHypothesis =>
      cases step with
      | left id key right =>
          simp [fill, inductionHypothesis, before, after]
      | right left id key =>
          simp [fill, inductionHypothesis, before, after]

/-- A path in a balanced shape fits the subtree at its end. -/
theorem fits_of_fill
    (balanced : (path.fill subtree).Balanced) :
    path.Fits subtree.height ∧ subtree.Balanced := by
  induction path generalizing subtree with
  | nil =>
      exact ⟨fits_nil, balanced⟩
  | cons step rest inductionHypothesis =>
      cases step with
      | left id key right =>
          obtain ⟨restFits, subtreeBalanced, rightBalanced, -, near⟩ := inductionHypothesis balanced
          exact ⟨⟨rightBalanced, near, restFits⟩, subtreeBalanced⟩
      | right left id key =>
          obtain ⟨restFits, leftBalanced, subtreeBalanced, -, near⟩ := inductionHypothesis balanced
          exact ⟨⟨leftBalanced, near, restFits⟩, subtreeBalanced⟩

end Path

/-- The path of a search and the subtree at its end make up the shape that was searched. -/
theorem fill_of_descend
    {probe : Key → Ordering}
    (balanced : shape.Balanced)
    (descended : shape.descend probe path = (finalPath, subtree)) :
    finalPath.fill subtree = path.fill shape := by
  induction shape generalizing path with
  | empty =>
      simp only [descend, Prod.mk.injEq] at descended
      obtain ⟨rfl, rfl⟩ := descended
      rfl
  | node left id key height right leftHypothesis rightHypothesis =>
      obtain ⟨leftBalanced, rightBalanced, rfl, -⟩ := balanced
      cases compared : probe key with
      | lt =>
          simp only [descend, compared] at descended
          exact leftHypothesis leftBalanced descended
      | gt =>
          simp only [descend, compared] at descended
          exact rightHypothesis rightBalanced descended
      | eq =>
          simp only [descend, compared, Prod.mk.injEq] at descended
          obtain ⟨rfl, rfl⟩ := descended
          rfl

end Shape

namespace LinkedTree

open Shape

variable
  {Key Value : Type}
  {before tree result : LinkedTree Key Value}
  {id : NodeId}
  {key : Key}
  {link : Option NodeId}
  {items : List (NodeId × Key)}
  {ids : List NodeId}
  {path : Path Key}
  {left right shape old new : Shape Key}

/-- Nodes in memory with the given keys, which ascend. -/
structure Sorted (tree : LinkedTree Key Value) (items : List (NodeId × Key)) : Prop where
  keyAt_eq : ∀ item ∈ items, tree.keyAt item.1 = .ok item.2
  ascending : Order.Ascending tree.order (items.map Prod.snd)

/-- A balanced search tree with exact heights hangs under a link. -/
structure SearchTree
    (tree : LinkedTree Key Value)
    (link : Option NodeId)
    (shape : Shape Key) :
    Prop where
  root_eq : shape.root? = link
  holds : tree.Holds shape
  sorted : tree.Sorted shape.toList
  balanced : shape.Balanced

/-- Two memories have the same entries, and the same nodes but for some. -/
structure Rebranched (ids : List NodeId) (tree result : LinkedTree Key Value) : Prop where
  /-- No key and no value changes, nor does what is before and after a node. -/
  entry_eq :
    ∀ slot,
      (result.node? slot).map LinkedNode.toEntry = (tree.node? slot).map LinkedNode.toEntry
  node?_eq : ∀ slot, slot ∉ ids → result.node? slot = tree.node? slot

/-- A handle leads to a key if the node in its slot has the key. -/
theorem keyAt_eq_ok_iff :
    tree.keyAt id = .ok key ↔ ∃ node, tree.node? id = some node ∧ node.key = key := by
  rw [keyAt, node]
  cases tree.node? id <;> simp [TreeFault.expect, bind, Except.bind, pure, Except.pure]

/-! ## Sorted nodes -/

namespace Sorted

/-- Nodes with ascending keys are distinct. -/
theorem nodup
    [Std.TransCmp tree.order]
    (sorted : tree.Sorted items) :
    (items.map Prod.fst).Nodup := by
  refine List.pairwise_map.mpr ((List.pairwise_map.mp sorted.ascending).imp_of_mem ?_)
  intro earlier later isEarlier isLater before same
  have read := sorted.keyAt_eq earlier isEarlier
  rw [same, sorted.keyAt_eq later isLater, Except.ok.injEq] at read
  have self : tree.order later.2 later.2 = .eq := Std.ReflCmp.compare_self
  rw [← read, self] at before
  cases before

/-- There are no more nodes with ascending keys than slots. -/
theorem length_le
    [Std.TransCmp tree.order]
    (sorted : tree.Sorted items) :
    items.length ≤ tree.nodes.size := by
  have within : items.map Prod.fst ⊆ List.range tree.nodes.size := by
    intro id member
    obtain ⟨item, isItem, rfl⟩ := List.mem_map.mp member
    obtain ⟨node, isNode, -⟩ := keyAt_eq_ok_iff.mp (sorted.keyAt_eq item isItem)
    rw [List.mem_range]
    by_contra outside
    rw [node?, Array.getElem?_eq_none (Nat.le_of_not_lt outside)] at isNode
    cases isNode
  have bound := (List.subperm_of_subset sorted.nodup within).length_le
  rwa [List.length_map, List.length_range] at bound

/-- An arena that is numbered by words has fewer nodes than a longer word counts. -/
theorem length_lt
    [Std.TransCmp tree.order]
    (numbered : tree.nodes.size ≤ UInt32.size)
    (sorted : tree.Sorted items) :
    items.length < UInt64.size :=
  Nat.lt_of_le_of_lt (sorted.length_le.trans numbered) (by decide)

end Sorted

namespace SearchTree

/-- The tree that a memory stores hangs under its topmost link. -/
theorem of_stores
    {ordered : OrderedTree Key Value}
    {nodes : List (TreeNode Key Value)}
    (stores : tree.Stores ordered)
    (represents : ordered.Represents nodes) :
    tree.SearchTree tree.root ordered.shape where
  root_eq := stores.root_eq.symm
  holds := stores.holds
  sorted := by
    refine ⟨stores.keyed represents.toFormed, ?_⟩
    rw [stores.order_eq, represents.sequence, List.map_map]
    exact represents.ascending
  balanced := represents.balanced

/-- A search leaves a path behind that makes up the tree with the subtree at its end. -/
theorem search_fill
    [Std.TransCmp tree.order]
    (searchTree : tree.SearchTree tree.root shape)
    (sought : Key) :
    ∃ (path : Path Key) (subtree : Shape Key),
      tree.search sought = .ok (path.turns, subtree.root?) ∧ path.fill subtree = shape := by
  cases descended : shape.descend (tree.order sought) [] with
  | mk path subtree =>
      refine ⟨path, subtree, ?_, fill_of_descend searchTree.balanced descended⟩
      have deep : shape.size ≤ tree.nodes.size := by
        rw [← length_toList]
        exact searchTree.sorted.length_le
      rw [search, ← searchTree.root_eq]
      exact descend_ok searchTree.holds searchTree.sorted.keyAt_eq deep descended

end SearchTree

/-! ## Branches that change -/

namespace Regrown

theorem order_eq (regrown : Regrown ids tree result) : result.order = tree.order :=
  congrArg OrderedTree.order (regrown.under_eq .empty)

/-- A memory that was regrown differs in branches alone. -/
theorem rebranched (regrown : Regrown ids tree result) : Rebranched ids tree result where
  entry_eq slot := by
    rw [← entry?_under result .empty, regrown.under_eq, entry?_under]
  node?_eq slot stranger := by
    have sameEntry := congrArg (OrderedTree.entry? · slot) (regrown.under_eq .empty)
    have sameBranch := regrown.branch?_eq slot stranger
    simp only [entry?_under] at sameEntry
    unfold branch? at sameBranch
    generalize result.node? slot = now at sameEntry sameBranch ⊢
    generalize tree.node? slot = earlier at sameEntry sameBranch ⊢
    cases now with
    | none =>
        exact (Option.map_eq_none_iff.mp sameEntry.symm).symm
    | some node =>
        obtain ⟨other, rfl, entry_eq⟩ := Option.map_eq_some_iff.mp sameEntry.symm
        obtain ⟨entry, branch⟩ := node
        obtain rfl : other.toEntry = entry := entry_eq
        obtain rfl : branch = other.toBranch := Option.some.inj sameBranch
        rfl

/-- Sorted nodes stay sorted while only branches change. -/
theorem sorted
    (regrown : Regrown ids tree result)
    (sorted : tree.Sorted items) :
    result.Sorted items where
  keyAt_eq item member := by
    obtain ⟨node, isNode, key_eq⟩ := keyAt_eq_ok_iff.mp (sorted.keyAt_eq item member)
    have sameEntry := regrown.rebranched.entry_eq item.1
    rw [isNode] at sameEntry
    obtain ⟨other, isOther, entry_eq⟩ := Option.map_eq_some_iff.mp sameEntry
    exact keyAt_eq_ok_iff.mpr ⟨other, isOther, (congrArg Entry.key entry_eq).trans key_eq⟩
  ascending := by
    rw [regrown.order_eq]
    exact sorted.ascending

end Regrown

/-- What has grown of sorted nodes into a balanced shape is a search tree. -/
theorem Grown.searchTree
    (grown : Grown shape tree result)
    (root_eq : shape.root? = link)
    (sorted : tree.Sorted shape.toList)
    (balanced : shape.Balanced) :
    result.SearchTree link shape :=
  ⟨root_eq, grown.holds, grown.regrown.sorted sorted, balanced⟩

/-! ## One node -/

/-- A node has a search tree on each side, and its key is between theirs. -/
structure Parts
    (tree : LinkedTree Key Value)
    (id : NodeId)
    (node : LinkedNode Key Value)
    (left right : Shape Key) :
    Prop where
  found : tree.node id = .ok node
  leftTree : tree.SearchTree node.left left
  rightTree : tree.SearchTree node.right right
  ascending :
    Order.Ascending tree.order
      ((left.toList ++ (id, node.key) :: right.toList).map Prod.snd)

namespace Parts

variable {node : LinkedNode Key Value}

/-- A node and its two search trees have ascending keys. -/
theorem sorted (parts : tree.Parts id node left right) :
    tree.Sorted (left.toList ++ (id, node.key) :: right.toList) where
  keyAt_eq := by
    have here : tree.keyAt id = .ok node.key :=
      keyAt_eq_ok_iff.mpr ⟨node, node_eq_ok_iff.mp parts.found, rfl⟩
    rw [List.forall_mem_append, List.forall_mem_cons]
    exact ⟨parts.leftTree.sorted.keyAt_eq, here, parts.rightTree.sorted.keyAt_eq⟩
  ascending := parts.ascending

/-- A node and its two search trees make up a shape that the memory holds. -/
theorem holds (parts : tree.Parts id node left right) :
    tree.Holds (.node left id node.key node.height right) := by
  refine ⟨?_, parts.leftTree.holds, parts.rightTree.holds⟩
  rw [branch?, node_eq_ok_iff.mp parts.found, parts.leftTree.root_eq, parts.rightTree.root_eq]
  rfl

theorem rebalanced
    (parts : tree.Parts id node left right)
    (leftBound : left.height ≤ right.height + 2)
    (rightBound : right.height ≤ left.height + 2) :
    Rebalanced left right (Shape.rebalance left id node.key right) :=
  Shape.rebalanced parts.leftTree.balanced parts.rightTree.balanced leftBound rightBound

/-- A node whose children differ in height by two at most becomes a search tree. -/
theorem rebalance_ok
    [Std.TransCmp tree.order]
    (numbered : tree.nodes.size ≤ UInt32.size)
    (parts : tree.Parts id node left right)
    (leftBound : left.height ≤ right.height + 2)
    (rightBound : right.height ≤ left.height + 2) :
    ∃ root result,
      tree.rebalance id = .ok (root, result) ∧
        result.SearchTree (some root) (Shape.rebalance left id node.key right) ∧
          Rebranched (Shape.rebalance left id node.key right).ids tree result := by
  have small := parts.sorted.length_lt numbered
  rw [List.length_append, List.length_cons, length_toList, length_toList] at small
  obtain ⟨root, result, result_eq, root_eq, grown⟩ :=
    rebalanceBy_ok HeightArithmetic.exact_bytes parts.holds parts.sorted.nodup
      parts.leftTree.balanced parts.rightTree.balanced leftBound rightBound
      (parts.leftTree.balanced.low (by omega)) (parts.rightTree.balanced.low (by omega))
  have balanced := (parts.rebalanced leftBound rightBound).balanced
  have sorted : tree.Sorted (Shape.rebalance left id node.key right).toList := by
    rw [toList_rebalance]
    exact parts.sorted
  exact ⟨root, result, result_eq, grown.searchTree root_eq sorted balanced,
    grown.regrown.rebranched⟩

end Parts

/-! ## A path -/

/--
A search tree was left by a path, of which everything but the subtree at its end
is as it was, and another subtree of nearly the same height is to hang there.
-/
structure Awaiting
    (before tree : LinkedTree Key Value)
    (path : Path Key)
    (old new : Shape Key)
    (link : Option NodeId) :
    Prop where
  whole : before.SearchTree before.root (path.fill old)
  node?_eq : ∀ slot ∈ path.ids, tree.node? slot = before.node? slot
  subtree : tree.SearchTree link new
  near : Near new.height old.height
  ascending :
    Order.Ascending tree.order ((path.before ++ new.toList ++ path.after).map Prod.snd)

/-- What a filled path leaves behind waits for a subtree. -/
theorem awaits_of_fill
    {subtree : Shape Key}
    (holds : tree.Holds (path.fill subtree)) :
    tree.Awaits path ∧ tree.Holds subtree := by
  induction path generalizing subtree with
  | nil =>
      exact ⟨awaits_nil, holds⟩
  | cons step rest inductionHypothesis =>
      cases step with
      | left id key right =>
          obtain ⟨restAwaits, here, holdsSubtree, holdsRight⟩ := inductionHypothesis holds
          exact ⟨⟨⟨_, _, here⟩, holdsRight, restAwaits⟩, holdsSubtree⟩
      | right left id key =>
          obtain ⟨restAwaits, here, holdsLeft, holdsSubtree⟩ := inductionHypothesis holds
          exact ⟨⟨⟨_, _, here⟩, holdsLeft, restAwaits⟩, holdsSubtree⟩

namespace Awaiting

/-- What waits for a subtree has ascending keys with the subtree in its place. -/
theorem sorted (awaiting : Awaiting before tree path old new link) :
    tree.Sorted (path.before ++ new.toList ++ path.after) where
  keyAt_eq := by
    have kept : ∀ item ∈ path.before ++ path.after, tree.keyAt item.1 = .ok item.2 := by
      intro item isKept
      have isWhole : item ∈ (path.fill old).toList := by
        rw [Path.toList_fill]
        simp only [List.mem_append, or_assoc] at isKept ⊢
        exact isKept.imp_right .inr
      rw [keyAt_eq_ok_iff, awaiting.node?_eq item.1 (List.mem_map_of_mem isKept),
        ← keyAt_eq_ok_iff]
      exact awaiting.whole.sorted.keyAt_eq item isWhole
    obtain ⟨inFront, behind⟩ := List.forall_mem_append.mp kept
    simp only [List.forall_mem_append]
    exact ⟨⟨inFront, awaiting.subtree.sorted.keyAt_eq⟩, behind⟩
  ascending := awaiting.ascending

/-- A path that a search tree was left by waits for a subtree. -/
theorem awaits (awaiting : Awaiting before tree path old new link) : tree.Awaits path := by
  refine (awaits_of_fill awaiting.whole.holds).1.congr ?_
  intro slot isPath
  rw [branch?, awaiting.node?_eq slot isPath, branch?]

/-- What waits for a subtree becomes a search tree with the subtree in its place. -/
theorem retrace_ok
    [Std.TransCmp tree.order]
    (numbered : tree.nodes.size ≤ UInt32.size)
    (awaiting : Awaiting before tree path old new link) :
    ∃ result,
      tree.retrace path.turns link = .ok result ∧
        result.SearchTree result.root (path.retrace new) ∧
          Rebranched (path.retrace new).ids tree result := by
  have sorted : tree.Sorted (path.retrace new).toList := by
    rw [Path.toList_retrace]
    exact awaiting.sorted
  have small := sorted.length_lt numbered
  rw [length_toList] at small
  obtain ⟨fits, -⟩ := Path.fits_of_fill awaiting.whole.balanced
  have balanced := Path.retrace_balanced fits awaiting.subtree.balanced awaiting.near
  obtain ⟨climbed, climbed_eq, grown⟩ :=
    climbBy_ok HeightArithmetic.exact_bytes awaiting.awaits awaiting.subtree.holds sorted.nodup
      fits awaiting.subtree.balanced awaiting.near small
  rw [awaiting.subtree.root_eq] at climbed_eq
  have searchTree := grown.searchTree rfl sorted balanced
  refine ⟨{ climbed with root := (path.retrace new).root? }, ?_, ?_, ?_⟩
  · rw [retrace, retraceBy, climbed_eq]
    rfl
  · exact ⟨rfl, searchTree.holds.congr fun _ _ => rfl, ⟨searchTree.sorted.keyAt_eq,
      searchTree.sorted.ascending⟩, balanced⟩
  · exact ⟨grown.regrown.rebranched.entry_eq, grown.regrown.rebranched.node?_eq⟩

end Awaiting

/--
Rebalancing makes one search tree of a node and its children, as high as they are
or one level lower than the node above them, and keeps the sequence of the nodes.
A path, such as every search leaves, that waits for a subtree of nearly the old
height becomes a search tree in which the new subtree's sequence has replaced the
old one's.
-/
theorem restores_balance
    [Std.TransCmp tree.order]
    (numbered : tree.nodes.size ≤ UInt32.size) :
    (∀ id node left right,
      tree.Parts id node left right →
      left.height ≤ right.height + 2 →
      right.height ≤ left.height + 2 →
      ∃ root result shape,
        tree.rebalance id = .ok (root, result) ∧
          result.SearchTree (some root) shape ∧
          shape.toList = left.toList ++ (id, node.key) :: right.toList ∧
          (shape.height = 1 + max left.height right.height ∨
            shape.height + 1 = 1 + max left.height right.height) ∧
          Rebranched shape.ids tree result) ∧
    (∀ shape sought,
      tree.SearchTree tree.root shape →
      ∃ (path : Path Key) (subtree : Shape Key),
        tree.search sought = .ok (path.turns, subtree.root?) ∧ path.fill subtree = shape) ∧
    ∀ before path old new link,
      Awaiting before tree path old new link →
      ∃ result shape,
        tree.retrace path.turns link = .ok result ∧
          result.SearchTree result.root shape ∧
          (path.fill old).toList = path.before ++ old.toList ++ path.after ∧
          shape.toList = path.before ++ new.toList ++ path.after ∧
          Rebranched shape.ids tree result := by
  refine ⟨?_, fun shape sought searchTree => searchTree.search_fill sought, ?_⟩
  · intro id node left right parts leftBound rightBound
    obtain ⟨root, result, result_eq, searchTree, rebranched⟩ :=
      parts.rebalance_ok numbered leftBound rightBound
    have rebalanced := parts.rebalanced leftBound rightBound
    have upper := rebalanced.height_le
    have lower := rebalanced.le_height
    exact ⟨root, result, _, result_eq, searchTree, toList_rebalance .., by omega, rebranched⟩
  · intro before path old new link awaiting
    obtain ⟨result, result_eq, searchTree, rebranched⟩ := awaiting.retrace_ok numbered
    exact ⟨result, _, result_eq, searchTree, Path.toList_fill, Path.toList_retrace .., rebranched⟩

/-- Two keys, of which the second is on top. -/
def pair : LinkedTree Nat Char where
  order := .natural
  nodes := #[
    none,
    some ⟨⟨20, 'b', none, some 2⟩, .leaf⟩,
    some ⟨⟨30, 'c', some 1, none⟩, ⟨some 1, none, 2⟩⟩]
  free := [0]
  root := some 2
  first := some 1
  last := some 2
  size := 2

/-- The two keys with a third one under them, and the height on top not yet renewed. -/
def row : LinkedTree Nat Char where
  order := .natural
  nodes := #[
    some ⟨⟨10, 'a', none, some 1⟩, .leaf⟩,
    some ⟨⟨20, 'b', some 0, some 2⟩, ⟨some 0, none, 2⟩⟩,
    some ⟨⟨30, 'c', some 1, none⟩, ⟨some 1, none, 2⟩⟩]
  free := []
  root := some 2
  first := some 0
  last := some 2
  size := 3

/-- A row is turned at its top, and so is a pair whose lower node became higher. -/
theorem restores_balance_row :
    let lower : Shape Nat := join (single 0 10) 1 20 .empty
    let path : Path Nat := [.left 2 30 .empty]
    row.nodes.size ≤ UInt32.size ∧
      row.Parts 2 ⟨⟨30, 'c', some 1, none⟩, ⟨some 1, none, 2⟩⟩ lower .empty ∧
      (∃ root result shape,
        row.rebalance 2 = .ok (root, result) ∧
          result.SearchTree (some root) shape ∧
          shape.toList = [(0, 10), (1, 20), (2, 30)] ∧
          Rebranched shape.ids row result) ∧
      Awaiting pair row path (single 1 20) lower (some 1) ∧
      ∃ result shape,
        row.retrace path.turns (some 1) = .ok result ∧
          result.SearchTree result.root shape ∧
          shape.toList = [(0, 10), (1, 20), (2, 30)] ∧
          Rebranched shape.ids row result := by
  intro lower path
  have lawful : Std.TransCmp row.order :=
    inferInstanceAs (Std.TransCmp (compare : Nat → Nat → Ordering))
  have numbered : row.nodes.size ≤ UInt32.size := by
    decide
  have lowerTree : row.SearchTree (some 1) lower := by
    refine ⟨rfl, ⟨rfl, ⟨rfl, trivial, trivial⟩, trivial⟩, ⟨by decide, ?_⟩, ?_⟩
    · exact List.pairwise_pair.mpr rfl
    · simp [lower, single, Shape.Balanced, Near, join]
  have emptyTree : row.SearchTree none .empty :=
    ⟨rfl, trivial, ⟨by decide, .nil⟩, trivial⟩
  have ascending : Order.Ascending row.order [10, 20, 30] := by
    rw [Order.Ascending]
    decide
  have parts : row.Parts 2 ⟨⟨30, 'c', some 1, none⟩, ⟨some 1, none, 2⟩⟩ lower .empty :=
    ⟨rfl, lowerTree, emptyTree, ascending⟩
  have wholeTree : pair.SearchTree pair.root (path.fill (single 1 20)) := by
    refine ⟨rfl, ⟨rfl, ⟨rfl, trivial, trivial⟩, trivial⟩, ⟨by decide, ?_⟩, ?_⟩
    · exact List.pairwise_pair.mpr rfl
    · simp [path, Path.fill, single, Shape.Balanced, Near, join]
  have awaiting : Awaiting pair row path (single 1 20) lower (some 1) :=
    ⟨wholeTree, by decide, lowerTree, ⟨by decide, by decide⟩, ascending⟩
  obtain ⟨root, turned, shape, turned_eq, searchTree, sequence, -, rebranched⟩ :=
    (restores_balance numbered).1 2 _ lower .empty parts (by decide) (by decide)
  obtain ⟨result, whole, result_eq, resultTree, -, wholeSequence, resultRebranched⟩ :=
    (restores_balance numbered).2.2 pair path (single 1 20) lower (some 1) awaiting
  exact ⟨numbered, parts, ⟨root, turned, shape, turned_eq, searchTree, sequence, rebranched⟩,
    awaiting, result, whole, result_eq, resultTree, wholeSequence, resultRebranched⟩

end LinkedTree

end OrderedIndex

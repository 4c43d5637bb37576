import OrderedIndex.Proofs.Tree.Linked.Search

namespace OrderedIndex

/-!
# Merging the children of a node in memory

The node that follows a removed one with two children is the leftmost of its
right subtree.  The way there is the left spine, which is climbed again once the
leftmost node has given its right child to its parent; then the leftmost node
takes both subtrees as its children.
-/

open Shape

namespace Shape

variable {Key : Type}

namespace Path

theorem retrace_append (path above : Path Key) (subtree : Shape Key) :
    (path ++ above).retrace subtree = above.retrace (path.retrace subtree) := by
  induction path generalizing subtree with
  | nil =>
      rfl
  | cons step rest inductionHypothesis =>
      cases step with
      | left id key right =>
          exact inductionHypothesis _
      | right left id key =>
          exact inductionHypothesis _

end Path

variable {shape left right rest : Shape Key} {id least : NodeId} {key leastKey : Key}

/-! ## The leftmost node -/

theorem ids_of_popFirst? (popped : shape.popFirst? = some ((least, leastKey), rest)) :
    shape.ids = least :: rest.ids := by
  rw [ids, toList_of_popFirst? popped]
  rfl

theorem size_of_popFirst? (popped : shape.popFirst? = some ((least, leastKey), rest)) :
    shape.size = rest.size + 1 := by
  rw [← length_ids, ids_of_popFirst? popped, List.length_cons, length_ids]

/-- Two shapes with nodes are merged under the leftmost node of the right one. -/
theorem exists_merge_eq_rebalance
    (leftNode : left ≠ .empty)
    (rightNode : right ≠ .empty) :
    ∃ least leastKey rest,
      right.popFirst? = some ((least, leastKey), rest) ∧
        merge left right = rebalance left least leastKey rest := by
  cases popped : right.popFirst? with
  | none =>
      exact (rightNode (popFirst?_eq_none.mp popped)).elim
  | some result =>
      refine ⟨result.1.1, result.1.2, result.2, rfl, ?_⟩
      cases left with
      | empty =>
          contradiction
      | node =>
          exact merge_node_popped popped

theorem ids_merge : (merge left right).ids = left.ids ++ right.ids := by
  simp [ids]

theorem size_merge : (merge left right).size = left.size + right.size := by
  rw [← length_ids, ids_merge, List.length_append, length_ids, length_ids]

/-- What is left of distinct numbers without the one between two children. -/
theorem nodup_ids_merge {height : Nat} {others : List NodeId} :
    ((node left id key height right).ids ++ others).Nodup ↔
      id ∉ (merge left right).ids ++ others ∧ ((merge left right).ids ++ others).Nodup := by
  rw [ids_node, ids_merge, List.append_assoc, List.cons_append, List.nodup_middle,
    List.nodup_cons, List.append_assoc]

/-- The comparison that always leads to the left. -/
def leftward (_ : Key) : Ordering := .lt

/-- The leftmost node is at the end of the left spine, which is what is retraced without it. -/
theorem exists_spine
    (left : Shape Key)
    (id : NodeId)
    (key : Key)
    (height : Nat)
    (right : Shape Key) :
    ∃ path least leastKey rest,
      (node left id key height right).popFirst? =
          some ((least, leastKey), Path.retrace path rest) ∧
        ∀ above,
          (node left id key height right).descend leftward above =
            (.left least leastKey rest :: (path ++ above), .empty) := by
  induction left generalizing id key height right with
  | empty =>
      exact ⟨[], id, key, right, rfl, fun _ => rfl⟩
  | node outer pivot pivotKey pivotHeight inner outerHypothesis innerHypothesis =>
      obtain ⟨path, least, leastKey, rest, popped, descends⟩ :=
        outerHypothesis pivot pivotKey pivotHeight inner
      refine ⟨path ++ [.left id key right], least, leastKey, rest, ?_, ?_⟩
      · rw [popFirst?, popped, Path.retrace_append]
        rfl
      · intro above
        rw [List.append_assoc]
        exact descends (.left id key right :: above)

end Shape

namespace LinkedTree

variable
  {Key Value : Type}
  {arithmetic : HeightArithmetic}
  {tree : LinkedTree Key Value}
  {left right rest : Shape Key}
  {path above : Path Key}
  {id least : NodeId}
  {key leastKey : Key}
  {height : Nat}

/-- The walk down the left spine reaches the leftmost node. -/
theorem spineTo_ok
    {fuel : Nat}
    (holds : tree.Holds (.node left id key height right))
    (distinct : (Shape.node left id key height right).ids.Nodup)
    (deep : left.size < fuel)
    (descended :
      (Shape.node left id key height right).descend leftward above =
        (.left least leastKey rest :: path, .empty)) :
    tree.spineTo least fuel above.turns id = .ok path.turns := by
  induction left generalizing id key height right above fuel with
  | empty =>
      simp only [Shape.descend, leftward, Prod.mk.injEq, List.cons.injEq, Step.left.injEq,
        and_true] at descended
      obtain ⟨⟨rfl, -, -⟩, rfl⟩ := descended
      unfold spineTo
      rw [if_pos rfl]
  | node outer pivot pivotKey pivotHeight inner outerHypothesis innerHypothesis =>
      obtain ⟨here, holdsLeft, -⟩ := holds
      obtain ⟨node, read, parts⟩ := node_of_branch? here
      obtain ⟨leftDistinct, -, idLeft, -, -⟩ := nodup_ids_node.mp distinct
      obtain ⟨spine, lowest, lowestKey, others, popped, descends⟩ :=
        exists_spine outer pivot pivotKey pivotHeight inner
      have atEnd := (descends (.left id key right :: above)).symm.trans descended
      simp only [Prod.mk.injEq, List.cons.injEq, Step.left.injEq, and_true] at atEnd
      obtain ⟨⟨rfl, -, -⟩, -⟩ := atEnd
      have different : id ≠ lowest := by
        rintro rfl
        refine idLeft ?_
        rw [ids_of_popFirst? popped]
        exact List.mem_cons_self
      rw [Shape.size] at deep
      obtain ⟨less, rfl⟩ : ∃ less, fuel = less + 1 := ⟨fuel - 1, by omega⟩
      rw [spineTo, if_neg different, read, ok_bind, parts]
      exact outerHypothesis holdsLeft leftDistinct (by omega) descended

/-- The leftmost node of a subtree is found, and the rest of the subtree rebalanced. -/
theorem detachBy_ok
    (precise : arithmetic.Exact)
    {shape : Shape Key}
    {root : NodeId}
    (root_eq : shape.root? = some root)
    (holds : tree.Holds shape)
    (distinct : shape.ids.Nodup)
    (balanced : shape.Balanced)
    (small : shape.size < UInt64.size)
    (deep : shape.size ≤ tree.nodes.size)
    (popped : shape.popFirst? = some ((least, leastKey), rest)) :
    ∃ spine node detached,
      tree.spineTo least tree.nodes.size [] root = .ok spine ∧
        tree.node least = .ok node ∧
          tree.climbBy arithmetic spine node.right = .ok (rest.root?, detached) ∧
            Grown rest tree detached ∧ detached.branch? least = some node.toBranch := by
  have size_eq := size_of_popFirst? popped
  obtain ⟨leastRest, restDistinct⟩ := List.nodup_cons.mp (ids_of_popFirst? popped ▸ distinct)
  cases shape with
  | empty =>
      contradiction
  | node left id key height right =>
      cases Option.some.inj root_eq
      rw [Shape.size] at deep
      obtain ⟨path, lowest, lowestKey, subtree, lowestPopped, descends⟩ :=
        exists_spine left root key height right
      rw [lowestPopped, Option.some.injEq, Prod.mk.injEq, Prod.mk.injEq] at popped
      obtain ⟨⟨rfl, rfl⟩, rfl⟩ := popped
      have descended := descends []
      rw [List.append_nil] at descended
      have reached : tree.spineTo lowest tree.nodes.size [] root = .ok path.turns :=
        spineTo_ok holds distinct (by omega) descended
      obtain ⟨⟨⟨_, _, found⟩, holdsSubtree, awaits⟩, -⟩ :=
        awaits_of_descend holds awaits_nil descended
      obtain ⟨⟨subtreeBalanced, -, fits⟩, -⟩ := descend_fits Path.fits_nil balanced descended
      obtain ⟨node, read, parts⟩ := node_of_branch? found
      have near :
          Near subtree.height (1 + max (Shape.empty : Shape Key).height subtree.height) := by
        simp only [Near, height_empty]
        omega
      obtain ⟨detached, climbed, grown⟩ :=
        climbBy_ok precise awaits holdsSubtree restDistinct fits subtreeBalanced near (by omega)
      refine ⟨path.turns, node, detached, reached, read, ?_, grown, ?_⟩
      · rw [parts]
        exact climbed
      · rw [grown.regrown.branch?_eq _ leastRest, found, parts]

/-- Two children are merged under the leftmost node of the right one. -/
theorem mergeBy_two
    (precise : arithmetic.Exact)
    {node : LinkedNode Key Value}
    {leftRoot rightRoot : NodeId}
    (leftRoot_eq : left.root? = some leftRoot)
    (rightRoot_eq : right.root? = some rightRoot)
    (left_eq : node.left = left.root?)
    (right_eq : node.right = right.root?)
    (next_eq : node.next = right.ids.head?)
    (holdsLeft : tree.Holds left)
    (holdsRight : tree.Holds right)
    (distinct : (left.ids ++ right.ids).Nodup)
    (leftBalanced : left.Balanced)
    (rightBalanced : right.Balanced)
    (near : Near left.height right.height)
    (leftSmall : left.size < UInt64.size)
    (rightSmall : right.size < UInt64.size)
    (deep : right.size ≤ tree.nodes.size) :
    ∃ result,
      tree.mergeBy arithmetic node = .ok ((Shape.merge left right).root?, result) ∧
        Grown (Shape.merge left right) tree result := by
  obtain ⟨least, leastKey, rest, popped, merged⟩ :=
    exists_merge_eq_rebalance
      (by rintro rfl; contradiction : left ≠ .empty) (by rintro rfl; contradiction : right ≠ .empty)
  have rightIds := ids_of_popFirst? popped
  have restSize := size_of_popFirst? popped
  obtain ⟨leftDistinct, rightDistinct, apart⟩ := List.nodup_append.mp distinct
  obtain ⟨leastRest, restDistinct⟩ := List.nodup_cons.mp (rightIds ▸ rightDistinct)
  rw [rightIds] at apart next_eq
  have leastLeft : least ∉ left.ids := by
    intro member
    exact apart least member least List.mem_cons_self rfl
  have notRest (other : NodeId) (member : other ∈ left.ids) : other ∉ rest.ids := by
    intro isRest
    exact apart other member other (List.mem_cons_of_mem least isRest) rfl
  obtain ⟨leftBound, rightBound⟩ := near
  obtain ⟨restBalanced, restUpper, restLower⟩ := popFirst?_balanced rightBalanced popped
  -- The next node is the leftmost one of the right child, and the rest is rebalanced.
  obtain ⟨spine, leastNode, detached, spine_eq, read, detached_eq, detachedGrown, stays⟩ :=
    detachBy_ok precise rightRoot_eq holdsRight rightDistinct rightBalanced rightSmall deep popped
  have leftStays := detachedGrown.regrown.holds holdsLeft notRest
  -- It takes the left child, then what is left of the right one.
  obtain ⟨leftHung, leftHung_eq, leftFrame, leftThere⟩ :=
    hang_branch stays .left left.root?
  obtain ⟨bothHung, bothHung_eq, bothFrame, holdsBoth⟩ :=
    hang_ok .right leftThere (leftFrame.holds leftStays (by grind))
      (leftFrame.holds detachedGrown.holds (by grind)) leastLeft leastRest leastKey
  have bothDistinct :
      (Shape.node left least leastKey leastNode.height rest).ids.Nodup :=
    nodup_ids_node.mpr ⟨leftDistinct, restDistinct, leastLeft, leastRest, notRest⟩
  obtain ⟨root, result, rebalanced, root_eq, grown⟩ :=
    rebalanceBy_ok precise holdsBoth bothDistinct leftBalanced restBalanced (by omega) (by omega)
      (leftBalanced.low leftSmall) (restBalanced.low (by omega))
  rw [merged]
  refine ⟨result, ?_, ?_, grown.holds⟩
  · rw [leftRoot_eq] at left_eq leftHung_eq
    rw [rightRoot_eq] at right_eq
    simp only [LinkedTree.mergeBy, left_eq, right_eq, next_eq, List.head?_cons, TreeFault.expect,
      ok_bind, spine_eq, read, detached_eq, leftHung_eq, bothHung_eq, rebalanced, root_eq]
    rfl
  · have within : ∀ other, other = least ∨ other ∈ rest.ids →
        other ∈ (Shape.rebalance left least leastKey rest).ids := by
      intro other member
      rw [ids_rebalance, List.mem_append, List.mem_cons]
      exact .inr member
    exact (((detachedGrown.regrown.mono (by grind)).trans (leftFrame.mono (by grind))).trans
      (bothFrame.mono (by grind))).trans grown.regrown

/-- The children of a node can be merged, if the node's next one is the first of the right. -/
theorem mergeBy_ok
    (precise : arithmetic.Exact)
    {node : LinkedNode Key Value}
    (parts : node.toBranch = ⟨left.root?, right.root?, height⟩)
    (next_eq : right.ids ≠ [] → node.next = right.ids.head?)
    (holdsLeft : tree.Holds left)
    (holdsRight : tree.Holds right)
    (distinct : (Shape.merge left right).ids.Nodup)
    (leftBalanced : left.Balanced)
    (rightBalanced : right.Balanced)
    (near : Near left.height right.height)
    (small : (Shape.merge left right).size < UInt64.size)
    (deep : right.size ≤ tree.nodes.size) :
    ∃ result,
      tree.mergeBy arithmetic node = .ok ((Shape.merge left right).root?, result) ∧
        Grown (Shape.merge left right) tree result := by
  rw [ids_merge] at distinct
  rw [size_merge] at small
  have left_eq : node.left = left.root? := by rw [parts]
  have right_eq : node.right = right.root? := by rw [parts]
  cases left with
  | empty =>
      rw [merge_empty_left]
      refine ⟨tree, ?_, .refl _ tree, holdsRight⟩
      unfold LinkedTree.mergeBy
      rw [left_eq, right_eq]
      cases right <;> rfl
  | node outer pivot pivotKey pivotHeight inner =>
      cases right with
      | empty =>
          rw [merge_node_empty]
          refine ⟨tree, ?_, .refl _ tree, holdsLeft⟩
          unfold LinkedTree.mergeBy
          rw [left_eq, right_eq]
          rfl
      | node nearer root rootKey rootHeight farther =>
          exact mergeBy_two precise rfl rfl left_eq right_eq (next_eq (by simp [Shape.ids]))
            holdsLeft holdsRight distinct leftBalanced rightBalanced near (by omega) (by omega) deep

end LinkedTree

end OrderedIndex

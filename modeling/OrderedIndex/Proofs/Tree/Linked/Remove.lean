import OrderedIndex.Proofs.Tree.Linked.Insert
import OrderedIndex.Proofs.Tree.Linked.Merge

namespace OrderedIndex

/-!
# Removal in memory

A removal merges the children of the node that the search finds, frees the
node's slot, lets its neighbours name each other and hangs the merged subtree at
the end of the search.
-/

open Shape

namespace OrderedTree

variable {Key Value : Type} {tree : OrderedTree Key Value}

theorem size_relink (before after next previous : Option NodeId) :
    ((tree.linkNext before next).linkPrevious after previous).size = tree.size := by
  cases before <;> cases after <;> rfl

end OrderedTree

namespace LinkedTree

variable
  {Key Value : Type}
  {arithmetic : HeightArithmetic}
  {tree : LinkedTree Key Value}
  {ordered : OrderedTree Key Value}
  {nodes : List (TreeNode Key Value)}

/-- Where a search has found a node, the chain around the node is that of the shape. -/
theorem exists_chain_of_descend
    (formed : ordered.Formed nodes)
    {probe : Key → Ordering}
    {path : Path Key}
    {left right : Shape Key}
    {id : NodeId}
    {key : Key}
    {height : Nat}
    (descended : ordered.shape.descend probe [] = (path, .node left id key height right)) :
    ∃ below node above,
      nodes = below ++ node :: above ∧
        node.id = id ∧ (right.ids ≠ [] → TreeNode.firstOr none above = right.ids.head?) := by
  have sequence :
      nodes.map TreeNode.keyed =
        (path.before ++ left.toList) ++ (id, key) :: (right.toList ++ path.after) := by
    rw [← formed.sequence]
    simpa [Path.before, Path.after] using toList_of_descend descended
  obtain ⟨below, node, above, nodes_eq, -, found, behind⟩ :=
    TreeNode.exists_split_of_map sequence
  refine ⟨below, node, above, nodes_eq, congrArg Prod.fst found, ?_⟩
  intro more
  have ids_eq : above.map TreeNode.id = right.ids ++ path.after.map Prod.fst := by
    rw [Shape.ids, ← List.map_append, ← behind, List.map_map]
    rfl
  rw [TreeNode.firstOr_none, ← List.head?_map, ids_eq, List.head?_append_of_ne_nil _ more]

/-- A node whose slot is freed is taken out of the chain by its neighbours. -/
theorem release_relink
    {id : NodeId}
    {entry : Entry Key Value}
    {branch : Branch}
    (entry_eq : ordered.entry? id = some entry)
    (under_eq : tree.under ordered.shape = ordered)
    (branch_eq : tree.branch? id = some branch)
    (previousLeads : ordered.Leads entry.previous ∧ entry.previous ≠ some id)
    (nextLeads : ordered.Leads entry.next ∧ entry.next ≠ some id) :
    ∃ released followed linked,
      tree.release id = .ok (⟨entry, branch⟩, released) ∧
        released.linkNext entry.previous entry.next = .ok followed ∧
          followed.linkPrevious entry.next entry.previous = .ok linked ∧
            linked.under ordered.shape =
                ((ordered.release id).linkNext entry.previous entry.next).linkPrevious
                  entry.next entry.previous ∧
              ∀ other, other ≠ id → linked.branch? other = tree.branch? other := by
  obtain ⟨released, released_eq, releasedUnder, releasedBranch⟩ :=
    release_ok (node_of_parts (under_eq.symm ▸ entry_eq) branch_eq)
  have released_under : released.under ordered.shape = ordered.release id := by
    rw [releasedUnder, under_eq]
  have stillLeads (link : Option NodeId) (leads : ordered.Leads link ∧ link ≠ some id) :
      (released.under ordered.shape).Leads link := by
    rintro other rfl
    have different : id ≠ other := fun same => leads.2 (same ▸ rfl)
    rw [released_under, OrderedTree.entry?_release, Slots.assign_other _ different]
    exact leads.1 other rfl
  obtain ⟨followed, linked, followed_eq, linked_eq, rechained⟩ :=
    relink_ok entry.previous entry.next entry.next entry.previous
      (stillLeads entry.previous previousLeads) (stillLeads entry.next nextLeads)
  refine ⟨released, followed, linked, released_eq, followed_eq, linked_eq, ?_, ?_⟩
  · rw [rechained.under_eq, released_under]
  · intro other different
    rw [rechained.branch?_eq, releasedBranch other different]

/--
The children of a node are merged, then its slot is freed and its neighbours name
each other.  Its own links stay as they are until then.
-/
theorem exciseBy_ok
    (precise : arithmetic.Exact)
    {below above : List (TreeNode Key Value)}
    {node : TreeNode Key Value}
    {entry : Entry Key Value}
    {left right : Shape Key}
    {height : Nat}
    (stores : tree.Stores ordered)
    (formed : ordered.Formed (below ++ node :: above))
    (entry_eq :
      entry = ⟨node.key, node.value, TreeNode.lastOr none below, TreeNode.firstOr none above⟩)
    (here : tree.branch? node.id = some ⟨left.root?, right.root?, height⟩)
    (next_eq : right.ids ≠ [] → entry.next = right.ids.head?)
    (holdsLeft : tree.Holds left)
    (holdsRight : tree.Holds right)
    (stranger : node.id ∉ (Shape.merge left right).ids)
    (distinct : (Shape.merge left right).ids.Nodup)
    (leftBalanced : left.Balanced)
    (rightBalanced : right.Balanced)
    (near : Near left.height right.height)
    (small : (Shape.merge left right).size < UInt64.size)
    (deep : right.size ≤ ordered.slots.size) :
    ∃ merged released followed linked,
      let removed : LinkedNode Key Value := ⟨entry, ⟨left.root?, right.root?, height⟩⟩
      tree.node node.id = .ok removed ∧
        tree.mergeBy arithmetic removed = .ok ((Shape.merge left right).root?, merged) ∧
          merged.release node.id = .ok (removed, released) ∧
            released.linkNext entry.previous entry.next = .ok followed ∧
              followed.linkPrevious entry.next entry.previous = .ok linked ∧
                linked.under ordered.shape =
                    ((ordered.release node.id).linkNext entry.previous entry.next).linkPrevious
                      entry.next entry.previous ∧
                  linked.Holds (Shape.merge left right) ∧
                    ∀ other,
                      other ≠ node.id →
                      other ∉ (Shape.merge left right).ids →
                      linked.branch? other = tree.branch? other := by
  have found : ordered.entry? node.id = some entry := by
    rw [entry_eq, formed.entry?_eq rfl]
  obtain ⟨merged, merged_eq, grown⟩ :
      ∃ merged,
        tree.mergeBy arithmetic ⟨entry, ⟨left.root?, right.root?, height⟩⟩ =
            .ok ((Shape.merge left right).root?, merged) ∧
          Grown (Shape.merge left right) tree merged :=
    mergeBy_ok precise rfl next_eq holdsLeft holdsRight distinct leftBalanced rightBalanced near
      small (stores.nodes_size ▸ deep)
  have merged_under : merged.under ordered.shape = ordered := by
    rw [grown.regrown.under_eq, stores.under_eq]
  obtain ⟨released, followed, linked, released_eq, followed_eq, linked_eq, linkedUnder, stays⟩ :=
    release_relink found merged_under
      ((grown.regrown.branch?_eq node.id stranger).trans here)
      (entry_eq ▸ formed.leads_around.1) (entry_eq ▸ formed.leads_around.2)
  refine ⟨merged, released, followed, linked, node_of_parts (stores.under_eq.symm ▸ found) here,
    merged_eq, released_eq, followed_eq, linked_eq, linkedUnder, ?_, ?_⟩
  · refine grown.holds.congr fun other member => stays other ?_
    rintro rfl
    exact stranger member
  · intro other different outside
    rw [stays other different, grown.regrown.branch?_eq other outside]

/-- A removal in memory runs to its end and stores what a removal leaves. -/
theorem Stores.removeBy_ok
    (precise : arithmetic.Exact)
    (stores : tree.Stores ordered)
    (formed : ordered.Formed nodes)
    (small : ordered.size < UInt64.size)
    (key : Key) :
    ∃ result,
      tree.removeBy arithmetic key = .ok ((ordered.remove key).1, result) ∧
        result.Stores (ordered.remove key).2 := by
  rcases stores.search_cases formed key with
    ⟨path, left, id, found, height, right, descended, searched, located⟩ |
      ⟨path, _, searched, located⟩
  · obtain ⟨fits, leftBalanced, rightBalanced, exact, near⟩ :=
      descend_fits Path.fits_nil formed.balanced descended
    obtain ⟨awaits, here, holdsLeft, holdsRight⟩ :=
      awaits_of_descend stores.holds awaits_nil descended
    have inUse : ordered.shape.ids.Perm _ := perm_ids_of_descend descended
    obtain ⟨below, node, above, rfl, rfl, next_eq⟩ := exists_chain_of_descend formed descended
    obtain ⟨stranger, distinct⟩ :=
      nodup_ids_merge.mp (inUse.nodup_iff.mp (formed.ids_eq ▸ formed.distinct))
    rw [List.mem_append, not_or] at stranger
    obtain ⟨mergedDistinct, pathDistinct, apart⟩ := List.nodup_append.mp distinct
    have sizes : ordered.size = (Shape.merge left right).size + 1 + path.ids.length := by
      have lengths := inUse.length_eq
      rw [List.length_append, length_ids, length_ids, formed.size_shape, Shape.size] at lengths
      rw [size_merge]
      omega
    rw [size_merge] at sizes
    obtain ⟨mergedBalanced, upper, lower⟩ := merge_balanced leftBalanced rightBalanced near
    obtain ⟨merged, released, followed, linked, read, merged_eq, released_eq, followed_eq,
        linked_eq, linkedUnder, holdsMerged, stays⟩ :=
      exciseBy_ok precise stores formed rfl here next_eq holdsLeft holdsRight stranger.1
        mergedDistinct leftBalanced rightBalanced near (by rw [size_merge]; omega)
        (le_trans (by omega) formed.size_le_slots)
    have linked_size : linked.size = ordered.size :=
      (congrArg OrderedTree.size linkedUnder).trans (OrderedTree.size_relink _ _ _ _)
    have result_eq :
        ordered.remove key =
          (some node.value,
            under { linked with size := linked.size - 1 }
              (path.retrace (Shape.merge left right))) := by
      have erased :
          ordered.shape.erase (ordered.order key) = path.retrace (Shape.merge left right) := by
        simp only [Shape.erase, descended]
      simp only [OrderedTree.remove, OrderedTree.find?, located, formed.entry?_eq rfl]
      rw [← linkedUnder, erased, linked_size]
      rfl
    have pathStays (other : NodeId) (member : other ∈ path.ids) :
        linked.branch? other = tree.branch? other := by
      refine stays other (by rintro rfl; exact stranger.2 member) ?_
      exact fun isMerged => apart other isMerged other member rfl
    -- What is left of its children takes its place in the shape.
    obtain ⟨result, retraced, resultStores⟩ :=
      retraceBy_stores precise (congrArg Prod.snd result_eq).symm (awaits.congr pathStays)
        (holdsMerged.congr fun _ _ => rfl)
        (Path.perm_ids_retrace.nodup_iff.mpr distinct) fits mergedBalanced
        ⟨by rw [height_node]; omega, by rw [height_node]; omega⟩
        (by rw [Path.size_retrace, size_merge]; omega)
    refine ⟨result, ?_, resultStores⟩
    have nonempty : ¬ linked.size = 0 := by
      omega
    rw [result_eq, LinkedTree.removeBy, searched, ok_bind]
    simp only [read, merged_eq, released_eq, ok_bind]
    rw [followed_eq, ok_bind, linked_eq, ok_bind, if_neg nonempty]
    exact congrArg (fun run => run >>= fun tree => pure (some node.value, tree)) retraced
  · refine ⟨tree, ?_, ?_⟩
    · simp only [LinkedTree.removeBy, searched, ok_bind, OrderedTree.remove, OrderedTree.find?,
        located]
      rfl
    · simpa only [OrderedTree.remove, OrderedTree.find?, located] using stores

end LinkedTree

end OrderedIndex

import OrderedIndex.Proofs.Tree.Linked.Arena
import OrderedIndex.Proofs.Tree.Linked.Search
import OrderedIndex.Proofs.Tree.Liveness

namespace OrderedIndex

/-!
# Insertion in memory

An insertion fills a vacant slot, lets the neighbours of the new node name it and
hangs it at the end of the search.
-/

open Shape

namespace LinkedTree

variable
  {Key Value : Type}
  {arithmetic : HeightArithmetic}
  {tree : LinkedTree Key Value}
  {ordered : OrderedTree Key Value}
  {nodes : List (TreeNode Key Value)}

/-- Retracing a path leaves the tree that the entries make under the retraced shape. -/
theorem retraceBy_stores
    (precise : arithmetic.Exact)
    {path : Path Key}
    {subtree : Shape Key}
    {height : Nat}
    (under_eq : tree.under (path.retrace subtree) = ordered)
    (awaits : tree.Awaits path)
    (holds : tree.Holds subtree)
    (distinct : (path.retrace subtree).ids.Nodup)
    (fits : path.Fits height)
    (balanced : subtree.Balanced)
    (near : Near subtree.height height)
    (small : (path.retrace subtree).size < UInt64.size) :
    ∃ result,
      tree.retraceBy arithmetic path.turns subtree.root? = .ok result ∧
        result.Stores ordered := by
  obtain ⟨climbed, climbed_eq, grown⟩ :=
    climbBy_ok precise awaits holds distinct fits balanced near small
  subst under_eq
  refine ⟨{ climbed with root := (path.retrace subtree).root? }, ?_, ?_, rfl, ?_⟩
  · rw [retraceBy, climbed_eq]
    rfl
  · exact grown.regrown.under_eq _
  · exact grown.holds.congr fun _ _ => rfl

/-- The numbers in a shape where a descent ends are those on the way and those below. -/
theorem perm_ids_of_descend
    {probe : Key → Ordering}
    {path : Path Key}
    {shape subtree : Shape Key}
    (descended : shape.descend probe [] = (path, subtree)) :
    shape.ids.Perm (subtree.ids ++ path.ids) := by
  have sequence : shape.toList = path.before ++ subtree.toList ++ path.after := by
    simpa [Path.before, Path.after] using toList_of_descend descended
  rw [← Path.toList_retrace] at sequence
  rw [Shape.ids, sequence]
  exact Path.perm_ids_retrace

/-- A node without children gets a vacant slot, and its neighbours name it. -/
theorem add_ok
    (stores : tree.Stores ordered)
    (formed : ordered.Formed nodes)
    (room : ordered.free = [] → ordered.slots.size < UInt32.size)
    (entry : Entry Key Value)
    (previousLeads : ordered.Leads entry.previous)
    (nextLeads : ordered.Leads entry.next) :
    ∃ id grown followed linked,
      tree.allocate ⟨entry, .leaf⟩ = .ok (id, grown) ∧
        grown.linkNext entry.previous (some id) = .ok followed ∧
          followed.linkPrevious entry.next (some id) = .ok linked ∧
            id ∉ ordered.shape.ids ∧
              (ordered.allocate entry).1 = id ∧
                linked.under ordered.shape =
                    ((ordered.allocate entry).2.linkNext entry.previous (some id)).linkPrevious
                      entry.next (some id) ∧
                  linked.branch? id = some .leaf ∧
                    ∀ other, other ≠ id → linked.branch? other = tree.branch? other := by
  obtain ⟨id, grown, grown_eq, extended⟩ :=
    allocate_ok (stores.under_eq.symm ▸ formed.arena)
      (fun noneFree => stores.nodes_size ▸ room (stores.free_eq ▸ noneFree)) ⟨entry, .leaf⟩
  have slot : ordered.allocate entry = (id, grown.under ordered.shape) := by
    rw [← extended.under_eq ordered.shape, stores.under_eq]
  have allocated := OrderedTree.allocated formed.arena entry
  rw [slot] at allocated
  have stranger : id ∉ ordered.shape.ids := by
    rw [formed.ids_eq, ← formed.entry?_isSome_iff, allocated.vacant]
    simp
  have stillLeads (link : Option NodeId) (leads : ordered.Leads link) :
      (grown.under ordered.shape).Leads link := by
    rintro other rfl
    rw [allocated.entry?_eq, Slots.assign]
    split
    · rfl
    · exact leads other rfl
  obtain ⟨followed, linked, followed_eq, linked_eq, rechained⟩ :=
    relink_ok entry.previous entry.next (some id) (some id)
      (stillLeads entry.previous previousLeads) (stillLeads entry.next nextLeads)
  refine ⟨id, grown, followed, linked, grown_eq, followed_eq, linked_eq, stranger,
    congrArg Prod.fst slot, ?_, (rechained.branch?_eq id).trans extended.branch?_same, ?_⟩
  · rw [rechained.under_eq, slot]
  · intro other different
    rw [rechained.branch?_eq, extended.branch?_eq other different]

/-- An insertion in memory runs to its end and stores what an insertion leaves. -/
theorem Stores.insertBy_ok
    (precise : arithmetic.Exact)
    (stores : tree.Stores ordered)
    (formed : ordered.Formed nodes)
    (room : ordered.free = [] → ordered.slots.size < UInt32.size)
    (small : ordered.size + 1 < UInt64.size)
    (key : Key)
    (value : Value) :
    ∃ result,
      tree.insertBy arithmetic key value = .ok ((ordered.insert key value).1, result) ∧
        result.Stores (ordered.insert key value).2 := by
  rcases stores.search_cases formed key with
    ⟨_, _, id, _, _, _, _, searched, located⟩ | ⟨path, descended, searched, located⟩
  · refine ⟨tree, ?_, ?_⟩
    · simp only [LinkedTree.insertBy, searched, ok_bind, OrderedTree.insert, located]
      rfl
    · simpa only [OrderedTree.insert, located] using stores
  · obtain ⟨fits, -⟩ := descend_fits Path.fits_nil formed.balanced descended
    obtain ⟨awaits, -⟩ := awaits_of_descend stores.holds awaits_nil descended
    have waiting : ordered.shape.ids.Perm path.ids := perm_ids_of_descend descended
    obtain ⟨belowLeads, aboveLeads⟩ := formed.leads_of_absent located
    obtain ⟨id, grown, followed, linked, grown_eq, followed_eq, linked_eq, stranger, id_eq,
        linkedUnder, leaf, stays⟩ :=
      add_ok stores formed room ⟨key, value, path.below?, path.above?⟩ belowLeads aboveLeads
    have result_eq :
        ordered.insert key value =
          (true, under { linked with size := tree.size + 1 } (path.retrace (single id key))) := by
      have inserted :
          ordered.shape.insert (ordered.order key) id key = path.retrace (single id key) := by
        simp only [Shape.insert, descended]
      simp only [OrderedTree.insert, located, id_eq, ← linkedUnder, inserted, ← stores.size_eq]
      rfl
    rw [waiting.mem_iff] at stranger
    have distinct : (path.retrace (single id key)).ids.Nodup := by
      have onlyId : (single id key).ids = [id] := rfl
      rw [Path.nodup_ids_retrace, onlyId]
      refine ⟨List.nodup_singleton id, waiting.nodup_iff.mp ?_, by simpa using stranger⟩
      rw [formed.ids_eq]
      exact formed.distinct
    have wordSized : (path.retrace (single id key)).size < UInt64.size := by
      have onlyOne : (single id key).size = 1 := rfl
      rw [Path.size_retrace, onlyOne, ← waiting.length_eq, length_ids, formed.size_shape]
      omega
    obtain ⟨result, retraced, resultStores⟩ :=
      retraceBy_stores precise (congrArg Prod.snd result_eq).symm
        (awaits.congr fun other member => stays other (by rintro rfl; exact stranger member))
        ⟨leaf, trivial, trivial⟩ distinct fits (balanced_join trivial trivial (Near.refl 0))
        (by simp [Near, single]) wordSized
    refine ⟨result, ?_, resultStores⟩
    have fitsWord : ¬ UInt64.size ≤ tree.size + 1 := by
      rw [stores.size_eq]
      omega
    rw [result_eq, LinkedTree.insertBy, searched, ok_bind]
    simp only [passed?_left, passed?_right]
    rw [grown_eq, ok_bind]
    simp only [followed_eq, linked_eq, ok_bind, if_neg fitsWord]
    exact congrArg (fun run => run >>= fun tree => pure (true, tree)) retraced

end LinkedTree

end OrderedIndex

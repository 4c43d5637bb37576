import OrderedIndex.Proofs.Tree.Linked.Memory
import OrderedIndex.Proofs.Tree.Liveness

namespace OrderedIndex.LinkedTree

/-!
# The arena in memory

Filling a slot, freeing one and relinking the neighbours of a place do to the
entries in memory what they do to those of an ordered tree, and leave the
branches of all other nodes alone.
-/

variable
  {Key Value : Type}
  {tree result : LinkedTree Key Value}
  {shape : Shape Key}
  {id : NodeId}

/-- A slot with an entry has a node. -/
theorem exists_node
    (live : (OrderedTree.entry? (tree.under shape) id).isSome) :
    ∃ node, tree.node id = .ok node := by
  rw [entry?_under, Option.isSome_map] at live
  obtain ⟨node, isNode⟩ := Option.isSome_iff_exists.mp live
  exact ⟨node, node_eq_ok_iff.mpr isNode⟩

/-- A memory with one more node, in the slot that an ordered tree would give it. -/
structure Extended
    (node : LinkedNode Key Value)
    (id : NodeId)
    (tree result : LinkedTree Key Value) :
    Prop where
  under_eq : ∀ shape, (tree.under shape).allocate node.toEntry = (id, result.under shape)
  branch?_same : result.branch? id = some node.toBranch
  branch?_eq : ∀ other, other ≠ id → result.branch? other = tree.branch? other

/-- There is a slot for another node, unless all numbers are taken. -/
theorem allocate_ok
    (arena : (tree.under shape).ArenaSound)
    (room : tree.free = [] → tree.nodes.size < UInt32.size)
    (node : LinkedNode Key Value) :
    ∃ id result, tree.allocate node = .ok (id, result) ∧ Extended node id tree result := by
  cases free : tree.free with
  | nil =>
      refine ⟨tree.nodes.size, { tree with nodes := tree.nodes.push (some node) }, ?_, ?_, ?_, ?_⟩
      · simp only [allocate, free, if_pos (room free)]
      · intro shape
        simp [OrderedTree.allocate, under, free]
      · simp [branch?, node?]
      · intro other different
        simp [branch?, node?, Array.getElem?_push, different]
  | cons id rest =>
      have inArena : id < tree.nodes.size := by
        have inSlots := ((arena.mem_iff id).mp (by simp [under, free])).1
        simpa [under] using inSlots
      refine ⟨id,
        { tree with nodes := tree.nodes.setIfInBounds id (some node), free := rest },
        ?_, ?_, ?_, ?_⟩
      · simp only [allocate, free, if_pos inArena]
      · intro shape
        simp [OrderedTree.allocate, under, free]
      · simp [branch?, node?, inArena]
      · intro other different
        simp [branch?, node?, Ne.symm different]

/-- A node in its slot can be freed. -/
theorem release_ok
    {node : LinkedNode Key Value}
    (live : tree.node id = .ok node) :
    ∃ result,
      tree.release id = .ok (node, result) ∧
        (∀ shape, result.under shape = (tree.under shape).release id) ∧
        ∀ other, other ≠ id → result.branch? other = tree.branch? other := by
  have slot : tree.nodes[id]? = some (some node) := by
    have found := node_eq_ok_iff.mp live
    rw [node?] at found
    cases inSlot : tree.nodes[id]? with
    | none =>
        simp [inSlot] at found
    | some slot =>
        simpa [inSlot] using found
  refine ⟨{ tree with nodes := tree.nodes.setIfInBounds id none, free := id :: tree.free },
    ?_, ?_, ?_⟩
  · simp only [release, slot]
  · intro shape
    simp [OrderedTree.release, under]
  · intro other different
    simp [branch?, node?, Ne.symm different]

/-! ## Relinking -/

theorem linkNext_ok
    (before after : Option NodeId)
    (leads : (tree.under shape).Leads before) :
    ∃ result,
      tree.linkNext before after = .ok result ∧
        Rechained (fun ordered => ordered.linkNext before after) tree result := by
  cases before with
  | none =>
      exact ⟨_, rfl, fun _ => rfl, fun _ => rfl⟩
  | some id =>
      obtain ⟨node, isNode⟩ := exists_node (leads id rfl)
      exact modify_entry isNode fun entry => { entry with next := after }

theorem linkPrevious_ok
    (after before : Option NodeId)
    (leads : (tree.under shape).Leads after) :
    ∃ result,
      tree.linkPrevious after before = .ok result ∧
        Rechained (fun ordered => ordered.linkPrevious after before) tree result := by
  cases after with
  | none =>
      exact ⟨_, rfl, fun _ => rfl, fun _ => rfl⟩
  | some id =>
      obtain ⟨node, isNode⟩ := exists_node (leads id rfl)
      exact modify_entry isNode fun entry => { entry with previous := before }

/-- The neighbours of a place can be relinked if they are in use. -/
theorem relink_ok
    (before after next previous : Option NodeId)
    (beforeLeads : (tree.under shape).Leads before)
    (afterLeads : (tree.under shape).Leads after) :
    ∃ followed result,
      tree.linkNext before next = .ok followed ∧
        followed.linkPrevious after previous = .ok result ∧
          Rechained (fun ordered => (ordered.linkNext before next).linkPrevious after previous)
            tree result := by
  obtain ⟨followed, followed_eq, followedChain⟩ := linkNext_ok before next beforeLeads
  have stillLeads : (followed.under shape).Leads after := by
    intro id isAfter
    have live := afterLeads id isAfter
    rw [followedChain.under_eq]
    cases before with
    | none =>
        exact live
    | some other =>
        rw [Option.isSome_iff_ne_none] at live ⊢
        rwa [OrderedTree.linkNext, OrderedTree.entry?_modifyEntry, ne_eq,
          Slots.change_eq_none_iff]
  obtain ⟨result, result_eq, resultChain⟩ := linkPrevious_ok after previous stillLeads
  refine ⟨followed, result, followed_eq, result_eq, ?_, ?_⟩
  · intro shape
    rw [resultChain.under_eq, followedChain.under_eq]
  · intro other
    rw [resultChain.branch?_eq, followedChain.branch?_eq]

end OrderedIndex.LinkedTree

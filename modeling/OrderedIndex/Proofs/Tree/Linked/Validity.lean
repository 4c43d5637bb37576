import OrderedIndex.Proofs.Tree.Linked.Faultless
import OrderedIndex.Proofs.Tree.Linked.Restoring
import OrderedIndex.Proofs.Tree.Validation

namespace OrderedIndex.LinkedTree

/-!
# Valid trees in memory

The links of a memory that comes to be lead to a balanced search tree with exact
heights.  Its nodes are the slots in use, as many as the tree counts, the chain
goes through them in key order, and every other slot is free once.
-/

variable
  {Key Value : Type}
  {order : Order Key}
  {tree : LinkedTree Key Value}
  {shape : Shape Key}
  {ordered : OrderedTree Key Value}
  {nodes : List (TreeNode Key Value)}
  {id : NodeId}

/-- All parts of a memory tell of the same search tree. -/
structure Valid (tree : LinkedTree Key Value) (shape : Shape Key) : Prop where
  /-- What the links lead to is balanced, has exact heights and ascends strictly. -/
  searchTree : tree.SearchTree tree.root shape
  distinct : shape.ids.Nodup
  /-- The slots in use are those of the nodes that the links lead to. -/
  live_iff : ∀ id, id ∈ shape.ids ↔ (tree.node? id).isSome
  size_eq : shape.ids.length = tree.size
  first_eq : tree.first = shape.ids.head?
  last_eq : tree.last = shape.ids.getLast?
  /-- Every node names its neighbours in key order. -/
  linked :
    ∀ place id,
      shape.ids[place]? = some id →
      tree.previousAt id = .ok (OrderedTree.neighbour? shape.ids none place) ∧
        tree.nextAt id = .ok shape.ids[place + 1]?
  free_distinct : tree.free.Nodup
  free_iff : ∀ id, id ∈ tree.free ↔ id < tree.nodes.size ∧ tree.node? id = none

/-- A memory that stores a valid tree is valid. -/
theorem Stores.valid
    (stores : tree.Stores ordered)
    (represents : ordered.Represents nodes) :
    tree.Valid ordered.shape where
  searchTree := .of_stores stores represents
  distinct := represents.ids_eq ▸ represents.distinct
  live_iff id := by
    rw [mem_ids_iff represents.toFormed, stores.entry?_eq, Option.isSome_map]
  size_eq := represents.valid.size_eq.trans stores.size_eq.symm
  first_eq := stores.first_eq.trans represents.valid.first_eq
  last_eq := stores.last_eq.trans represents.valid.last_eq
  linked := by
    intro place id atPlace
    have live := represents.valid.live id (List.mem_of_getElem? atPlace)
    obtain ⟨previous_eq, next_eq⟩ := represents.valid.linked place id atPlace
    rw [stores.previousAt_live live, stores.nextAt_live live, previous_eq, next_eq]
    exact ⟨rfl, rfl⟩
  free_distinct := stores.free_eq ▸ represents.arena.distinct
  free_iff id := by
    rw [stores.free_eq, stores.nodes_size, represents.arena.mem_iff, stores.entry?_eq,
      Option.map_eq_none_iff]

/--
Every memory that comes to be is valid, and its slots have numbers in a word, so
that balance is restored in it as in any search tree.
-/
theorem Reachable.valid
    [lawful : Std.TransCmp order]
    (reachable : Reachable order tree) :
    tree.order = order ∧ tree.nodes.size ≤ UInt32.size ∧ ∃ shape, tree.Valid shape := by
  obtain ⟨peak, ordered, bounded, ordinary, rfl⟩ := reachable.exists_ordered
  obtain ⟨nodes, represents⟩ := ordinary.represents
  have stores := stores_linked represents.toFormed
  refine ⟨ordinary.order_eq, ?_, ordered.shape, stores.valid represents⟩
  rw [stores.nodes_size]
  exact ordinary.slots_size_eq_peak.trans_le bounded

end OrderedIndex.LinkedTree

import OrderedIndex.Proofs.Shape.Balance
import OrderedIndex.Proofs.Shape.Search
import OrderedIndex.Proofs.Tree.Arena

namespace OrderedIndex.OrderedTree

/-!
# What a tree represents

A tree stands for the list of its nodes in key order.  The shape, the chain,
its two ends, the size and the arena all have to tell the same list.  Every
operation is described by what it makes of the list; that the parts of the tree
agree again afterwards is what the proofs are about.
-/

open TreeNode

variable {Key Value : Type} {tree : OrderedTree Key Value}

/--
All parts of a tree tell the same list of nodes, in whatever order their keys are.
An order that is no total preorder can misplace keys, but no more than that.
-/
structure Formed
    (tree : OrderedTree Key Value)
    (nodes : List (TreeNode Key Value)) :
    Prop where
  distinct : (nodes.map TreeNode.id).Nodup
  sequence : tree.shape.toList = nodes.map TreeNode.keyed
  balanced : tree.shape.Balanced
  linked : Linked tree.entry? none none nodes
  vacant : ∀ id, id ∉ nodes.map TreeNode.id → tree.entry? id = none
  first_eq : tree.first = firstOr none nodes
  last_eq : tree.last = lastOr none nodes
  size_eq : tree.size = nodes.length
  arena : tree.ArenaSound

/-- All parts of a tree tell the same list of nodes, and the keys ascend in it. -/
structure Represents
    (tree : OrderedTree Key Value)
    (nodes : List (TreeNode Key Value)) :
    Prop extends tree.Formed nodes where
  ascending : Order.Ascending tree.order (nodes.map TreeNode.key)

/-- The tree without keys is formed of no nodes. -/
theorem formed_empty (order : Order Key) :
    (empty order : OrderedTree Key Value).Formed [] where
  distinct := List.nodup_nil
  sequence := rfl
  balanced := trivial
  linked := trivial
  vacant := by
    intro id _
    simp [empty, entry?]
  first_eq := rfl
  last_eq := rfl
  size_eq := rfl
  arena := by
    refine ⟨List.nodup_nil, ?_⟩
    intro id
    simp [empty]

/-- The tree without keys represents the empty list. -/
theorem represents_empty (order : Order Key) :
    (empty order : OrderedTree Key Value).Represents [] :=
  ⟨formed_empty order, List.Pairwise.nil⟩

/-! ## Searching -/

/-- The comparison of a key with those of nodes. -/
def probeNode (tree : OrderedTree Key Value) (key : Key) (node : TreeNode Key Value) :
    Ordering :=
  tree.order key node.key

/-- Where the search for a key lands among the nodes of a tree, whatever the order. -/
inductive Landed
    (tree : OrderedTree Key Value)
    (key : Key)
    (nodes : List (TreeNode Key Value)) :
    Prop where
  /-- At a node with an equal key. -/
  | present
      (below above : List (TreeNode Key Value))
      (node : TreeNode Key Value)
      (nodes_eq : nodes = below ++ node :: above)
      (equal : tree.order key node.key = .eq)
      (located : tree.locate key = .present node.id)
      (erased :
        (tree.shape.erase (tree.order key)).toList = (below ++ above).map TreeNode.keyed)
  /-- Between two neighbouring nodes or at an end. -/
  | absent
      (below above : List (TreeNode Key Value))
      (nodes_eq : nodes = below ++ above)
      (isBelow : ∀ node ∈ below.getLast?, tree.probeNode key node = .gt)
      (isAbove : ∀ node ∈ above.head?, tree.probeNode key node = .lt)
      (located : tree.locate key = .absent (lastOr none below) (firstOr none above))
      (inserted :
        ∀ id added value,
          (tree.shape.insert (tree.order key) id added).toList =
            (below ++ ⟨id, added, value⟩ :: above).map TreeNode.keyed)

/-- Where a key splits the nodes of a tree, and what the tree's search says of it. -/
inductive Located
    (tree : OrderedTree Key Value)
    (key : Key)
    (nodes : List (TreeNode Key Value)) :
    Prop where
  /-- At a node with an equal key. -/
  | present
      (below above : List (TreeNode Key Value))
      (node : TreeNode Key Value)
      (nodes_eq : nodes = below ++ node :: above)
      (equal : tree.order key node.key = .eq)
      (allBelow : Order.AllBelow (tree.probeNode key) below)
      (allAbove : Order.AllAbove (tree.probeNode key) above)
      (located : tree.locate key = .present node.id)
      (erased :
        (tree.shape.erase (tree.order key)).toList = (below ++ above).map TreeNode.keyed)
  /-- Between two neighbouring nodes or at an end. -/
  | absent
      (below above : List (TreeNode Key Value))
      (nodes_eq : nodes = below ++ above)
      (allBelow : Order.AllBelow (tree.probeNode key) below)
      (allAbove : Order.AllAbove (tree.probeNode key) above)
      (located : tree.locate key = .absent (lastOr none below) (firstOr none above))
      (inserted :
        ∀ id added value,
          (tree.shape.insert (tree.order key) id added).toList =
            (below ++ ⟨id, added, value⟩ :: above).map TreeNode.keyed)

namespace Formed

variable {nodes : List (TreeNode Key Value)}

/-- Every search lands somewhere among the nodes. -/
theorem landed
    (formed : tree.Formed nodes)
    (key : Key) :
    Landed tree key nodes := by
  cases Shape.searched (tree.order key) tree.shape with
  | present below above id foundKey sequence equal located erased =>
      rw [formed.sequence] at sequence
      obtain ⟨belowNodes, node, aboveNodes, rfl, belowSame, nodeSame, aboveSame⟩ :=
        exists_split_of_map sequence
      obtain ⟨rfl, rfl⟩ := Prod.mk.injEq .. ▸ nodeSame
      refine .present belowNodes aboveNodes node rfl equal located ?_
      rw [erased, List.map_append, belowSame, aboveSame]
  | absent below above sequence isBelow isAbove located inserted =>
      rw [formed.sequence, List.map_eq_append_iff] at sequence
      obtain ⟨belowNodes, aboveNodes, rfl, rfl, rfl⟩ := sequence
      refine .absent belowNodes aboveNodes rfl ?_ ?_ ?_ ?_
      · intro node isLast
        refine isBelow node.keyed ?_
        rw [List.getLast?_map]
        exact Option.mem_map_of_mem TreeNode.keyed isLast
      · intro node isFirst
        refine isAbove node.keyed ?_
        rw [List.head?_map]
        exact Option.mem_map_of_mem TreeNode.keyed isFirst
      · rw [locate, located, lastOr_none, firstOr_none]
        simp [Function.comp_def]
      · intro id added value
        rw [inserted, List.map_append, List.map_cons]
        rfl

/-- Every node is in its slot. -/
theorem entry?_eq
    (formed : tree.Formed nodes)
    {below above : List (TreeNode Key Value)}
    {node : TreeNode Key Value}
    (nodes_eq : nodes = below ++ node :: above) :
    tree.entry? node.id =
      some ⟨node.key, node.value, lastOr none below, firstOr none above⟩ := by
  subst nodes_eq
  exact (Linked.append_iff.mp formed.linked).2.1

theorem key?_eq
    (formed : tree.Formed nodes)
    {below above : List (TreeNode Key Value)}
    {node : TreeNode Key Value}
    (nodes_eq : nodes = below ++ node :: above) :
    tree.key? node.id = some node.key := by
  rw [key?, formed.entry?_eq nodes_eq, Option.map_some]

theorem value?_eq
    (formed : tree.Formed nodes)
    {below above : List (TreeNode Key Value)}
    {node : TreeNode Key Value}
    (nodes_eq : nodes = below ++ node :: above) :
    tree.value? node.id = some node.value := by
  rw [value?, formed.entry?_eq nodes_eq, Option.map_some]

/-- The slots that are in use are those of the nodes. -/
theorem entry?_isSome_iff
    (formed : tree.Formed nodes)
    {id : NodeId} :
    (tree.entry? id).isSome ↔ id ∈ nodes.map TreeNode.id := by
  constructor
  · intro live
    rcases Decidable.em (id ∈ nodes.map TreeNode.id) with member | stranger
    · exact member
    · simp [formed.vacant id stranger] at live
  · intro member
    obtain ⟨node, nodeMember, rfl⟩ := List.mem_map.mp member
    obtain ⟨before, after, found⟩ := formed.linked.entry_of_mem nodeMember
    simp [found]

/-! ## Changing -/

/-- Adding a key that is absent adds a node where the search for the key lands. -/
theorem insert_absent
    {key : Key}
    (value : Value)
    {below above : List (TreeNode Key Value)}
    (formed : tree.Formed (below ++ above))
    (located : tree.locate key = .absent (lastOr none below) (firstOr none above))
    (inserted :
      ∀ id added value,
        (tree.shape.insert (tree.order key) id added).toList =
          (below ++ ⟨id, added, value⟩ :: above).map TreeNode.keyed) :
    ∃ id,
      tree.entry? id = none ∧
        (tree.insert key value).1 = true ∧
        (tree.insert key value).2.Formed (below ++ ⟨id, key, value⟩ :: above) := by
  let entry : Entry Key Value :=
    ⟨key, value, lastOr none below, firstOr none above⟩
  let id := (tree.allocate entry).1
  have grown : Allocated tree (tree.allocate entry).2 id entry :=
    allocated formed.arena entry
  have links :=
    relinked (tree.allocate entry).2 (lastOr none below) (firstOr none above)
      (some id) (some id)
  have distinct : ((below ++ ⟨id, key, value⟩ :: above).map TreeNode.id).Nodup := by
    refine nodup_map_middle.mpr ⟨?_, formed.distinct⟩
    intro member
    have live := formed.entry?_isSome_iff.mpr member
    simp [grown.vacant] at live
  have result :
      tree.insert key value =
        (true,
          { ((tree.allocate entry).2.linkNext (lastOr none below) (some id)).linkPrevious
              (firstOr none above) (some id) with
            size := tree.size + 1
            shape := tree.shape.insert (tree.order key) id key }) := by
    simp only [insert, located]
    rfl
  refine ⟨id, grown.vacant, by rw [result], ?_⟩
  rw [result]
  have entries := links.entry?_eq
  rw [grown.entry?_eq] at entries
  refine {
    distinct := distinct
    sequence := inserted id key value
    balanced := Shape.insert_balanced formed.balanced
    linked := ?_
    vacant := ?_
    first_eq := ?_
    last_eq := ?_
    size_eq := ?_
    arena := ?_ }
  · exact (formed.linked.insert distinct).congr fun slot _ => congrFun entries slot
  · intro slot isStranger
    obtain ⟨different, isOther⟩ := not_or.mp (mt mem_map_middle.mpr isStranger)
    refine (congrFun entries slot).trans (Slots.splice_eq_none_iff.mpr ?_)
    rw [Slots.assign_other _ (Ne.symm different)]
    exact formed.vacant slot isOther
  · refine links.first_eq.trans ?_
    rw [grown.first_eq, formed.first_eq, firstOr_append, ite_firstOr, firstOr_append,
      firstOr_cons]
  · refine links.last_eq.trans ?_
    rw [grown.last_eq, formed.last_eq, lastOr_append, ite_lastOr, lastOr_append,
      lastOr_cons]
  · simp only [formed.size_eq, List.length_append, List.length_cons, Nat.add_assoc]
  · have arena := grown.arena.relink links
    exact ⟨arena.distinct, arena.mem_iff⟩

/-- Removing a key that is present takes its node out and gives back its value. -/
theorem remove_present
    {key : Key}
    {below above : List (TreeNode Key Value)}
    {node : TreeNode Key Value}
    (formed : tree.Formed (below ++ node :: above))
    (located : tree.locate key = .present node.id)
    (erased :
      (tree.shape.erase (tree.order key)).toList = (below ++ above).map TreeNode.keyed) :
    (tree.remove key).1 = some node.value ∧
      (tree.remove key).2.Formed (below ++ above) := by
  have found := formed.entry?_eq rfl
  have links :=
    relinked (tree.release node.id) (lastOr none below) (firstOr none above)
      (firstOr none above) (lastOr none below)
  have result :
      tree.remove key =
        (some node.value,
          { ((tree.release node.id).linkNext (lastOr none below)
                (firstOr none above)).linkPrevious
              (firstOr none above) (lastOr none below) with
            size := tree.size - 1
            shape := tree.shape.erase (tree.order key) }) := by
    simp only [remove, find?, located, found]
  refine ⟨by rw [result], ?_⟩
  rw [result]
  have entries := links.entry?_eq
  rw [entry?_release] at entries
  refine {
    distinct := (nodup_map_middle.mp formed.distinct).2
    sequence := erased
    balanced := Shape.erase_balanced formed.balanced
    linked := ?_
    vacant := ?_
    first_eq := ?_
    last_eq := ?_
    size_eq := ?_
    arena := ?_ }
  · exact (formed.linked.erase formed.distinct none).congr
      fun slot _ => congrFun entries slot
  · intro slot isStranger
    refine (congrFun entries slot).trans (Slots.splice_eq_none_iff.mpr ?_)
    by_cases isNode : node.id = slot
    · rw [isNode, Slots.assign_same]
    · rw [Slots.assign_other _ isNode]
      refine formed.vacant slot (mt mem_map_middle.mp ?_)
      exact not_or.mpr ⟨Ne.symm isNode, isStranger⟩
  · refine links.first_eq.trans ?_
    simp only [release, formed.first_eq, firstOr_append, ite_firstOr]
  · refine links.last_eq.trans ?_
    simp only [release, formed.last_eq, lastOr_append, lastOr_cons]
    exact ite_lastOr _ _ above
  · simp only [formed.size_eq, List.length_append, List.length_cons]
    omega
  · have live : tree.entry? node.id ≠ none := by
      simp [found]
    have arena := (formed.arena.release live).relink links
    exact ⟨arena.distinct, arena.mem_iff⟩

/-- Writing to a slot in use replaces the value of its node. -/
theorem setValue
    {below above : List (TreeNode Key Value)}
    {node : TreeNode Key Value}
    (formed : tree.Formed (below ++ node :: above))
    (value : Value) :
    (tree.setValue node.id value).Formed
      (below ++ { node with value := value } :: above) := by
  have entries :
      OrderedTree.entry? (tree.setValue node.id value) =
        Slots.change tree.entry? (some node.id) fun entry => { entry with value := value } :=
    entry?_modifyEntry _ _ _
  refine {
    distinct := by simpa using formed.distinct
    sequence := by simpa [TreeNode.keyed] using formed.sequence
    balanced := formed.balanced
    linked := ?_
    vacant := ?_
    first_eq := ?_
    last_eq := ?_
    size_eq := by simpa using formed.size_eq
    arena := ?_ }
  · rw [entries]
    exact formed.linked.change_value formed.distinct value
  · intro slot isStranger
    rw [entries, Slots.change_eq_none_iff]
    exact formed.vacant slot (by simpa using isStranger)
  · exact formed.first_eq.trans (by simp)
  · exact formed.last_eq.trans (by simp)
  · refine ⟨formed.arena.distinct, ?_⟩
    intro slot
    rw [entries, Slots.change_eq_none_iff]
    simpa [OrderedTree.setValue, modifyEntry] using formed.arena.mem_iff slot

end Formed

namespace Represents

variable {nodes : List (TreeNode Key Value)}

/-- A search splits the list that a tree represents at the sought key. -/
theorem located
    [Std.TransCmp tree.order]
    (represents : tree.Represents nodes)
    (key : Key) :
    Located tree key nodes := by
  have separates : Order.Separates (tree.probeNode key) nodes :=
    represents.ascending.separates_map key
  cases represents.landed key with
  | present below above node nodes_eq equal located erased =>
      rw [nodes_eq] at separates
      have atNode : tree.probeNode key node = .eq := equal
      exact .present below above node nodes_eq equal
        (separates.allBelow (by simp [atNode])) (separates.allAbove (by simp [atNode]))
        located erased
  | absent below above nodes_eq isBelow isAbove located inserted =>
      rw [nodes_eq] at separates
      exact .absent below above nodes_eq
        (separates.allBelow_of_last isBelow) (separates.allAbove_of_first isAbove)
        located inserted

/-! ## Changing -/

/-- Adding a key that is absent adds a node where the key falls. -/
theorem insert_absent
    [Std.TransCmp tree.order]
    {key : Key}
    (value : Value)
    {below above : List (TreeNode Key Value)}
    (represents : tree.Represents (below ++ above))
    (allBelow : Order.AllBelow (tree.probeNode key) below)
    (allAbove : Order.AllAbove (tree.probeNode key) above)
    (located : tree.locate key = .absent (lastOr none below) (firstOr none above))
    (inserted :
      ∀ id added value,
        (tree.shape.insert (tree.order key) id added).toList =
          (below ++ ⟨id, added, value⟩ :: above).map TreeNode.keyed) :
    ∃ id,
      tree.entry? id = none ∧
        (tree.insert key value).1 = true ∧
        (tree.insert key value).2.Represents (below ++ ⟨id, key, value⟩ :: above) := by
  obtain ⟨id, vacant, answer, formed⟩ :=
    Formed.insert_absent value represents.toFormed located inserted
  refine ⟨id, vacant, answer, formed, ?_⟩
  have ascending := represents.ascending
  rw [List.map_append] at ascending
  rw [order_insert, List.map_append, List.map_cons]
  exact ascending.insert (List.forall_mem_map.mpr allBelow) (List.forall_mem_map.mpr allAbove)

/-- Removing a key that is present takes its node out and gives back its value. -/
theorem remove_present
    {key : Key}
    {below above : List (TreeNode Key Value)}
    {node : TreeNode Key Value}
    (represents : tree.Represents (below ++ node :: above))
    (located : tree.locate key = .present node.id)
    (erased :
      (tree.shape.erase (tree.order key)).toList = (below ++ above).map TreeNode.keyed) :
    (tree.remove key).1 = some node.value ∧
      (tree.remove key).2.Represents (below ++ above) := by
  obtain ⟨answer, formed⟩ := Formed.remove_present represents.toFormed located erased
  refine ⟨answer, formed, ?_⟩
  have ascending := represents.ascending
  rw [List.map_append, List.map_cons] at ascending
  rw [order_remove, List.map_append]
  exact ascending.erase

/-- Writing to a slot in use replaces the value of its node. -/
theorem setValue
    {below above : List (TreeNode Key Value)}
    {node : TreeNode Key Value}
    (represents : tree.Represents (below ++ node :: above))
    (value : Value) :
    (tree.setValue node.id value).Represents
      (below ++ { node with value := value } :: above) :=
  ⟨Formed.setValue represents.toFormed value, by simpa using represents.ascending⟩

end Represents

end OrderedIndex.OrderedTree

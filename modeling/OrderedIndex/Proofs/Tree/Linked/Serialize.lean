import OrderedIndex.Proofs.Tree.Linked.Layout
import OrderedIndex.Proofs.Tree.Numbering

namespace OrderedIndex

/-!
# Writing memory

A tree in memory is written by following the chain twice: once to note the place
of every node, and once to write its record.  Every link of a record leads to a
node whose place is noted, so the bytes are those of the tree.
-/

open Shape

namespace LinkedTree

variable
  {Key Value Answer Other : Type}
  {tree : LinkedTree Key Value}
  {ordered : OrderedTree Key Value}
  {nodes : List (TreeNode Key Value)}
  {places : Array UInt32}

/-! ## Answers that involve no check -/

theorem answered_bind
    (first : Except IndexError Other)
    (next : Other → Except IndexError Answer) :
    answered (first >>= next) = answered first >>= fun item => answered (next item) := by
  cases first <;> rfl

theorem lift_ok_bind
    (item : Other)
    (next : Other → ExceptT IndexError (Except TreeFault) Answer) :
    ExceptT.lift (.ok item) >>= next = next item :=
  rfl

/-! ## Places -/

/-- A table has the word for the place of every node of a list, counted from an offset. -/
def Numbers (places : Array UInt32) (offset : Nat) (ids : List NodeId) : Prop :=
  AtPlaces (fun place id => places[id]? = some (UInt32.ofNat place)) offset ids

theorem placeOf_some
    {place : Nat}
    {id : NodeId}
    (noted : places[id]? = some (UInt32.ofNat place)) :
    placeOf places (some id) = .ok (UInt32.ofNat place) := by
  rw [placeOf, noted]
  rfl

/-- Every place of distinct nodes in the arena is noted. -/
theorem number_ok
    (place : Nat)
    {ids : List NodeId}
    (distinct : ids.Nodup)
    (within : ∀ id ∈ ids, id < places.size) :
    ∃ numbered,
      number place places ids = .ok numbered ∧
        Numbers numbered place ids ∧
          ∀ id, id ∉ ids → numbered[id]? = places[id]? := by
  induction ids generalizing place places with
  | nil =>
      exact ⟨places, rfl, trivial, fun _ _ => rfl⟩
  | cons id rest inductionHypothesis =>
      obtain ⟨stranger, restDistinct⟩ := List.nodup_cons.mp distinct
      have inArena : id < places.size := within id List.mem_cons_self
      have restWithin :
          ∀ other ∈ rest, other < (places.setIfInBounds id (UInt32.ofNat place)).size := by
        intro other member
        rw [Array.size_setIfInBounds]
        exact within other (List.mem_cons_of_mem id member)
      obtain ⟨numbered, rest_eq, noted, others⟩ :=
        inductionHypothesis (place + 1) restDistinct restWithin
      refine ⟨numbered, ?_, ⟨?_, noted⟩, ?_⟩
      · rw [number, if_pos inArena]
        exact rest_eq
      · refine (others id stranger).trans ?_
        rw [Array.getElem?_setIfInBounds, if_pos rfl, if_pos inArena]
      · intro other outside
        obtain ⟨different, outsideRest⟩ := not_or.mp (mt List.mem_cons.mpr outside)
        rw [others other outsideRest, Array.getElem?_setIfInBounds, if_neg (Ne.symm different)]

/-- The place of the topmost node of a shape is noted, if the places of its nodes are. -/
theorem placeOf_root?
    {offset : Nat}
    {shape : Shape Key}
    (noted : Numbers places offset shape.ids) :
    placeOf places shape.root? = .ok (NodeRecord.childWord (shape.rootIndex? offset)) := by
  cases shape with
  | empty =>
      rfl
  | node left id key height right =>
      rw [ids_node, Numbers, atPlaces_append, length_ids] at noted
      exact placeOf_some noted.2.1

theorem rootBytes_eq
    {offset : Nat}
    {shape : Shape Key}
    (atRoot : tree.root = shape.root?)
    (noted : Numbers places offset shape.ids) :
    tree.rootBytes places =
      answered (.ok (match shape.rootIndex? offset with
        | some index => Bytes.ofUInt32 (UInt32.ofNat index)
        | none => [])) := by
  have place_eq := placeOf_root? noted
  cases shape with
  | empty =>
      rw [rootBytes, atRoot]
      rfl
  | node left id key height right =>
      rw [root?] at place_eq
      rw [rootBytes, atRoot, root?]
      dsimp only
      rw [place_eq]
      rfl

/-! ## Records -/

/-- The node in a slot has the links of a record. -/
structure Describes
    (tree : LinkedTree Key Value)
    (places : Array UInt32)
    (id : NodeId)
    (links : NodeLinks) :
    Prop where
  read :
    ∃ node,
      tree.node id = .ok node ∧
        placeOf places node.left = .ok (NodeRecord.childWord links.left) ∧
          placeOf places node.right = .ok (NodeRecord.childWord links.right)
  balance_eq : tree.balance id = .ok links.balance

/-- The nodes of a shape have the links of the shape. -/
theorem describes_links
    {offset : Nat}
    {shape : Shape Key}
    (holds : tree.Holds shape)
    (balanced : shape.Balanced)
    (low : shape.Low)
    (noted : Numbers places offset shape.ids) :
    List.Forall₂ (tree.Describes places) shape.ids (shape.links offset) := by
  induction shape generalizing offset with
  | empty =>
      exact .nil
  | node left id key height right leftHypothesis rightHypothesis =>
      have balance_eq := balance_eq holds
      obtain ⟨here, holdsLeft, holdsRight⟩ := holds
      obtain ⟨leftBalanced, rightBalanced, rfl, -⟩ := balanced
      obtain ⟨node, read, parts⟩ := node_of_branch? here
      rw [Low, height_node] at low
      rw [Numbers, ids_node, atPlaces_append, length_ids] at noted
      obtain ⟨leftNoted, -, rightNoted⟩ := noted
      have leftLow : left.Low := by
        unfold Low
        omega
      have rightLow : right.Low := by
        unfold Low
        omega
      rw [ids_node, links]
      refine List.rel_append (leftHypothesis holdsLeft leftBalanced leftLow leftNoted) (.cons ?_ ?_)
      · refine ⟨⟨node, read, ?_, ?_⟩, balance_eq (by omega) (by omega)⟩
        · rw [parts]
          exact placeOf_root? leftNoted
        · rw [parts]
          exact placeOf_root? rightNoted
      · exact rightHypothesis holdsRight rightBalanced rightLow rightNoted

/-- A node is written as the record of its entry with the links. -/
theorem record_eq
    {id : NodeId}
    {links : NodeLinks}
    {entry : Entry Key Value}
    (stores : tree.Stores ordered)
    (format : TreeFormat Key Value)
    (describes : tree.Describes places id links)
    (found : ordered.entry? id = some entry) :
    tree.record format places id = answered (NodeRecord.toBytes <$> format.record links entry) := by
  obtain ⟨branch, read⟩ := stores.node_eq found
  obtain ⟨⟨node, isNode, left_eq, right_eq⟩, balance_eq⟩ := describes
  cases Except.ok.inj (isNode.symm.trans read)
  simp only [record, read, left_eq, right_eq, balance_eq, lift_ok_bind, TreeFormat.record,
    map_bind, answered_bind]
  rfl

/-- Nodes are written as the records of their entries with the links. -/
theorem records_eq
    {ids : List NodeId}
    {links : List NodeLinks}
    (stores : tree.Stores ordered)
    (format : TreeFormat Key Value)
    (describes : List.Forall₂ (tree.Describes places) ids links)
    (live : ∀ id ∈ ids, (ordered.entry? id).isSome) :
    tree.records format places ids =
      answered ((fun records => records.flatMap NodeRecord.toBytes) <$>
        format.records links (ids.filterMap ordered.entry?)) := by
  induction describes with
  | nil =>
      rfl
  | @cons id first ids links described rest inductionHypothesis =>
      obtain ⟨entry, found⟩ := Option.isSome_iff_exists.mp (live id List.mem_cons_self)
      have restLive := fun other member => live other (List.mem_cons_of_mem id member)
      rw [records, List.filterMap_cons_some found, TreeFormat.records,
        record_eq stores format described found, inductionHypothesis restLive]
      cases format.record first entry with
      | error cause =>
          rfl
      | ok record =>
          cases format.records links (ids.filterMap ordered.entry?) <;> rfl

namespace Stores

variable (stores : tree.Stores ordered) (formed : ordered.Formed nodes)
include stores formed

/-- Following the chain reads the nodes in key order. -/
theorem chain_eq
    {below above : List (TreeNode Key Value)}
    {fuel : Nat}
    (nodes_eq : nodes = below ++ above)
    (enough : above.length ≤ fuel) :
    tree.chain fuel (TreeNode.firstOr none above) = .ok (above.map TreeNode.id) := by
  induction above generalizing below fuel with
  | nil =>
      cases fuel <;> rfl
  | cons node above inductionHypothesis =>
      obtain ⟨less, rfl⟩ : ∃ less, fuel = less + 1 := ⟨fuel - 1, by simp at enough; omega⟩
      have live : (ordered.entry? node.id).isSome := by
        rw [formed.entry?_eq nodes_eq]
        rfl
      have shifted : nodes = (below ++ [node]) ++ above := by
        simp [nodes_eq]
      rw [TreeNode.firstOr_cons, chain, stores.nextAt_live live, formed.next?_eq nodes_eq,
        ok_bind, inductionHypothesis shifted (Nat.le_of_succ_le_succ enough)]
      rfl

/-- A tree in memory is written as the tree is. -/
theorem serialize_eq
    (small : ordered.size < UInt64.size)
    (format : TreeFormat Key Value) :
    tree.serialize format = answered (format.encode ordered) := by
  have whole : nodes = [] ++ nodes := rfl
  have chained :
      tree.chain tree.nodes.size tree.first = .ok ordered.shape.ids := by
    rw [stores.first_eq, formed.first_eq, formed.ids_eq]
    refine stores.chain_eq formed whole ?_
    rw [stores.nodes_size, ← formed.size_eq]
    exact formed.size_le_slots
  have within :
      ∀ id ∈ ordered.shape.ids, id < (Array.replicate tree.nodes.size noNode).size := by
    intro id member
    rw [Array.size_replicate, stores.nodes_size]
    exact List.mem_range.mp (formed.slots_perm.subset (List.mem_append_left _ member))
  obtain ⟨numbered, number_eq, noted, -⟩ :=
    number_ok 0 (formed.ids_eq ▸ formed.distinct) within
  have low : ordered.shape.Low := by
    refine formed.balanced.low ?_
    rwa [formed.size_shape]
  have written :=
    records_eq stores format (describes_links stores.holds formed.balanced low noted)
      fun id member => (mem_ids_iff formed).mp member
  rw [serialize, chained, lift_ok_bind, number_eq, lift_ok_bind, stores.size_eq,
    rootBytes_eq stores.root_eq noted, written, TreeFormat.encode, OrderedTree.entries,
    formed.nodes_eq, formed.ids_eq]
  by_cases large : UInt32.size ≤ ordered.size
  · rw [if_pos large, if_pos large]
    rfl
  · rw [if_neg large, if_neg large]
    cases format.records (ordered.shape.links 0) _ <;> rfl

end Stores

end LinkedTree

end OrderedIndex

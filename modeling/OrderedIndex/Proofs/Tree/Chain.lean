import OrderedIndex.Tree.Basic

namespace OrderedIndex

/-!
# Chains of entries

The entries of a tree are chained in key order: each names the slots of its two
neighbours.  A chain is described by the list of its nodes and by what lies
beyond its two ends, so that a chain can be cut into segments and segments can
be spliced together.  An insertion and a removal are both a splice of the
segment below and the segment above.
-/

/-- A node of a tree: the number of its slot with the key and the value there. -/
structure TreeNode (Key Value : Type) where
  id : NodeId
  key : Key
  value : Value
  deriving Repr, DecidableEq

namespace TreeNode

variable {Key Value : Type}

/-- The node as a shape holds it. -/
def keyed (node : TreeNode Key Value) : NodeId × Key := (node.id, node.key)

/-- The key with its value. -/
def pair (node : TreeNode Key Value) : Key × Value := (node.key, node.value)

@[simp] theorem keyed_fst (node : TreeNode Key Value) : node.keyed.1 = node.id := rfl

@[simp] theorem keyed_snd (node : TreeNode Key Value) : node.keyed.2 = node.key := rfl

@[simp] theorem pair_fst (node : TreeNode Key Value) : node.pair.1 = node.key := rfl

@[simp] theorem pair_snd (node : TreeNode Key Value) : node.pair.2 = node.value := rfl

/-- The first of some nodes, or else what comes behind them. -/
def firstOr (next : Option NodeId) : List (TreeNode Key Value) → Option NodeId
  | [] => next
  | node :: _ => some node.id

/-- The last of some nodes, or else what comes in front of them. -/
def lastOr (previous : Option NodeId) : List (TreeNode Key Value) → Option NodeId
  | [] => previous
  | node :: rest => lastOr (some node.id) rest

@[simp] theorem firstOr_nil (next : Option NodeId) :
    firstOr next ([] : List (TreeNode Key Value)) = next :=
  rfl

@[simp] theorem firstOr_cons
    (next : Option NodeId)
    (node : TreeNode Key Value)
    (rest : List (TreeNode Key Value)) :
    firstOr next (node :: rest) = some node.id :=
  rfl

@[simp] theorem lastOr_nil (previous : Option NodeId) :
    lastOr previous ([] : List (TreeNode Key Value)) = previous :=
  rfl

@[simp] theorem lastOr_cons
    (previous : Option NodeId)
    (node : TreeNode Key Value)
    (rest : List (TreeNode Key Value)) :
    lastOr previous (node :: rest) = lastOr (some node.id) rest :=
  rfl

/-- The first node of two lists is that of the first list, or else of the second. -/
@[simp] theorem firstOr_append
    (next : Option NodeId)
    (first second : List (TreeNode Key Value)) :
    firstOr next (first ++ second) = firstOr (firstOr next second) first := by
  cases first <;> rfl

/-- The last node of two lists is that of the second list, or else of the first. -/
@[simp] theorem lastOr_append
    (previous : Option NodeId)
    (first second : List (TreeNode Key Value)) :
    lastOr previous (first ++ second) = lastOr (lastOr previous first) second := by
  induction first generalizing previous with
  | nil =>
      rfl
  | cons node rest inductionHypothesis =>
      exact inductionHypothesis (some node.id)

/-- Without anything behind a list, its first node is that of the head. -/
theorem firstOr_none (nodes : List (TreeNode Key Value)) :
    firstOr none nodes = nodes.head?.map TreeNode.id := by
  cases nodes <;> rfl

/-- The last node of a list stands in front of what comes before the list. -/
theorem lastOr_eq_or
    (previous : Option NodeId)
    (nodes : List (TreeNode Key Value)) :
    lastOr previous nodes = (nodes.getLast?.map TreeNode.id).or previous := by
  induction nodes generalizing previous with
  | nil =>
      rfl
  | cons node rest inductionHypothesis =>
      rw [lastOr_cons, inductionHypothesis, List.getLast?_cons]
      cases rest.getLast? <;> rfl

/-- Without anything in front of a list, its last node is that of its end. -/
theorem lastOr_none (nodes : List (TreeNode Key Value)) :
    lastOr none nodes = nodes.getLast?.map TreeNode.id := by
  rw [lastOr_eq_or, Option.or_none]

/-- A list has a first node unless it is empty. -/
theorem isSome_firstOr_none (nodes : List (TreeNode Key Value)) :
    (firstOr none nodes).isSome = !nodes.isEmpty := by
  cases nodes <;> rfl

/-- A list has a last node unless it is empty. -/
theorem isSome_lastOr_none (nodes : List (TreeNode Key Value)) :
    (lastOr none nodes).isSome = !nodes.isEmpty := by
  cases nodes with
  | nil =>
      rfl
  | cons node rest =>
      simp [lastOr_eq_or]

/-- A slot of nodes around a node is that node's slot or one of the others. -/
theorem mem_map_middle
    {below above : List (TreeNode Key Value)}
    {node : TreeNode Key Value}
    {id : NodeId} :
    id ∈ (below ++ node :: above).map TreeNode.id ↔
      id = node.id ∨ id ∈ (below ++ above).map TreeNode.id := by
  rw [List.map_append, List.map_cons, List.perm_middle.mem_iff, List.mem_cons,
    ← List.map_append]

/-- Slots are distinct if those around a node are and miss the node's. -/
theorem nodup_map_middle
    {below above : List (TreeNode Key Value)}
    {node : TreeNode Key Value} :
    ((below ++ node :: above).map TreeNode.id).Nodup ↔
      node.id ∉ (below ++ above).map TreeNode.id ∧
        ((below ++ above).map TreeNode.id).Nodup := by
  rw [List.map_append, List.map_cons, List.perm_middle.nodup_iff, List.nodup_cons,
    ← List.map_append]

/-- A place among what is made of nodes is a place among the nodes. -/
theorem exists_split_of_map
    {Target : Type}
    {make : TreeNode Key Value → Target}
    {nodes : List (TreeNode Key Value)}
    {below above : List Target}
    {found : Target}
    (map_eq : nodes.map make = below ++ found :: above) :
    ∃ belowNodes node aboveNodes,
      nodes = belowNodes ++ node :: aboveNodes ∧
        belowNodes.map make = below ∧ make node = found ∧ aboveNodes.map make = above := by
  obtain ⟨belowNodes, rest, rfl, belowSame, restSame⟩ := List.map_eq_append_iff.mp map_eq
  obtain ⟨node, aboveNodes, rfl, nodeSame, aboveSame⟩ := List.map_eq_cons_iff.mp restSame
  exact ⟨belowNodes, node, aboveNodes, rfl, belowSame, nodeSame, aboveSame⟩

/-- What leads to the first of some nodes, if only that of an empty list is known anew. -/
theorem ite_firstOr
    (next other : Option NodeId)
    (nodes : List (TreeNode Key Value)) :
    (if lastOr none nodes = none then next else firstOr other nodes) = firstOr next nodes := by
  cases nodes with
  | nil =>
      rfl
  | cons node rest =>
      simp [lastOr_eq_or]

/-- What leads to the last of some nodes, if only that of an empty list is known anew. -/
theorem ite_lastOr
    (previous other : Option NodeId)
    (nodes : List (TreeNode Key Value)) :
    (if firstOr none nodes = none then previous else lastOr other nodes) =
      lastOr previous nodes := by
  cases nodes <;> rfl

/-- The last of some nodes is among them. -/
theorem mem_of_lastOr_none
    {nodes : List (TreeNode Key Value)}
    {id : NodeId}
    (isLast : lastOr none nodes = some id) :
    id ∈ nodes.map TreeNode.id := by
  rw [lastOr_none] at isLast
  obtain ⟨node, found, rfl⟩ := Option.map_eq_some_iff.mp isLast
  exact List.mem_map_of_mem (List.mem_of_getLast? found)

/-- The first of some nodes is among them. -/
theorem mem_of_firstOr_none
    {nodes : List (TreeNode Key Value)}
    {id : NodeId}
    (isFirst : firstOr none nodes = some id) :
    id ∈ nodes.map TreeNode.id := by
  rw [firstOr_none] at isFirst
  obtain ⟨node, found, rfl⟩ := Option.map_eq_some_iff.mp isFirst
  exact List.mem_map_of_mem (List.mem_of_mem_head? found)

end TreeNode

open TreeNode

variable {Key Value : Type}

/-- What the slots of an arena hold. -/
abbrev Slots (Key Value : Type) := NodeId → Option (Entry Key Value)

/-- The slots hold a chain of nodes between the given ends. -/
def Linked (slots : Slots Key Value) (previous next : Option NodeId) :
    List (TreeNode Key Value) → Prop
  | [] => True
  | node :: rest =>
      slots node.id = some ⟨node.key, node.value, previous, firstOr next rest⟩ ∧
        Linked slots (some node.id) next rest

namespace Slots

/-- Put an entry into a slot, or take one out. -/
def assign (slots : Slots Key Value) (id : NodeId) (entry : Option (Entry Key Value)) :
    Slots Key Value :=
  fun slot => if id = slot then entry else slots slot

/-- Change the entry of one node, if there is such a node. -/
def change
    (slots : Slots Key Value)
    (target : Option NodeId)
    (update : Entry Key Value → Entry Key Value) :
    Slots Key Value :=
  fun slot => if target = some slot then (slots slot).map update else slots slot

/-- Let two neighbouring segments name each other's ends. -/
def splice
    (slots : Slots Key Value)
    (before after next previous : Option NodeId) :
    Slots Key Value :=
  (slots.change before fun entry => { entry with next := next }).change after
    fun entry => { entry with previous := previous }

/-- An assigned slot holds what was assigned. -/
@[simp] theorem assign_same
    (slots : Slots Key Value)
    (id : NodeId)
    (entry : Option (Entry Key Value)) :
    slots.assign id entry id = entry := by
  simp [assign]

/-- An assignment leaves every other slot as it is. -/
theorem assign_other
    (slots : Slots Key Value)
    {id slot : NodeId}
    (different : id ≠ slot)
    (entry : Option (Entry Key Value)) :
    slots.assign id entry slot = slots slot := by
  simp [assign, different]

/-- A change leaves every slot but its target as it is. -/
theorem change_other
    (slots : Slots Key Value)
    {target : Option NodeId}
    {slot : NodeId}
    (different : target ≠ some slot)
    (update : Entry Key Value → Entry Key Value) :
    slots.change target update slot = slots slot := by
  simp [change, different]

/-- Changing entries neither fills nor frees a slot. -/
@[simp] theorem change_eq_none_iff
    {slots : Slots Key Value}
    {target : Option NodeId}
    {update : Entry Key Value → Entry Key Value}
    {slot : NodeId} :
    slots.change target update slot = none ↔ slots slot = none := by
  unfold change
  split <;> simp

/-- Splicing two ends together frees no slot and fills none. -/
@[simp] theorem splice_eq_none_iff
    {slots : Slots Key Value}
    {before after next previous : Option NodeId}
    {slot : NodeId} :
    slots.splice before after next previous slot = none ↔ slots slot = none := by
  simp [splice]

end Slots

namespace Linked

variable {slots : Slots Key Value} {previous next : Option NodeId}

/-- A chain of two segments is a chain of each, with the other behind or in front. -/
theorem append_iff
    {first second : List (TreeNode Key Value)} :
    Linked slots previous next (first ++ second) ↔
      Linked slots previous (firstOr next second) first ∧
        Linked slots (lastOr previous first) next second := by
  induction first generalizing previous with
  | nil =>
      simp [Linked]
  | cons node rest inductionHypothesis =>
      simp only [List.cons_append, Linked, inductionHypothesis, firstOr_append,
        lastOr_cons, and_assoc]

/-- A chain depends on the slots of its nodes alone. -/
theorem congr
    {otherSlots : Slots Key Value}
    {nodes : List (TreeNode Key Value)}
    (linked : Linked slots previous next nodes)
    (same : ∀ id ∈ nodes.map TreeNode.id, otherSlots id = slots id) :
    Linked otherSlots previous next nodes := by
  induction nodes generalizing previous with
  | nil =>
      trivial
  | cons node rest inductionHypothesis =>
      obtain ⟨here, restLinked⟩ := linked
      refine ⟨?_, inductionHypothesis restLinked ?_⟩
      · rw [same node.id (by simp), here]
      · intro id member
        exact same id (by simp [member])

/-- What a slot of no node holds makes no difference to a chain. -/
theorem assign
    {nodes : List (TreeNode Key Value)}
    (linked : Linked slots previous next nodes)
    {id : NodeId}
    (stranger : id ∉ nodes.map TreeNode.id)
    (entry : Option (Entry Key Value)) :
    Linked (slots.assign id entry) previous next nodes := by
  refine linked.congr ?_
  intro slot member
  refine slots.assign_other ?_ entry
  intro same
  exact stranger (same ▸ member)

/-- Every node of a chain is in its slot. -/
theorem entry_of_mem
    {nodes : List (TreeNode Key Value)}
    (linked : Linked slots previous next nodes)
    {node : TreeNode Key Value}
    (member : node ∈ nodes) :
    ∃ before after, slots node.id = some ⟨node.key, node.value, before, after⟩ := by
  obtain ⟨below, above, rfl⟩ := List.append_of_mem member
  obtain ⟨here, _⟩ := (append_iff.mp linked).2
  exact ⟨_, _, here⟩

/-- Changing what the last node names as its successor moves the end of the chain. -/
theorem change_last
    {nodes : List (TreeNode Key Value)}
    (linked : Linked slots previous next nodes)
    (distinct : (nodes.map TreeNode.id).Nodup)
    (after : Option NodeId) :
    Linked (slots.change (lastOr none nodes) fun entry => { entry with next := after })
      previous after nodes := by
  rcases List.eq_nil_or_concat nodes with rfl | ⟨front, final, rfl⟩
  · trivial
  · rw [List.concat_eq_append] at *
    obtain ⟨frontLinked, here, _⟩ := append_iff.mp linked
    have lastIs : lastOr none (front ++ [final]) = some final.id := by simp
    rw [lastIs]
    refine append_iff.mpr ⟨frontLinked.congr ?_, ?_, trivial⟩
    · intro id member
      refine Slots.change_other _ ?_ _
      intro same
      rw [List.map_append, List.nodup_append] at distinct
      exact distinct.2.2 id member final.id (by simp) (Option.some.inj same).symm
    · simp [Slots.change, here]

/-- Changing what the first node names as its predecessor moves the start of the chain. -/
theorem change_first
    {nodes : List (TreeNode Key Value)}
    (linked : Linked slots previous next nodes)
    (distinct : (nodes.map TreeNode.id).Nodup)
    (before : Option NodeId) :
    Linked (slots.change (firstOr none nodes) fun entry => { entry with previous := before })
      before next nodes := by
  cases nodes with
  | nil =>
      trivial
  | cons node rest =>
      obtain ⟨here, restLinked⟩ := linked
      refine ⟨?_, restLinked.congr ?_⟩
      · simp [Slots.change, here]
      · intro id member
        refine Slots.change_other _ ?_ _
        intro same
        rw [List.map_cons, List.nodup_cons] at distinct
        rw [firstOr_cons, Option.some.injEq] at same
        exact distinct.1 (same ▸ member)

/--
Splicing gives two segments new ends where they face each other.  Neither
segment's change reaches into the other, since their nodes are distinct.
-/
theorem splice
    {below above : List (TreeNode Key Value)}
    {oldNext oldPrevious : Option NodeId}
    (belowLinked : Linked slots previous oldNext below)
    (aboveLinked : Linked slots oldPrevious next above)
    (distinct : ((below ++ above).map TreeNode.id).Nodup)
    (after before : Option NodeId) :
    Linked (slots.splice (lastOr none below) (firstOr none above) after before)
        previous after below ∧
      Linked (slots.splice (lastOr none below) (firstOr none above) after before)
        before next above := by
  rw [List.map_append, List.nodup_append] at distinct
  obtain ⟨belowDistinct, aboveDistinct, apart⟩ := distinct
  constructor
  · refine (belowLinked.change_last belowDistinct after).congr ?_
    intro id member
    refine Slots.change_other _ ?_ _
    intro isFirst
    exact apart id member id (mem_of_firstOr_none isFirst) rfl
  · have untouched :
        Linked (slots.change (lastOr none below) fun entry => { entry with next := after })
          oldPrevious next above := by
      refine aboveLinked.congr ?_
      intro id member
      refine Slots.change_other _ ?_ _
      intro isLast
      exact apart id (mem_of_lastOr_none isLast) id member rfl
    exact untouched.change_first aboveDistinct before

/-- A node in a slot of its own goes between the segments that it names as its neighbours. -/
theorem insert
    {below above : List (TreeNode Key Value)}
    {node : TreeNode Key Value}
    (linked : Linked slots none none (below ++ above))
    (distinct : ((below ++ node :: above).map TreeNode.id).Nodup) :
    Linked
      ((slots.assign node.id
        (some ⟨node.key, node.value, lastOr none below, firstOr none above⟩)).splice
        (lastOr none below) (firstOr none above) (some node.id) (some node.id))
      none none (below ++ node :: above) := by
  obtain ⟨stranger, othersDistinct⟩ := nodup_map_middle.mp distinct
  obtain ⟨belowLinked, aboveLinked⟩ := append_iff.mp (linked.assign stranger _)
  obtain ⟨belowSpliced, aboveSpliced⟩ :=
    belowLinked.splice aboveLinked othersDistinct (some node.id) (some node.id)
  rw [List.map_append, List.mem_append, not_or] at stranger
  refine append_iff.mpr ⟨belowSpliced, ?_, aboveSpliced⟩
  rw [Slots.splice, Slots.change_other, Slots.change_other, Slots.assign_same]
  · intro isLast
    exact stranger.1 (mem_of_lastOr_none isLast)
  · intro isFirst
    exact stranger.2 (mem_of_firstOr_none isFirst)

/-- A node is taken out when its neighbours name each other, whatever its slot holds then. -/
theorem erase
    {below above : List (TreeNode Key Value)}
    {node : TreeNode Key Value}
    (linked : Linked slots none none (below ++ node :: above))
    (distinct : ((below ++ node :: above).map TreeNode.id).Nodup)
    (entry : Option (Entry Key Value)) :
    Linked
      ((slots.assign node.id entry).splice
        (lastOr none below) (firstOr none above) (firstOr none above) (lastOr none below))
      none none (below ++ above) := by
  obtain ⟨stranger, othersDistinct⟩ := nodup_map_middle.mp distinct
  rw [List.map_append, List.mem_append, not_or] at stranger
  obtain ⟨belowLinked, _, aboveLinked⟩ := append_iff.mp linked
  exact append_iff.mpr
    ((belowLinked.assign stranger.1 entry).splice (aboveLinked.assign stranger.2 entry)
      othersDistinct (firstOr none above) (lastOr none below))

/-- A new value in a node's slot changes that node alone. -/
theorem change_value
    {below above : List (TreeNode Key Value)}
    {node : TreeNode Key Value}
    (linked : Linked slots previous next (below ++ node :: above))
    (distinct : ((below ++ node :: above).map TreeNode.id).Nodup)
    (value : Value) :
    Linked (slots.change (some node.id) fun entry => { entry with value := value })
      previous next (below ++ { node with value := value } :: above) := by
  obtain ⟨stranger, _⟩ := nodup_map_middle.mp distinct
  rw [List.map_append, List.mem_append, not_or] at stranger
  obtain ⟨belowLinked, here, aboveLinked⟩ := append_iff.mp linked
  refine append_iff.mpr ⟨belowLinked.congr ?_, ?_, aboveLinked.congr ?_⟩
  · intro slot member
    refine slots.change_other ?_ _
    intro same
    exact stranger.1 (Option.some.inj same ▸ member)
  · simp [Slots.change, here]
  · intro slot member
    refine slots.change_other ?_ _
    intro same
    exact stranger.2 (Option.some.inj same ▸ member)

end Linked

end OrderedIndex

import Mathlib.Data.List.Forall2
import OrderedIndex.Proofs.Tree.LinkTree

namespace OrderedIndex

/-!
# Numbering in key order

Stored nodes have no numbers of their own: a node is known by its place in key
order.  A shape whose nodes are renumbered by their places and a tree of places
say the same, so a tree of places may come from a shape or make one.
-/

/-! ## Lists by place -/

/-- Every item of a list has to do with its place, counted from an offset. -/
def AtPlaces {Item : Type} (fact : Nat → Item → Prop) : (offset : Nat) → List Item → Prop
  | _, [] => True
  | offset, item :: rest => fact offset item ∧ AtPlaces fact (offset + 1) rest

/-- The items of two lists have to do with their places if those of each list do. -/
@[simp] theorem atPlaces_append
    {Item : Type}
    {fact : Nat → Item → Prop}
    {offset : Nat}
    {first last : List Item} :
    AtPlaces fact offset (first ++ last) ↔
      AtPlaces fact offset first ∧ AtPlaces fact (offset + first.length) last := by
  induction first generalizing offset with
  | nil =>
      simp [AtPlaces]
  | cons item rest inductionHypothesis =>
      have shifted : offset + 1 + rest.length = offset + (rest.length + 1) := by
        omega
      simp [AtPlaces, inductionHypothesis, shifted, and_assoc]

/-- Where the places lead to the rows of a table, items and rows correspond. -/
theorem atPlaces_iff_forall₂
    {Item Row : Type}
    {fact : Nat → Item → Prop}
    {relation : Item → Row → Prop}
    {offset : Nat}
    {items : List Item}
    {rows : List Row}
    (sameLength : items.length = rows.length)
    (reads :
      ∀ place row,
        rows[place]? = some row → ∀ item, fact (offset + place) item ↔ relation item row) :
    AtPlaces fact offset items ↔ List.Forall₂ relation items rows := by
  induction items generalizing offset rows with
  | nil =>
      rw [List.eq_nil_of_length_eq_zero sameLength.symm]
      simp [AtPlaces]
  | cons item rest inductionHypothesis =>
      cases rows with
      | nil =>
          contradiction
      | cons row moreRows =>
          have later :
              ∀ place other,
                moreRows[place]? = some other →
                ∀ item, fact (offset + 1 + place) item ↔ relation item other := by
            intro place other atPlace
            rw [Nat.add_assoc, Nat.add_comm 1]
            exact reads (place + 1) other atPlace
          rw [AtPlaces, List.forall₂_cons, ← reads 0 row rfl item,
            inductionHypothesis (Nat.succ.inj sameLength) later, Nat.add_zero]

/-- A list that is split at an item counts upward if its parts do and the item lies between. -/
theorem append_cons_eq_range'_iff
    {offset index : Nat}
    {first last : List Nat} :
    first ++ index :: last = List.range' offset (first ++ index :: last).length ↔
      first = List.range' offset first.length ∧
        index = offset + first.length ∧
          last = List.range' (offset + first.length + 1) last.length := by
  have parts :
      List.range' offset (first ++ index :: last).length =
        List.range' offset first.length ++
          (offset + first.length) :: List.range' (offset + first.length + 1) last.length := by
    rw [List.length_append, List.length_cons, ← List.range'_append_1, List.range'_succ]
  rw [parts]
  constructor
  · intro same
    obtain ⟨firstSame, restSame⟩ := List.append_inj same (by simp)
    obtain ⟨indexSame, lastSame⟩ := List.cons.inj restSame
    exact ⟨firstSame, indexSame, lastSame⟩
  · rintro ⟨firstSame, indexSame, lastSame⟩
    rw [← firstSame, ← lastSame, indexSame]

namespace Shape

variable {Key : Type}

/-! ## Shapes by place -/

/-- The same shape with its nodes numbered by their places, counted from an offset. -/
def renumber (offset : Nat) : Shape Key → Shape Key
  | .empty => .empty
  | .node left _ key height right =>
      .node (left.renumber offset) (offset + left.size) key height
        (right.renumber (offset + left.size + 1))

/-- The tree of the places of a shape's nodes, counted from an offset. -/
def toLinkTree (offset : Nat) : Shape Key → LinkTree
  | .empty => .empty
  | .node left _ _ _ right =>
      .node (left.toLinkTree offset) (offset + left.size)
        (right.toLinkTree (offset + left.size + 1))

/-- The nodes of a shape are as many as its size tells. -/
@[simp] theorem length_toList (shape : Shape Key) : shape.toList.length = shape.size := by
  induction shape with
  | empty =>
      rfl
  | node left id key height right leftHypothesis rightHypothesis =>
      simp only [toList, size, List.length_append, List.length_cons, leftHypothesis,
        rightHypothesis]
      omega

@[simp] theorem length_ids (shape : Shape Key) : shape.ids.length = shape.size := by
  simp [ids]

/-- A shape has links for each of its nodes. -/
@[simp] theorem length_links (offset : Nat) (shape : Shape Key) :
    (shape.links offset).length = shape.size := by
  induction shape generalizing offset with
  | empty =>
      rfl
  | node left id key height right leftHypothesis rightHypothesis =>
      simp only [links, size, List.length_append, List.length_cons, leftHypothesis,
        rightHypothesis]
      omega

/-- Numbering the nodes anew keeps the size. -/
@[simp] theorem size_renumber (offset : Nat) (shape : Shape Key) :
    (shape.renumber offset).size = shape.size := by
  induction shape generalizing offset with
  | empty =>
      rfl
  | node left id key height right leftHypothesis rightHypothesis =>
      simp [renumber, size, leftHypothesis, rightHypothesis]

/-- Numbering the nodes anew keeps the height. -/
@[simp] theorem height_renumber (offset : Nat) (shape : Shape Key) :
    (shape.renumber offset).height = shape.height := by
  cases shape <;> rfl

/-- Numbering the nodes anew keeps the balance. -/
@[simp] theorem balanced_renumber {offset : Nat} {shape : Shape Key} :
    (shape.renumber offset).Balanced ↔ shape.Balanced := by
  induction shape generalizing offset with
  | empty =>
      rfl
  | node left id key height right leftHypothesis rightHypothesis =>
      simp [renumber, Balanced, leftHypothesis, rightHypothesis]

/-- Numbering the nodes anew keeps the place of the topmost node. -/
@[simp] theorem rootIndex?_renumber (offset start : Nat) (shape : Shape Key) :
    (shape.renumber start).rootIndex? offset = shape.rootIndex? offset := by
  cases shape <;> simp [renumber, rootIndex?]

/-- Links are between places, so they do not depend on the numbers of the nodes. -/
@[simp] theorem links_renumber (offset start : Nat) (shape : Shape Key) :
    (shape.renumber start).links offset = shape.links offset := by
  induction shape generalizing offset start with
  | empty =>
      rfl
  | node left id key height right leftHypothesis rightHypothesis =>
      simp [renumber, links, balance, leftHypothesis, rightHypothesis]

/-- The balances of a balanced shape are those of nodes whose children are near in height. -/
theorem Balanced.balance_mem
    {shape : Shape Key}
    (balanced : shape.Balanced)
    {offset : Nat}
    {link : NodeLinks}
    (member : link ∈ shape.links offset) :
    link.balance ∈ [(-1 : Int), 0, 1] := by
  induction shape generalizing offset with
  | empty =>
      contradiction
  | node left id key height right leftHypothesis rightHypothesis =>
      obtain ⟨leftBalanced, rightBalanced, -, near⟩ := balanced
      rw [links, List.mem_append, List.mem_cons] at member
      rcases member with inLeft | rfl | inRight
      · exact leftHypothesis leftBalanced inLeft
      · simp only [balance, List.mem_cons, List.not_mem_nil, or_false]
        unfold Near at near
        omega
      · exact rightHypothesis rightBalanced inRight

/-- The links of a shape name its places in order. -/
theorem toList_toLinkTree (offset : Nat) (shape : Shape Key) :
    (shape.toLinkTree offset).toList = List.range' offset shape.size := by
  induction shape generalizing offset with
  | empty =>
      rfl
  | node left id key height right leftHypothesis rightHypothesis =>
      have total : left.size + 1 + right.size = left.size + (right.size + 1) := by
        omega
      rw [toLinkTree, LinkTree.toList, leftHypothesis, rightHypothesis, size, total,
        ← List.range'_append_1, List.range'_succ]

/-- Keys that are found at the places of a balanced shape give the shape back. -/
theorem toShape_toLinkTree
    {keys : Array Key}
    {offset : Nat}
    {shape : Shape Key}
    (balanced : shape.Balanced)
    (keyed : AtPlaces (fun place node => keys[place]? = some node.2) offset shape.toList) :
    (shape.toLinkTree offset).toShape keys = shape.renumber offset := by
  induction shape generalizing offset with
  | empty =>
      rfl
  | node left id key height right leftHypothesis rightHypothesis =>
      obtain ⟨leftBalanced, rightBalanced, rfl, -⟩ := balanced
      rw [toList, atPlaces_append, length_toList] at keyed
      obtain ⟨leftKeyed, here, rightKeyed⟩ := keyed
      rw [toLinkTree, LinkTree.toShape, here, renumber, leftHypothesis leftBalanced leftKeyed,
        rightHypothesis rightBalanced rightKeyed]
      simp [join]

end Shape

namespace LinkTree

variable {Key : Type} {keys : Array Key}

/-- Links whose records are there make a shape of as many nodes. -/
theorem size_toShape
    {tree : LinkTree}
    (inRange : ∀ index ∈ tree.toList, index < keys.size) :
    (tree.toShape keys).size = tree.toList.length := by
  induction tree with
  | empty =>
      rfl
  | node left index right leftHypothesis rightHypothesis =>
      have leftSame := leftHypothesis fun other member => inRange other (by simp [toList, member])
      have rightSame :=
        rightHypothesis fun other member => inRange other (by simp [toList, member])
      have found := Array.getElem?_eq_getElem (inRange index (by simp [toList]))
      rw [toShape, found]
      simp only [Shape.join, Shape.size, leftSame, rightSame, toList, List.length_append,
        List.length_cons]
      omega

/-- A tree that counts upward is the tree of the places of its shape. -/
theorem toLinkTree_toShape
    {offset : Nat}
    {tree : LinkTree}
    (inRange : ∀ index ∈ tree.toList, index < keys.size)
    (counts : tree.toList = List.range' offset tree.toList.length) :
    (tree.toShape keys).toLinkTree offset = tree := by
  induction tree generalizing offset with
  | empty =>
      rfl
  | node left index right leftHypothesis rightHypothesis =>
      have leftInRange : ∀ other ∈ left.toList, other < keys.size :=
        fun other member => inRange other (by simp [toList, member])
      have rightInRange : ∀ other ∈ right.toList, other < keys.size :=
        fun other member => inRange other (by simp [toList, member])
      have found := Array.getElem?_eq_getElem (inRange index (by simp [toList]))
      obtain ⟨leftCounts, place, rightCounts⟩ := append_cons_eq_range'_iff.mp counts
      rw [toShape, found]
      simp only [Shape.join, Shape.toLinkTree, size_toShape leftInRange]
      rw [leftHypothesis leftInRange leftCounts, rightHypothesis rightInRange rightCounts, place]

end LinkTree

end OrderedIndex

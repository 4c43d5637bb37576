import OrderedIndex.Proofs.Tree.Links

namespace OrderedIndex

/-!
# Records that span a tree

Which lists of records are those of a tree can be said without any walk: every
word names the topmost record of a subtree or stands for no child, and every
balance is the difference of the heights of two subtrees.  The checks accept
such records if the tree has all of them in order, and no others.  What they
refuse them for is always what the records say.
-/

namespace LinkTree

/-- The records from a word on make a tree, and their balances are those of its nodes. -/
def Spans (records : List NodeRecord) : LinkTree → UInt32 → Prop
  | .empty, word => word = noNode
  | .node left index right, word =>
      word.toNat = index ∧
        ∃ record,
          records[index]? = some record ∧
            left.Spans records record.left ∧ right.Spans records record.right ∧
              record.balance.toInt = (left.height : Int) - right.height ∧
                record.balance.toInt.natAbs ≤ 1

variable
  {records : List NodeRecord}
  {balances : Array Int}
  {tree : LinkTree}
  {word : UInt32}
  {index height : Nat}

/-- What spans the records names records alone. -/
theorem Spans.lt_of_mem
    (spans : tree.Spans records word)
    (member : index ∈ tree.toList) :
    index < records.length := by
  induction tree generalizing word with
  | empty =>
      contradiction
  | node left top right leftHypothesis rightHypothesis =>
      obtain ⟨-, record, found, leftSpans, rightSpans, -⟩ := spans
      rw [toList, List.mem_append, List.mem_cons] at member
      rcases member with isLeft | rfl | isRight
      · exact leftHypothesis leftSpans isLeft
      · exact (List.getElem?_eq_some_iff.mp found).1
      · exact rightHypothesis rightSpans isRight

/-- The height that is found by checking balances is the height. -/
theorem height_of_checkBalance
    (checked : tree.checkBalance balances = .ok height) :
    tree.height = height := by
  induction tree generalizing height with
  | empty =>
      exact Except.ok.inj checked
  | node left index right leftHypothesis rightHypothesis =>
      simp only [checkBalance, bind_eq_ok_iff] at checked
      obtain ⟨rightHeight, rightChecked, leftHeight, leftChecked, checked⟩ := checked
      split at checked
      next =>
        cases checked
        rw [LinkTree.height, leftHypothesis leftChecked, rightHypothesis rightChecked]
      next =>
        contradiction

/-- The balances of records that span a tree pass the check. -/
theorem Spans.checkBalance_eq
    (spans : tree.Spans records word) :
    tree.checkBalance (records.map fun record => record.balance.toInt).toArray =
      .ok tree.height := by
  induction tree generalizing word with
  | empty =>
      rfl
  | node left top right leftHypothesis rightHypothesis =>
      obtain ⟨-, record, found, leftSpans, rightSpans, balance_eq, near⟩ := spans
      have stored :
          (records.map fun record => record.balance.toInt).toArray[top]?.getD 0 =
            (left.height : Int) - right.height := by
        simp [found, balance_eq]
      rw [balance_eq] at near
      rw [checkBalance, leftHypothesis leftSpans, rightHypothesis rightSpans]
      simp only [ok_bind, stored, near, and_self, ↓reduceIte]
      rfl

end LinkTree

namespace Shape

variable {Key : Type} {shape : Shape Key} {records : List NodeRecord} {offset : Nat}

/-- The height of a balanced shape is counted by its links. -/
theorem height_toLinkTree (balanced : shape.Balanced) :
    (shape.toLinkTree offset).height = shape.height := by
  induction shape generalizing offset with
  | empty =>
      rfl
  | node left id key height right leftHypothesis rightHypothesis =>
      obtain ⟨leftBalanced, rightBalanced, rfl, -⟩ := balanced
      rw [toLinkTree, LinkTree.height, leftHypothesis leftBalanced, rightHypothesis rightBalanced]
      rfl

/-- Records span a balanced shape exactly if every one spells the links in its place. -/
theorem spans_toLinkTree_iff
    (bounded : records.length ≤ noNode.toNat)
    (balanced : shape.Balanced)
    {word : UInt32} :
    (shape.toLinkTree offset).Spans records word ↔
      word = NodeRecord.childWord (shape.rootIndex? offset) ∧
        AtPlaces
          (fun place node =>
            ∃ record, records[place]? = some record ∧ NodeRecord.Spells node record)
          offset (shape.links offset) := by
  induction shape generalizing offset word with
  | empty =>
      simp [toLinkTree, LinkTree.Spans, rootIndex?, links, AtPlaces, NodeRecord.childWord]
  | node left id key height right leftHypothesis rightHypothesis =>
      obtain ⟨leftBalanced, rightBalanced, -, near⟩ := balanced
      simp only [toLinkTree, LinkTree.Spans, leftHypothesis leftBalanced,
        rightHypothesis rightBalanced, height_toLinkTree leftBalanced,
        height_toLinkTree rightBalanced, rootIndex?, links, atPlaces_append, length_links, AtPlaces,
        NodeRecord.childWord]
      have named (record : NodeRecord) (found : records[offset + left.size]? = some record) :
          word.toNat = offset + left.size ↔ word = UInt32.ofNat (offset + left.size) := by
        have inRange := (List.getElem?_eq_some_iff.mp found).1
        have small : offset + left.size < UInt32.size :=
          Nat.lt_of_lt_of_le inRange (Nat.le_trans bounded (by decide))
        rw [← UInt32.toNat_inj, UInt32.toNat_ofNat_of_lt' small]
      constructor
      · rintro ⟨word_eq, record, found, ⟨left_eq, leftPlaced⟩, ⟨right_eq, rightPlaced⟩,
          balance_eq, -⟩
        exact ⟨(named record found).mp word_eq, leftPlaced,
          ⟨record, found, ⟨left_eq, right_eq, balance_eq⟩⟩, rightPlaced⟩
      · rintro ⟨word_eq, leftPlaced, ⟨record, found, ⟨left_eq, right_eq, balance_eq⟩⟩,
          rightPlaced⟩
        refine ⟨(named record found).mpr word_eq, record, found, ⟨left_eq, leftPlaced⟩,
          ⟨right_eq, rightPlaced⟩, balance_eq, ?_⟩
        rw [balance_eq]
        dsimp only [Shape.balance]
        unfold Near at near
        omega

end Shape

namespace Links

variable
  {root : UInt32}
  {records : List NodeRecord}
  {tree : LinkTree}
  {cause : DecodeError}

/-- Links and balances are accepted exactly if the records span a tree that has them in order. -/
theorem accepted_iff
    (nonempty : records ≠ [])
    (bounded : records.length ≤ noNode.toNat) :
    (∃ links, ofRecords root records = .ok links ∧ links.checkShape records = .ok tree) ↔
      tree.Spans records root ∧ tree.toList = List.range records.length := by
  let keys : Array Unit := Array.replicate records.length ()
  have keysSize : keys.size = records.length := Array.size_replicate
  have spelledIff {shape : Shape Unit} (sizes : shape.size = records.length) :
      AtPlaces
          (fun place node =>
            ∃ record, records[place]? = some record ∧ NodeRecord.Spells node record)
          0 (shape.links 0) ↔
        List.Forall₂ NodeRecord.Spells (shape.links 0) records := by
    refine atPlaces_iff_forall₂ (by rw [Shape.length_links, sizes]) ?_
    intro place record found node
    simp [found]
  constructor
  · rintro ⟨links, accepted, checked⟩
    obtain ⟨balanced, isPlaces, rfl, spelled⟩ :=
      spells_of_checkShape bounded keysSize accepted checked
    have sizes : (tree.toShape keys).size = records.length := by
      rw [← spelled.length_eq, Shape.length_links]
    have spans := (Shape.spans_toLinkTree_iff bounded balanced).mpr
      ⟨rfl, (spelledIff sizes).mpr spelled⟩
    rw [isPlaces] at spans
    refine ⟨spans, ?_⟩
    rw [← isPlaces, Shape.toList_toLinkTree, sizes, List.range_eq_range']
  · rintro ⟨spans, counts⟩
    have inRange : ∀ index ∈ tree.toList, index < keys.size := fun index member =>
      keysSize ▸ spans.lt_of_mem member
    have length_eq : tree.toList.length = records.length := by
      rw [counts, List.length_range]
    have sizes : (tree.toShape keys).size = records.length := by
      rw [LinkTree.size_toShape inRange, length_eq]
    obtain ⟨balanced, -⟩ := LinkTree.toShape_balanced inRange spans.checkBalance_eq
    have isPlaces : (tree.toShape keys).toLinkTree 0 = tree := by
      refine LinkTree.toLinkTree_toShape inRange ?_
      rw [length_eq, counts, List.range_eq_range']
    rw [← isPlaces, Shape.spans_toLinkTree_iff bounded balanced, spelledIff sizes] at spans
    obtain ⟨rfl, spelled⟩ := spans
    cases isRoot : (tree.toShape keys).rootIndex? 0 with
    | none =>
        cases shape_eq : tree.toShape keys with
        | empty =>
            rw [shape_eq] at sizes
            exact (nonempty (List.eq_nil_of_length_eq_zero sizes.symm)).elim
        | node left id key height right =>
            rw [shape_eq] at isRoot
            contradiction
    | some top =>
        have checked := checkShape_of_spells balanced bounded isRoot spelled
        rwa [isPlaces] at checked

/-! ## What records are refused for -/

/-- A check that refuses nothing but malformed input. -/
def RefusesMalformed {Result : Type} (checked : Except DecodeError Result) : Prop :=
  ∀ cause, checked = .error cause → ∃ text, cause = .malformed text

namespace RefusesMalformed

variable {First Second : Type}

/-- What succeeds refuses nothing. -/
theorem ok (result : First) : RefusesMalformed (.ok result) := by
  intro cause refused
  contradiction

/-- What is malformed is refused as such. -/
theorem malformed (text : String) :
    RefusesMalformed (.error (.malformed text) : Except DecodeError First) := by
  intro cause refused
  cases refused
  exact ⟨text, rfl⟩

/-- Two checks in a row refuse what either refuses. -/
theorem bind
    {first : Except DecodeError First}
    {second : First → Except DecodeError Second}
    (ofFirst : RefusesMalformed first)
    (ofSecond : ∀ item, RefusesMalformed (second item)) :
    RefusesMalformed (first >>= second) := by
  intro cause refused
  cases first with
  | error other =>
      cases refused
      exact ofFirst _ rfl
  | ok item =>
      exact ofSecond item cause refused

end RefusesMalformed

/-- A word that names no record is refused as malformed. -/
theorem refusesMalformed_index? (part : String) (count : Nat) (word : UInt32) :
    RefusesMalformed (index? part count word) := by
  unfold index?
  split
  · exact .ok none
  · split
    · exact .ok _
    · exact .malformed _

/-- A second claim of a record is refused as malformed. -/
theorem refusesMalformed_claim (claimed : List Nat) (link : Option Nat) :
    RefusesMalformed (claim claimed link) := by
  cases link with
  | none =>
      exact .ok claimed
  | some index =>
      rw [claim]
      split
      · exact .malformed _
      · exact .ok _

theorem refusesMalformed_children? (count : Nat) (claimed : List Nat) (records : List NodeRecord) :
    RefusesMalformed (children? count claimed records) := by
  induction records generalizing claimed with
  | nil =>
      exact .ok []
  | cons record rest inductionHypothesis =>
      refine .bind (refusesMalformed_index? _ _ _) fun left => ?_
      refine .bind (refusesMalformed_index? _ _ _) fun right => ?_
      refine .bind (refusesMalformed_claim _ _) fun claimedLeft => ?_
      refine .bind (refusesMalformed_claim _ _) fun claimedBoth => ?_
      exact .bind (inductionHypothesis claimedBoth) fun others => .ok _

/-- Links that do not make a tree are refused as malformed. -/
theorem refusesMalformed_ofRecords (root : UInt32) (records : List NodeRecord) :
    RefusesMalformed (ofRecords root records) := by
  refine .bind (refusesMalformed_index? _ _ _) fun link => ?_
  cases link with
  | none =>
      exact .malformed _
  | some index =>
      exact .bind (refusesMalformed_children? _ _ _) fun children => .ok _

/-- Wrong balances are refused as malformed. -/
theorem refusesMalformed_checkBalance (balances : Array Int) (tree : LinkTree) :
    RefusesMalformed (tree.checkBalance balances) := by
  induction tree with
  | empty =>
      exact .ok 0
  | node left index right leftHypothesis rightHypothesis =>
      refine .bind rightHypothesis fun rightHeight => ?_
      refine .bind leftHypothesis fun leftHeight => ?_
      dsimp only
      split
      · exact .ok _
      · exact .malformed _

/-- A wrong shape is refused as malformed. -/
theorem refusesMalformed_checkShape (links : Links) (records : List NodeRecord) :
    RefusesMalformed (links.checkShape records) := by
  unfold checkShape
  dsimp only
  split
  · exact .malformed _
  · split
    · exact .malformed _
    · exact .bind (refusesMalformed_checkBalance _ _) fun height => .ok _

end Links

end OrderedIndex

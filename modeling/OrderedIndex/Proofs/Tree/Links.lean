import Mathlib.Data.List.Perm.Subperm
import OrderedIndex.Proofs.Tree.Numbering
import OrderedIndex.Proofs.Tree.Record

namespace OrderedIndex.Links

/-!
# Checked links

The links that pass the checks are exactly those of balanced shapes.  A shape
names each of its nodes once, as the topmost one or as a child, so its links
are accepted.  The other way around, links that name no node twice name just
enough of them for a tree that holds all nodes, so the walk along the links is
never cut short.
-/

/-! ## Naming nodes -/

/-- A word names an index below the number of nodes exactly if it is the word for it. -/
theorem index?_eq_ok_iff
    {part : String}
    {count : Nat}
    (bounded : count ≤ noNode.toNat)
    {word : UInt32}
    {link : Option Nat} :
    index? part count word = .ok link ↔
      word = NodeRecord.childWord link ∧ ∀ index ∈ link, index < count := by
  unfold index?
  constructor
  · intro named
    split at named
    next absent =>
      cases Except.ok.inj named
      exact ⟨absent, by simp⟩
    next =>
      split at named
      next inRange =>
        cases Except.ok.inj named
        exact ⟨UInt32.ofNat_toNat.symm, by simpa using inRange⟩
      next =>
        contradiction
  · rintro ⟨rfl, inRange⟩
    cases link with
    | none =>
        simp [NodeRecord.childWord]
    | some index =>
        have small : index < count := inRange index rfl
        have exact_index : (UInt32.ofNat index).toNat = index :=
          UInt32.toNat_ofNat_of_lt' (Nat.lt_of_lt_of_le small (Nat.le_trans bounded (by decide)))
        have present : UInt32.ofNat index ≠ noNode := by
          intro same
          have := congrArg UInt32.toNat same
          omega
        simp [NodeRecord.childWord, present, exact_index, small]

/-- The nodes that child links name. -/
def named (children : List (Option Nat × Option Nat)) : List Nat :=
  children.flatMap fun links => links.1.toList ++ links.2.toList

theorem claim_eq_ok_iff
    {claimed result : List Nat}
    (distinct : claimed.Nodup)
    {link : Option Nat} :
    claim claimed link = .ok result ↔ result = link.toList ++ claimed ∧ result.Nodup := by
  cases link with
  | none =>
      simp only [claim, Except.ok.injEq, Option.toList_none, List.nil_append]
      exact ⟨fun same => ⟨same.symm, same ▸ distinct⟩, fun same => same.1.symm⟩
  | some index =>
      by_cases again : index ∈ claimed
      · simp only [claim, List.contains_eq_mem, again, decide_true, ↓reduceIte, reduceCtorEq,
          Option.toList_some, List.singleton_append, false_iff]
        rintro ⟨rfl, fresh⟩
        exact (List.nodup_cons.mp fresh).1 again
      · simp only [claim, List.contains_eq_mem, again, decide_false, Bool.false_eq_true,
          ↓reduceIte, Except.ok.injEq, Option.toList_some, List.singleton_append]
        exact ⟨fun same => ⟨same.symm, same ▸ List.nodup_cons.mpr ⟨again, distinct⟩⟩,
          fun same => same.1.symm⟩

/-- The words of a record name the children. -/
def Names (children : Option Nat × Option Nat) (record : NodeRecord) : Prop :=
  record.left = NodeRecord.childWord children.1 ∧ record.right = NodeRecord.childWord children.2

/-- Child links are accepted exactly if every index is in range and is named once at most. -/
theorem children?_eq_ok_iff
    {count : Nat}
    (bounded : count ≤ noNode.toNat)
    {claimed : List Nat}
    (distinct : claimed.Nodup)
    {records : List NodeRecord}
    {children : List (Option Nat × Option Nat)} :
    children? count claimed records = .ok children ↔
      List.Forall₂ Names children records ∧
        (∀ index ∈ named children, index < count) ∧ (claimed ++ named children).Nodup := by
  induction records generalizing claimed children with
  | nil =>
      rw [children?, Except.ok.injEq, List.forall₂_nil_right_iff]
      constructor
      · rintro rfl
        exact ⟨rfl, by simp [named], by simpa [named] using distinct⟩
      · rintro ⟨rfl, -⟩
        rfl
  | cons record rest inductionHypothesis =>
      simp only [children?, bind_eq_ok_iff, index?_eq_ok_iff bounded]
      have reorder
          (left right : Option Nat)
          (others : List Nat) :
          ((right.toList ++ (left.toList ++ claimed)) ++ others).Perm
            (claimed ++ (left.toList ++ right.toList ++ others)) := by
        rw [← List.append_assoc claimed, ← List.append_assoc claimed]
        refine List.Perm.append_right others (List.perm_append_comm.trans ?_)
        exact List.perm_append_comm.append_right right.toList
      constructor
      · rintro ⟨left, ⟨leftWord, leftSmall⟩, right, ⟨rightWord, rightSmall⟩, afterLeft,
          leftClaimed, afterBoth, rightClaimed, others, othersNamed, result⟩
        obtain ⟨rfl, leftDistinct⟩ := (claim_eq_ok_iff distinct).mp leftClaimed
        obtain ⟨rfl, bothDistinct⟩ := (claim_eq_ok_iff leftDistinct).mp rightClaimed
        obtain ⟨othersWords, othersSmall, othersDistinct⟩ :=
          (inductionHypothesis bothDistinct).mp othersNamed
        cases Except.ok.inj result
        refine ⟨.cons ⟨leftWord, rightWord⟩ othersWords, ?_,
          (reorder left right _).nodup_iff.mp othersDistinct⟩
        intro index member
        rw [named, List.flatMap_cons, List.mem_append, List.mem_append, Option.mem_toList,
          Option.mem_toList] at member
        rcases member with (inLeft | inRight) | inOthers
        · exact leftSmall index inLeft
        · exact rightSmall index inRight
        · exact othersSmall index inOthers
      · rintro ⟨words, small, fresh⟩
        cases words with
        | cons first othersWords =>
            rename_i pair others
            obtain ⟨left, right⟩ := pair
            have allDistinct := (reorder left right (named others)).nodup_iff.mpr fresh
            have bothDistinct := (List.nodup_append.mp allDistinct).1
            have leftDistinct := (List.nodup_append.mp bothDistinct).2.1
            have memberOf
                {index : Nat}
                (member :
                  index ∈ left.toList ++ right.toList ∨ index ∈ named others) :
                index < count :=
              small index (List.mem_append.mpr member)
            refine ⟨left, ⟨first.1, ?_⟩, right, ⟨first.2, ?_⟩, _,
              (claim_eq_ok_iff distinct).mpr ⟨rfl, leftDistinct⟩, _,
              (claim_eq_ok_iff leftDistinct).mpr ⟨rfl, bothDistinct⟩, others,
              (inductionHypothesis bothDistinct).mpr ⟨othersWords, ?_, allDistinct⟩, rfl⟩
            · intro index isLeft
              exact memberOf (.inl (by simp [Option.mem_def.mp isLeft]))
            · intro index isRight
              exact memberOf (.inl (by simp [Option.mem_def.mp isRight]))
            · intro index isOther
              exact memberOf (.inr isOther)

/-- Links are accepted exactly if they name no node twice, the topmost one included. -/
theorem ofRecords_eq_ok_iff
    {root : UInt32}
    {records : List NodeRecord}
    (bounded : records.length ≤ noNode.toNat)
    {links : Links} :
    ofRecords root records = .ok links ↔
      root = NodeRecord.childWord (some links.root) ∧
        ∃ children,
          links.children = children.toArray ∧
            List.Forall₂ Names children records ∧
              (∀ index ∈ links.root :: named children, index < records.length) ∧
                (links.root :: named children).Nodup := by
  simp only [ofRecords, bind_eq_ok_iff, index?_eq_ok_iff bounded]
  constructor
  · rintro ⟨link, ⟨rootWord, rootSmall⟩, accepted⟩
    cases link with
    | none =>
        contradiction
    | some index =>
        obtain ⟨children, childrenNamed, result⟩ := bind_eq_ok_iff.mp accepted
        cases Except.ok.inj result
        obtain ⟨words, small, distinct⟩ :=
          (children?_eq_ok_iff bounded (List.pairwise_singleton _ index)).mp childrenNamed
        exact ⟨rootWord, children, rfl, words,
          List.forall_mem_cons.mpr ⟨rootSmall index rfl, small⟩, distinct⟩
  · obtain ⟨index, table⟩ := links
    rintro ⟨rootWord, children, rfl, words, small, distinct⟩
    obtain ⟨rootSmall, othersSmall⟩ := List.forall_mem_cons.mp small
    refine ⟨some index, ⟨rootWord, by simpa using rootSmall⟩, ?_⟩
    exact bind_eq_ok_iff.mpr ⟨children,
      (children?_eq_ok_iff bounded (List.pairwise_singleton _ index)).mpr
        ⟨words, othersSmall, distinct⟩, rfl⟩

/-! ## Walking along links -/

/-- A tree is where the links lead from a link on. -/
def Follows (links : Links) : Option Nat → LinkTree → Prop
  | link, .empty => link = none
  | link, .node left index right =>
      link = some index ∧
        ∃ children,
          links.children[index]? = some children ∧
            links.Follows children.1 left ∧ links.Follows children.2 right

/-- A walk that may go as deep as there are nodes grows the whole tree. -/
theorem grow_of_follows
    {links : Links}
    {tree : LinkTree}
    {link : Option Nat}
    {depth : Nat}
    (follows : links.Follows link tree)
    (deep : tree.toList.length ≤ depth) :
    links.grow depth link = tree := by
  induction tree generalizing link depth with
  | empty =>
      cases depth <;> simp [show link = none from follows, grow]
  | node left index right leftHypothesis rightHypothesis =>
      obtain ⟨rfl, children, found, leftFollows, rightFollows⟩ := follows
      rw [LinkTree.toList, List.length_append, List.length_cons] at deep
      cases depth with
      | zero =>
          omega
      | succ depth =>
          simp only [grow, found]
          rw [leftHypothesis leftFollows (by omega), rightHypothesis rightFollows (by omega)]

/--
A grown tree has no more nodes than its nodes name, and the link that it is
grown from.  It has as many only if no walk was cut short.
-/
theorem grow_counted (links : Links) (depth : Nat) (link : Option Nat) :
    let tree := links.grow depth link
    let naming := link.toList ++ named (tree.toList.filterMap (links.children[·]?))
    tree.toList.length ≤ naming.length ∧
      (tree.toList.length = naming.length → links.Follows link tree) := by
  induction depth generalizing link with
  | zero =>
      cases link <;> simp [grow, LinkTree.toList, named, Follows]
  | succ depth inductionHypothesis =>
      cases link with
      | none =>
          simp [grow, LinkTree.toList, named, Follows]
      | some index =>
          cases found : links.children[index]? with
          | none =>
              simp [grow, found, LinkTree.toList, named, Follows]
          | some children =>
              obtain ⟨left, right⟩ := children
              obtain ⟨leftBound, leftFollows⟩ := inductionHypothesis left
              obtain ⟨rightBound, rightFollows⟩ := inductionHypothesis right
              simp only [named, List.length_append] at leftBound leftFollows rightBound rightFollows
              simp only [grow, found, LinkTree.toList, named, List.filterMap_append,
                List.filterMap_cons, List.flatMap_append, List.flatMap_cons, List.length_append,
                List.length_cons, Option.toList_some, List.length_nil]
              refine ⟨by omega, ?_⟩
              intro same
              exact ⟨rfl, (left, right), found, leftFollows (by omega), rightFollows (by omega)⟩

/-- The places of all nodes lead to all rows of a table. -/
theorem filterMap_range'_children
    {links : Links}
    {children : List (Option Nat × Option Nat)}
    (children_eq : links.children = children.toArray) :
    (List.range' 0 children.length).filterMap (links.children[·]?) = children := by
  have read := filterMap_range' [] children fun _ links => links
  have same : children.mapIdx (fun _ links => links) = children :=
    List.ext_getElem? fun place => by simp
  simpa [children_eq, same] using read

/-! ## The links of a shape -/

/-- The child links of a node. -/
def childrenOf (links : NodeLinks) : Option Nat × Option Nat := (links.left, links.right)

variable {Key : Type}

/-- The links lead along a shape exactly if every node's links are in its place. -/
theorem follows_toLinkTree_iff
    {links : Links}
    {shape : Shape Key}
    {link : Option Nat}
    {offset : Nat} :
    links.Follows link (shape.toLinkTree offset) ↔
      link = shape.rootIndex? offset ∧
        AtPlaces (fun place node => links.children[place]? = some (childrenOf node)) offset
          (shape.links offset) := by
  induction shape generalizing link offset with
  | empty =>
      simp [Shape.toLinkTree, Follows, Shape.rootIndex?, Shape.links, AtPlaces]
  | node left id key height right leftHypothesis rightHypothesis =>
      simp only [Shape.toLinkTree, Follows, leftHypothesis, rightHypothesis, Shape.rootIndex?,
        Shape.links, atPlaces_append, Shape.length_links, AtPlaces, childrenOf]
      constructor
      · rintro ⟨isRoot, ⟨first, second⟩, found, ⟨rfl, leftPlaced⟩, rfl, rightPlaced⟩
        exact ⟨isRoot, leftPlaced, found, rightPlaced⟩
      · rintro ⟨isRoot, leftPlaced, found, rightPlaced⟩
        exact ⟨isRoot, _, found, ⟨rfl, leftPlaced⟩, rfl, rightPlaced⟩

/-- A shape names every node once, as the topmost one or as a child. -/
theorem named_perm (shape : Shape Key) (offset : Nat) :
    ((shape.rootIndex? offset).toList ++ named ((shape.links offset).map childrenOf)).Perm
      (List.range' offset shape.size) := by
  induction shape generalizing offset with
  | empty =>
      simp [Shape.rootIndex?, Shape.links, named, Shape.size]
  | node left id key height right leftHypothesis rightHypothesis =>
      have total : left.size + 1 + right.size = left.size + (right.size + 1) := by
        omega
      rw [Shape.size, total, ← List.range'_append_1, List.range'_succ]
      simp only [Shape.rootIndex?, Shape.links, named, childrenOf, List.map_append, List.map_cons,
        List.flatMap_append, List.flatMap_cons, Option.toList_some, List.singleton_append]
      refine (List.Perm.cons _ ?_).trans List.perm_middle.symm
      refine List.Perm.trans ?_ ((leftHypothesis offset).append (rightHypothesis _))
      simp only [named, ← List.append_assoc]
      refine List.Perm.append_right _ (List.Perm.append_right _ ?_)
      exact List.perm_append_comm

/-- A balanced shape passes the check of balances exactly if every balance is in its place. -/
theorem checkBalance_toLinkTree_iff
    {balances : Array Int}
    {shape : Shape Key}
    (balanced : shape.Balanced)
    {offset height : Nat} :
    (shape.toLinkTree offset).checkBalance balances = .ok height ↔
      height = shape.height ∧
        AtPlaces (fun place node => balances[place]?.getD 0 = node.balance) offset
          (shape.links offset) := by
  induction shape generalizing offset height with
  | empty =>
      simp [Shape.toLinkTree, LinkTree.checkBalance, Shape.links, AtPlaces, eq_comm]
  | node left id key stored right leftHypothesis rightHypothesis =>
      obtain ⟨leftBalanced, rightBalanced, rfl, near⟩ := balanced
      have close : ((left.height : Int) - right.height).natAbs ≤ 1 := by
        unfold Shape.Near at near
        omega
      simp only [Shape.toLinkTree, LinkTree.checkBalance, bind_eq_ok_iff,
        leftHypothesis leftBalanced, rightHypothesis rightBalanced, Shape.height_node,
        Shape.links, Shape.balance, atPlaces_append, Shape.length_links, AtPlaces]
      constructor
      · rintro ⟨_, ⟨rfl, rightPlaced⟩, _, ⟨rfl, leftPlaced⟩, checked⟩
        split at checked
        next here =>
          exact ⟨(Except.ok.inj checked).symm, leftPlaced, here.1, rightPlaced⟩
        next =>
          contradiction
      · rintro ⟨rfl, leftPlaced, here, rightPlaced⟩
        refine ⟨_, ⟨rfl, rightPlaced⟩, _, ⟨rfl, leftPlaced⟩, ?_⟩
        rw [if_pos ⟨here, close⟩]

/-- The links of a balanced shape pass all checks. -/
theorem checkShape_of_spells
    {shape : Shape Key}
    {records : List NodeRecord}
    {root : Nat}
    (balanced : shape.Balanced)
    (bounded : records.length ≤ noNode.toNat)
    (isRoot : shape.rootIndex? 0 = some root)
    (spelled : List.Forall₂ NodeRecord.Spells (shape.links 0) records) :
    ∃ links,
      ofRecords (UInt32.ofNat root) records = .ok links ∧
        links.checkShape records = .ok (shape.toLinkTree 0) := by
  have sameLength : shape.size = records.length := by
    rw [← spelled.length_eq, Shape.length_links]
  have perm := named_perm shape 0
  rw [isRoot, Option.toList_some, List.singleton_append, sameLength] at perm
  let links : Links := ⟨root, ((shape.links 0).map childrenOf).toArray⟩
  have accepted : ofRecords (UInt32.ofNat root) records = .ok links := by
    refine (ofRecords_eq_ok_iff bounded).mpr ⟨rfl, _, rfl, ?_, ?_, ?_⟩
    · exact List.forall₂_map_left_iff.mpr
        (spelled.imp fun _ _ spells => ⟨spells.left, spells.right⟩)
    · intro index member
      have inRange := perm.mem_iff.mp member
      simpa using (List.mem_range'_1.mp inRange).2
    · exact perm.nodup_iff.mpr List.nodup_range'
  have follows : links.Follows (some root) (shape.toLinkTree 0) := by
    refine follows_toLinkTree_iff.mpr ⟨isRoot.symm, ?_⟩
    have same :
        List.Forall₂ (fun first second => childrenOf second = childrenOf first) (shape.links 0)
          (shape.links 0) :=
      List.forall₂_same.mpr fun _ _ => rfl
    refine (atPlaces_iff_forall₂ rfl ?_).mpr same
    intro place row atPlace item
    simp [links, atPlace]
  refine ⟨links, accepted, checkShape_eq_ok_iff.mpr ⟨?_, ?_, shape.height, ?_⟩⟩
  · refine grow_of_follows follows ?_
    simp [links, Shape.toList_toLinkTree]
  · rw [Shape.toList_toLinkTree, sameLength]
  · refine (checkBalance_toLinkTree_iff balanced).mpr ⟨rfl, ?_⟩
    refine (atPlaces_iff_forall₂ spelled.length_eq ?_).mpr
      (spelled.imp fun _ _ spells => spells.balance)
    intro place record atPlace item
    simp [atPlace]

/--
Links that name no node twice lead along a tree that holds all nodes.  Such a
tree needs all the names that there can be, so no walk was cut short.
-/
theorem follows_toTree
    {links : Links}
    {children : List (Option Nat × Option Nat)}
    (children_eq : links.children = children.toArray)
    (small : ∀ index ∈ links.root :: named children, index < children.length)
    (distinct : (links.root :: named children).Nodup)
    (counts : links.toTree.toList = List.range' 0 children.length) :
    links.Follows (some links.root) links.toTree := by
  obtain ⟨enough, follows_of_full⟩ :=
    grow_counted links links.children.size (some links.root)
  rw [← toTree, counts, filterMap_range'_children children_eq] at enough follows_of_full
  have inside : links.root :: named children ⊆ List.range' 0 children.length := by
    intro index member
    rw [List.mem_range'_1]
    simpa using small index member
  have notMore := (List.subperm_of_subset distinct inside).length_le
  refine follows_of_full (Nat.le_antisymm enough ?_)
  simpa using notMore

/-- Links that pass all checks are the links of a balanced shape. -/
theorem spells_of_checkShape
    {root : UInt32}
    {records : List NodeRecord}
    {links : Links}
    {tree : LinkTree}
    {keys : Array Key}
    (bounded : records.length ≤ noNode.toNat)
    (keysSize : keys.size = records.length)
    (accepted : ofRecords root records = .ok links)
    (checked : links.checkShape records = .ok tree) :
    (tree.toShape keys).Balanced ∧
      (tree.toShape keys).toLinkTree 0 = tree ∧
        root = NodeRecord.childWord ((tree.toShape keys).rootIndex? 0) ∧
          List.Forall₂ NodeRecord.Spells ((tree.toShape keys).links 0) records := by
  obtain ⟨rootWord, children, children_eq, words, small, distinct⟩ :=
    (ofRecords_eq_ok_iff bounded).mp accepted
  obtain ⟨rfl, counts, height, weighed⟩ := checkShape_eq_ok_iff.mp checked
  have sameLength := words.length_eq
  have inRange : ∀ index ∈ links.toTree.toList, index < keys.size := by
    intro index member
    rw [counts, List.mem_range'_1] at member
    rw [keysSize]
    simpa using member.2
  have isPlaces : (links.toTree.toShape keys).toLinkTree 0 = links.toTree := by
    refine LinkTree.toLinkTree_toShape inRange ?_
    rw [counts, List.length_range']
  have sizes : ((links.toTree.toShape keys).links 0).length = records.length := by
    rw [Shape.length_links, LinkTree.size_toShape inRange, counts, List.length_range']
  have follows : links.Follows (some links.root) links.toTree := by
    rw [← sameLength] at small counts
    exact follows_toTree children_eq small distinct counts
  obtain ⟨balanced, -⟩ := LinkTree.toShape_balanced inRange weighed
  rw [← isPlaces] at follows weighed
  obtain ⟨isRoot, linked⟩ := follows_toLinkTree_iff.mp follows
  obtain ⟨-, weights⟩ := (checkBalance_toLinkTree_iff balanced).mp weighed
  refine ⟨balanced, isPlaces, isRoot ▸ rootWord, ?_⟩
  have namesChildren :
      List.Forall₂ (fun node row => childrenOf node = row) ((links.toTree.toShape keys).links 0)
        children := by
    refine (atPlaces_iff_forall₂ (sizes.trans sameLength.symm) ?_).mp linked
    intro place row atPlace node
    simp [children_eq, atPlace, eq_comm]
  have weighs :
      List.Forall₂ (fun node record => record.balance.toInt = node.balance)
        ((links.toTree.toShape keys).links 0) records := by
    refine (atPlaces_iff_forall₂ sizes ?_).mp weights
    intro place record atPlace node
    simp [atPlace]
  have children_map : ((links.toTree.toShape keys).links 0).map childrenOf = children :=
    List.forall₂_eq_eq_eq ▸ List.forall₂_map_left_iff.mpr namesChildren
  rw [← children_map] at words
  exact (List.forall₂_map_left_iff.mp words).mp
    (fun _ _ names weight => ⟨names.1, names.2, weight⟩) weighs

end OrderedIndex.Links

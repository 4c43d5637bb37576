import OrderedIndex.Proofs.Computation
import OrderedIndex.Proofs.Shape.Balance
import OrderedIndex.Tree.Links

namespace OrderedIndex

/-!
# Checked link trees

A tree of indices that passes the checks has the indices in order and the
heights that its balances promise, and so has the shape that is made of it.
-/

/-- Reading indexed items along their places numbers them from there on. -/
theorem filterMap_range'
    {Item Result : Type}
    (before items : List Item)
    (read : Nat → Item → Result) :
    ((List.range' before.length items.length).filterMap fun index =>
        (before ++ items)[index]?.map (read index)) =
      items.mapIdx fun place item => read (before.length + place) item := by
  induction items generalizing before with
  | nil =>
      rfl
  | cons item rest inductionHypothesis =>
      have here : (before ++ item :: rest)[before.length]? = some item := by
        simp
      have shifted := inductionHypothesis (before ++ [item])
      simp only [List.length_append, List.length_singleton, List.append_assoc,
        List.singleton_append] at shifted
      rw [List.length_cons, List.range'_succ, List.filterMap_cons, here, Option.map_some,
        List.mapIdx_cons, shifted]
      simp [Nat.add_assoc, Nat.add_comm 1]

/-- A walk is in place exactly when it counts upward. -/
theorem Links.misplaced?_eq_none_iff
    {expected : Nat}
    {walk : List Nat} :
    misplaced? expected walk = none ↔ walk = List.range' expected walk.length := by
  induction walk generalizing expected with
  | nil =>
      simp [misplaced?]
  | cons index rest inductionHypothesis =>
      rw [misplaced?, List.length_cons, List.range'_succ, List.cons.injEq]
      by_cases inPlace : index = expected
      · rw [if_pos inPlace, inductionHypothesis]
        exact ⟨fun restInPlace => ⟨inPlace, restInPlace⟩, And.right⟩
      · simp [inPlace]

namespace LinkTree

variable {Key : Type} {keys : Array Key}

/-- The shape lists the keys of the indices. -/
theorem toList_toShape
    {tree : LinkTree}
    (inRange : ∀ index ∈ tree.toList, index < keys.size) :
    (tree.toShape keys).toList =
      tree.toList.filterMap fun index => keys[index]?.map fun key => (index, key) := by
  induction tree with
  | empty =>
      rfl
  | node left index right leftHypothesis rightHypothesis =>
      have leftSame := leftHypothesis fun other member => inRange other (by simp [toList, member])
      have rightSame :=
        rightHypothesis fun other member => inRange other (by simp [toList, member])
      have found := Array.getElem?_eq_getElem (inRange index (by simp [toList]))
      rw [toShape, toList, List.filterMap_append, List.filterMap_cons, found]
      simp [leftSame, rightSame]

/-- A tree whose balances were checked makes a balanced shape of the height found. -/
theorem toShape_balanced
    {balances : Array Int}
    {tree : LinkTree}
    {height : Nat}
    (inRange : ∀ index ∈ tree.toList, index < keys.size)
    (checked : tree.checkBalance balances = .ok height) :
    (tree.toShape keys).Balanced ∧ (tree.toShape keys).height = height := by
  induction tree generalizing height with
  | empty =>
      rw [checkBalance, Except.ok.injEq] at checked
      exact ⟨trivial, checked⟩
  | node left index right leftHypothesis rightHypothesis =>
      obtain ⟨rightHeight, rightChecked, checked⟩ := bind_eq_ok_iff.mp checked
      obtain ⟨leftHeight, leftChecked, checked⟩ := bind_eq_ok_iff.mp checked
      obtain ⟨leftBalanced, leftExact⟩ :=
        leftHypothesis (fun other member => inRange other (by simp [toList, member])) leftChecked
      obtain ⟨rightBalanced, rightExact⟩ :=
        rightHypothesis (fun other member => inRange other (by simp [toList, member]))
          rightChecked
      have found := Array.getElem?_eq_getElem (inRange index (by simp [toList]))
      rw [toShape, found]
      dsimp only at checked ⊢
      split at checked
      next balanced =>
        have near : Shape.Near leftHeight rightHeight := by
          obtain ⟨_, close⟩ := balanced
          unfold Shape.Near
          omega
        rw [Except.ok.injEq] at checked
        refine ⟨Shape.balanced_join leftBalanced rightBalanced ?_, ?_⟩
        · rw [leftExact, rightExact]
          exact near
        · rw [Shape.height_join, leftExact, rightExact, checked]
      next =>
        contradiction

end LinkTree

/-- Links pass the checks exactly if their tree counts upward and has the stored balances. -/
theorem Links.checkShape_eq_ok_iff
    {links : Links}
    {records : List NodeRecord}
    {tree : LinkTree} :
    links.checkShape records = .ok tree ↔
      links.toTree = tree ∧
        tree.toList = List.range' 0 records.length ∧
          ∃ height,
            tree.checkBalance (records.map fun record => record.balance.toInt).toArray =
              .ok height := by
  unfold checkShape
  dsimp only
  constructor
  · intro checked
    cases misplaced : misplaced? 0 links.toTree.toList with
    | some index =>
        rw [misplaced] at checked
        contradiction
    | none =>
        rw [misplaced] at checked
        dsimp only at checked
        split at checked
        next =>
          contradiction
        next complete =>
          obtain ⟨height, balanced, checked⟩ := bind_eq_ok_iff.mp checked
          have sameTree : links.toTree = tree := Except.ok.inj checked
          rw [sameTree] at misplaced balanced complete
          refine ⟨sameTree, ?_, height, balanced⟩
          rw [← Classical.not_not.mp complete]
          exact misplaced?_eq_none_iff.mp misplaced
  · rintro ⟨rfl, counts, height, balanced⟩
    have complete : links.toTree.toList.length = records.length := by
      rw [counts, List.length_range']
    have inPlace : misplaced? 0 links.toTree.toList = none := by
      rw [misplaced?_eq_none_iff, complete]
      exact counts
    rw [inPlace]
    dsimp only
    rw [if_neg (not_not_intro complete)]
    exact bind_eq_ok_iff.mpr ⟨height, balanced, rfl⟩

end OrderedIndex

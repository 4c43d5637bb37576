import OrderedIndex.Proofs.Tree.Linked.Heights
import OrderedIndex.Proofs.Tree.Linked.Memory

namespace OrderedIndex

/-!
# Rotations in memory

A step of a rotation hangs a child somewhere else or measures a node anew, and in
between the memory holds a shape whose heights are out of date.  The rotation
itself and the rebalancing of a node find every child that they ask for, and
leave what the operation on shapes leaves.
-/

open Shape

namespace Branch

theorem fork_opposite {side : Side} {near far : Option NodeId} {height : Nat} :
    fork side.opposite near far height = fork side far near height := by
  cases side <;> rfl

end Branch

/-- The height of a shape fits a signed byte, also after two rotations. -/
def Shape.Low {Key : Type} (shape : Shape Key) : Prop := shape.height ≤ 125

namespace LinkedTree

variable
  {Key Value : Type}
  {arithmetic : HeightArithmetic}
  {tree result : LinkedTree Key Value}
  {side : Side}
  {left right near far outer inner child shape : Shape Key}
  {id pivot : NodeId}
  {key pivotKey : Key}
  {height pivotHeight : Nat}

/-- A memory that differs in the branches of a shape's nodes only, and holds the shape. -/
structure Grown (shape : Shape Key) (tree result : LinkedTree Key Value) : Prop where
  regrown : Regrown shape.ids tree result
  holds : result.Holds shape

theorem holds_fork :
    tree.Holds (fork side near id key height far) ↔
      tree.branch? id = some (Branch.fork side near.root? far.root? height) ∧
        tree.Holds near ∧ tree.Holds far := by
  cases side with
  | left =>
      rfl
  | right =>
      exact and_congr_right' and_comm

/-! ## Measuring -/

theorem heightOf_eq (holds : tree.Holds shape) :
    tree.heightOf shape.root? = .ok shape.height := by
  cases shape with
  | empty =>
      rfl
  | node left id key height right =>
      obtain ⟨node, read, parts⟩ := node_of_branch? holds.1
      simp only [root?, heightOf, read, ok_bind, parts]
      rfl

theorem balanceBy_eq
    (precise : arithmetic.Exact)
    (holds : tree.Holds (.node left id key height right))
    (leftLow : left.height < 128)
    (rightLow : right.height < 128) :
    tree.balanceBy arithmetic id = .ok (Shape.node left id key height right).balance := by
  obtain ⟨here, holdsLeft, holdsRight⟩ := holds
  obtain ⟨node, read, parts⟩ := node_of_branch? here
  simp only [balanceBy, read, ok_bind, parts, heightOf_eq holdsLeft, heightOf_eq holdsRight]
  exact precise.minus_eq leftLow rightLow

theorem balance_eq
    (holds : tree.Holds (.node left id key height right))
    (leftLow : left.height < 128)
    (rightLow : right.height < 128) :
    tree.balance id = .ok (Shape.node left id key height right).balance :=
  balanceBy_eq HeightArithmetic.exact_bytes holds leftLow rightLow

theorem balanceBy_fork
    (precise : arithmetic.Exact)
    (holds : tree.Holds (fork side near id key height far))
    (nearLow : near.height < 128)
    (farLow : far.height < 128) :
    tree.balanceBy arithmetic id = .ok (fork side near id key height far).balance := by
  cases side with
  | left =>
      exact balanceBy_eq precise holds nearLow farLow
  | right =>
      exact balanceBy_eq precise holds farLow nearLow

theorem updateHeightBy_ok
    (precise : arithmetic.Exact)
    (side : Side)
    (holds : tree.Holds (fork side near id key height far))
    (notNear : id ∉ near.ids)
    (notFar : id ∉ far.ids)
    (nearLow : near.height < 127)
    (farLow : far.height < 127) :
    ∃ result,
      tree.updateHeightBy arithmetic id = .ok result ∧
        Regrown [id] tree result ∧ result.Holds (joinAt side near id key far) := by
  obtain ⟨here, holdsNear, holdsFar⟩ := holds_fork.mp holds
  obtain ⟨node, read, parts⟩ := node_of_branch? here
  obtain ⟨result, written, regrown, there⟩ :=
    modify_branch here fun branch => { branch with height := 1 + max near.height far.height }
  have measured : tree.updateHeightBy arithmetic id = .ok result := by
    cases side with
    | left =>
        simp only [updateHeightBy, read, ok_bind, parts, Branch.fork, heightOf_eq holdsNear,
          heightOf_eq holdsFar, precise.above_eq nearLow farLow]
        exact written
    | right =>
        simp only [updateHeightBy, read, ok_bind, parts, Branch.fork, heightOf_eq holdsNear,
          heightOf_eq holdsFar, precise.above_eq farLow nearLow, Nat.max_comm far.height]
        exact written
  refine ⟨result, measured, regrown, ?_⟩
  rw [joinAt_eq_fork, holds_fork]
  refine ⟨there.trans ?_, regrown.holds holdsNear ?_, regrown.holds holdsFar ?_⟩
  · cases side <;> rfl
  · grind
  · grind

/-! ## Rotations -/

theorem hang_branch
    {branch : Branch}
    (found : tree.branch? id = some branch)
    (side : Side)
    (child? : Option NodeId) :
    ∃ result,
      tree.hang id side child? = .ok result ∧
        Regrown [id] tree result ∧ result.branch? id = some (branch.hang side child?) :=
  modify_branch found fun branch => branch.hang side child?

/-- Hanging a child on a node leaves the node with that child in its place. -/
theorem hang_ok
    (side : Side)
    {near? : Option NodeId}
    (found : tree.branch? id = some (Branch.fork side near? far.root? height))
    (holdsFar : tree.Holds far)
    (holdsChild : tree.Holds child)
    (notFar : id ∉ far.ids)
    (notChild : id ∉ child.ids)
    (key : Key) :
    ∃ result,
      tree.hang id side child.root? = .ok result ∧
        Regrown [id] tree result ∧ result.Holds (fork side child id key height far) := by
  obtain ⟨result, written, regrown, there⟩ := hang_branch found side child.root?
  refine ⟨result, written, regrown, ?_⟩
  rw [holds_fork]
  refine ⟨there.trans (by rw [Branch.hang_fork]), regrown.holds holdsChild ?_,
    regrown.holds holdsFar ?_⟩
  · grind
  · grind

/-- A node with a child on a side can lift it. -/
theorem liftBy_ok
    (precise : arithmetic.Exact)
    (holds :
      tree.Holds
        (fork side (fork side outer pivot pivotKey pivotHeight inner) id key height far))
    (distinct :
      (fork side (fork side outer pivot pivotKey pivotHeight inner) id key height far).ids.Nodup)
    (outerLow : outer.Low)
    (innerLow : inner.Low)
    (farLow : far.Low) :
    ∃ result,
      tree.liftBy arithmetic side id = .ok (pivot, result) ∧
        Grown (joinAt side outer pivot pivotKey (joinAt side inner id key far)) tree result := by
  obtain ⟨idHere, holdsNear, holdsFar⟩ := holds_fork.mp holds
  obtain ⟨pivotHere, holdsOuter, holdsInner⟩ := holds_fork.mp holdsNear
  obtain ⟨idNode, readId, idParts⟩ := node_of_branch? idHere
  obtain ⟨pivotNode, readPivot, pivotParts⟩ := node_of_branch? pivotHere
  simp only [nodup_ids_fork, mem_ids_fork, not_or] at distinct
  obtain ⟨⟨-, -, pivotOuter, pivotInner, outerInner⟩, -, ⟨idPivot, idOuter, idInner⟩, idFar,
    apart⟩ := distinct
  have pivotFar : pivot ∉ far.ids := apart pivot (.inl rfl)
  unfold Low at outerLow innerLow farLow
  -- The parent takes the inner child in the place of the pivot.
  obtain ⟨lowered, lowered_eq, loweredFrame, holdsLowered⟩ :=
    hang_ok side idHere holdsFar holdsInner idFar idInner key
  -- The pivot takes the parent in the place of the inner child.
  have pivotLowered : lowered.branch? pivot = _ :=
    (loweredFrame.branch?_eq pivot (by grind)).trans pivotHere
  rw [← Branch.fork_opposite] at pivotLowered
  obtain ⟨lifted, lifted_eq, liftedFrame, holdsLifted⟩ :=
    hang_ok side.opposite pivotLowered (loweredFrame.holds holdsOuter (by grind)) holdsLowered
      pivotOuter (by simp [mem_ids_fork]; grind) pivotKey
  rw [fork_opposite] at holdsLifted
  obtain ⟨pivotLifted, outerLifted, parentLifted⟩ := holds_fork.mp holdsLifted
  -- Both are measured anew, the parent first.
  obtain ⟨measured, measured_eq, measuredFrame, holdsMeasured⟩ :=
    updateHeightBy_ok precise side parentLifted idInner idFar (by omega) (by omega)
  have pivotMeasured :
      measured.Holds
        (fork side outer pivot pivotKey pivotHeight (joinAt side inner id key far)) := by
    rw [holds_fork]
    refine ⟨?_, measuredFrame.holds outerLifted (by grind), holdsMeasured⟩
    refine (measuredFrame.branch?_eq pivot (by grind)).trans (pivotLifted.trans ?_)
    rw [joinAt_eq_fork, root?_fork, root?_fork]
  obtain ⟨result, result_eq, resultFrame, holdsResult⟩ :=
    updateHeightBy_ok precise side pivotMeasured pivotOuter
      (by rw [joinAt_eq_fork, mem_ids_fork]; grind) (by omega) (by rw [height_joinAt]; omega)
  rw [root?_fork] at lifted_eq
  refine ⟨result, ?_, ?_, holdsResult⟩
  · simp only [liftBy, readId, ok_bind, idParts, Branch.child_fork, root?_fork,
      TreeFault.expect, readPivot, pivotParts, Branch.child_fork_opposite, lowered_eq,
      lifted_eq, measured_eq, result_eq]
    rfl
  · have within :
        ∀ other, other = id ∨ other = pivot →
          other ∈ (joinAt side outer pivot pivotKey (joinAt side inner id key far)).ids := by
      simp only [joinAt_eq_fork, mem_ids_fork]
      grind
    exact (((loweredFrame.mono (by grind)).trans (liftedFrame.mono (by grind))).trans
      (measuredFrame.mono (by grind))).trans (resultFrame.mono (by grind))

/-- A heavy child that does not lean inward is lifted as it is. -/
theorem relieveBy_outward
    (precise : arithmetic.Exact)
    (holds :
      tree.Holds
        (fork side (fork side outer pivot pivotKey pivotHeight inner) id key height far))
    (distinct :
      (fork side (fork side outer pivot pivotKey pivotHeight inner) id key height far).ids.Nodup)
    (outerLow : outer.Low)
    (innerLow : inner.Low)
    (farLow : far.Low)
    (outward : inner.height ≤ outer.height) :
    ∃ result,
      tree.relieveBy arithmetic side id = .ok (pivot, result) ∧
        Grown (joinAt side outer pivot pivotKey (joinAt side inner id key far)) tree result := by
  obtain ⟨idHere, holdsNear, -⟩ := holds_fork.mp holds
  obtain ⟨idNode, readId, idParts⟩ := node_of_branch? idHere
  have leaning := balanceBy_fork precise holdsNear (Nat.lt_of_le_of_lt outerLow (by decide))
    (Nat.lt_of_le_of_lt innerLow (by decide))
  have upright :
      ¬ side.leansInward (fork side outer pivot pivotKey pivotHeight inner).balance = true :=
    mt leansInward_fork.mp (Nat.not_lt.mpr outward)
  obtain ⟨result, result_eq, grown⟩ := liftBy_ok precise holds distinct outerLow innerLow farLow
  refine ⟨result, ?_, grown⟩
  simp only [relieveBy, readId, ok_bind, idParts, Branch.child_fork, root?_fork,
    TreeFault.expect, leaning, if_neg upright, result_eq]

/-- A heavy child that leans inward is turned outward before it is lifted. -/
theorem relieveBy_inward
    (precise : arithmetic.Exact)
    {top : NodeId}
    {topKey : Key}
    {topHeight : Nat}
    {innerOuter innerInner : Shape Key}
    (holds :
      tree.Holds
        (fork side
          (fork side outer pivot pivotKey pivotHeight
            (fork side.opposite innerOuter top topKey topHeight innerInner))
          id key height far))
    (distinct :
      (fork side
        (fork side outer pivot pivotKey pivotHeight
          (fork side.opposite innerOuter top topKey topHeight innerInner))
        id key height far).ids.Nodup)
    (outerLow : outer.height < 125)
    (topLow : topHeight ≤ 125)
    (innerOuterLow : innerOuter.Low)
    (innerInnerLow : innerInner.height < 125)
    (farLow : far.Low)
    (inward : outer.height < topHeight) :
    ∃ result,
      tree.relieveBy arithmetic side id = .ok (top, result) ∧
        Grown
          (joinAt side (joinAt side outer pivot pivotKey innerInner) top topKey
            (joinAt side innerOuter id key far))
          tree result := by
  obtain ⟨idHere, holdsNear, holdsFar⟩ := holds_fork.mp holds
  obtain ⟨idNode, readId, idParts⟩ := node_of_branch? idHere
  obtain ⟨nearDistinct, farDistinct, idNear, idFar, apart⟩ := nodup_ids_fork.mp distinct
  have leaning := balanceBy_fork precise holdsNear (by omega) (by rw [height_fork]; omega)
  have inwardLeaning :
      side.leansInward
          (fork side outer pivot pivotKey pivotHeight
            (fork side.opposite innerOuter top topKey topHeight innerInner)).balance =
        true := by
    rw [leansInward_fork, height_fork]
    exact inward
  -- The heavy child is turned outward, which puts its inner child on top.
  rw [← fork_opposite] at holdsNear nearDistinct
  obtain ⟨turned, turned_eq, turnedGrown⟩ :=
    liftBy_ok precise holdsNear nearDistinct innerOuterLow (Nat.le_of_lt innerInnerLow)
      (Nat.le_of_lt outerLow)
  rw [joinAt_opposite, joinAt_opposite] at turnedGrown
  have sameIds (other : NodeId) :
      other ∈
          (joinAt side (joinAt side outer pivot pivotKey innerInner) top topKey innerOuter).ids ↔
        other ∈ (fork side outer pivot pivotKey pivotHeight
          (fork side.opposite innerOuter top topKey topHeight innerInner)).ids := by
    simp only [joinAt_eq_fork, mem_ids_fork]
    grind
  -- It is hung on its parent again, and lifted.
  have idTurned : turned.branch? id = _ :=
    (turnedGrown.regrown.branch?_eq id (mt (sameIds id).mp idNear)).trans idHere
  obtain ⟨hung, hung_eq, hungFrame, holdsHung⟩ :=
    hang_ok side idTurned
      (turnedGrown.regrown.holds holdsFar fun other member isNear =>
        apart other ((sameIds other).mp isNear) member)
      turnedGrown.holds idFar (mt (sameIds id).mp idNear) key
  have hungDistinct :
      (fork side (joinAt side (joinAt side outer pivot pivotKey innerInner) top topKey innerOuter)
        id key height far).ids.Nodup := by
    refine nodup_ids_fork.mpr
      ⟨?_, farDistinct, mt (sameIds id).mp idNear, idFar, fun other member =>
        apart other ((sameIds other).mp member)⟩
    simp only [joinAt_eq_fork, nodup_ids_fork, mem_ids_fork] at nearDistinct ⊢
    grind
  rw [joinAt_eq_fork] at holdsHung hungDistinct
  obtain ⟨result, result_eq, grown⟩ :=
    liftBy_ok precise holdsHung hungDistinct (by unfold Low; rw [height_joinAt]; omega)
      innerOuterLow farLow
  refine ⟨result, ?_, ?_, grown.holds⟩
  · rw [joinAt_eq_fork, root?_fork] at hung_eq
    simp only [relieveBy, readId, ok_bind, idParts, Branch.child_fork, root?_fork,
      TreeFault.expect, leaning, if_pos inwardLeaning, turned_eq, hung_eq, result_eq]
  · refine ((turnedGrown.regrown.mono ?_).trans (hungFrame.mono ?_)).trans grown.regrown
    · intro other
      simp only [mem_ids_joinAt]
      grind
    · intro other
      simp only [List.mem_singleton, mem_ids_joinAt]
      grind

/-- A node with a child two levels higher than the other is relieved of it. -/
theorem relieveBy_ok
    (precise : arithmetic.Exact)
    (side : Side)
    (holds : tree.Holds (fork side near id key height far))
    (distinct : (fork side near id key height far).ids.Nodup)
    (balanced : near.Balanced)
    (nearLow : near.Low)
    (heavy : near.height = far.height + 2) :
    ∃ root result,
      tree.relieveBy arithmetic side id = .ok (root, result) ∧
        (relieveAt side near id key far).root? = some root ∧
          Grown (relieveAt side near id key far) tree result := by
  obtain ⟨outer, pivot, pivotKey, pivotHeight, inner, rfl⟩ :=
    exists_fork_of_height side near (by omega)
  obtain ⟨-, innerBalanced, exact, -⟩ := balanced_fork.mp balanced
  unfold Low at nearLow
  rw [height_fork] at heavy nearLow
  by_cases outward : inner.height ≤ outer.height
  · obtain ⟨result, result_eq, grown⟩ :=
      relieveBy_outward precise holds distinct (by unfold Low; omega) (by unfold Low; omega)
        (by unfold Low; omega) outward
    rw [relieveAt_outward outward]
    exact ⟨pivot, result, result_eq, by rw [joinAt_eq_fork, root?_fork], grown⟩
  · obtain ⟨innerOuter, top, topKey, topHeight, innerInner, rfl⟩ :=
      exists_fork_of_height side.opposite inner (by omega)
    obtain ⟨-, -, innerExact, -⟩ := balanced_fork.mp innerBalanced
    rw [height_fork] at exact outward
    have inward := Nat.lt_of_not_le outward
    obtain ⟨result, result_eq, grown⟩ :=
      relieveBy_inward precise holds distinct (by omega) (by omega) (by unfold Low; omega)
        (by omega) (by unfold Low; omega) inward
    rw [relieveAt_inward inward]
    exact ⟨top, result, result_eq, by rw [joinAt_eq_fork, root?_fork], grown⟩

/-! ## Rebalancing -/

/-- The children of the topmost node of a balanced shape are near in height. -/
theorem balanceBy_near
    (precise : arithmetic.Exact)
    {root : NodeId}
    (holds : tree.Holds shape)
    (balanced : shape.Balanced)
    (low : shape.height ≤ 128)
    (root_eq : shape.root? = some root) :
    ∃ balance, tree.balanceBy arithmetic root = .ok balance ∧ balance.natAbs ≤ 1 := by
  cases shape with
  | empty =>
      contradiction
  | node left id key height right =>
      obtain ⟨-, -, exact, ⟨leftBound, rightBound⟩⟩ := balanced
      cases Option.some.inj root_eq
      rw [height_node] at low
      refine ⟨_, balanceBy_eq precise holds (by omega) (by omega), ?_⟩
      simp only [Shape.balance]
      omega

/-- A node whose children differ in height by two at most can be rotated. -/
theorem rotateBy_ok
    (precise : arithmetic.Exact)
    (holds : tree.Holds (join left id key right))
    (distinct : (join left id key right).ids.Nodup)
    (leftBalanced : left.Balanced)
    (rightBalanced : right.Balanced)
    (leftBound : left.height ≤ right.height + 2)
    (rightBound : right.height ≤ left.height + 2)
    (leftLow : left.Low)
    (rightLow : right.Low) :
    ∃ root result,
      tree.rotateBy arithmetic id = .ok (root, result) ∧
        (Shape.rebalance left id key right).root? = some root ∧
          Grown (Shape.rebalance left id key right) tree result := by
  have measured := balanceBy_eq precise holds (Nat.lt_of_le_of_lt leftLow (by decide))
    (Nat.lt_of_le_of_lt rightLow (by decide))
  rw [Shape.balance] at measured
  by_cases leftHeavy : left.height = right.height + 2
  · have isHeavy : (left.height : Int) - right.height = 2 := by
      omega
    obtain ⟨root, result, result_eq, root_eq, grown⟩ :=
      relieveBy_ok precise .left holds distinct leftBalanced leftLow leftHeavy
    rw [rebalance_eq_relieveAt_left leftHeavy]
    refine ⟨root, result, ?_, root_eq, grown⟩
    rw [rotateBy, measured, ok_bind, if_pos isHeavy, result_eq]
  · by_cases rightHeavy : right.height = left.height + 2
    · have isHeavy : (left.height : Int) - right.height = -2 := by
        omega
      obtain ⟨root, result, result_eq, root_eq, grown⟩ :=
        relieveBy_ok precise .right holds distinct rightBalanced rightLow rightHeavy
      rw [rebalance_eq_relieveAt_right rightHeavy]
      refine ⟨root, result, ?_, root_eq, grown⟩
      rw [rotateBy, measured, ok_bind, isHeavy, if_neg (by decide), if_pos rfl, result_eq]
    · have near : Near left.height right.height := by
        unfold Near
        omega
      have notLeft : (left.height : Int) - right.height ≠ 2 := by
        omega
      have notRight : (left.height : Int) - right.height ≠ -2 := by
        omega
      rw [rebalance_of_near near]
      refine ⟨id, tree, ?_, rfl, .refl _ tree, holds⟩
      rw [rotateBy, measured, ok_bind, if_neg notLeft, if_neg notRight]
      rfl

/-- A node whose children differ in height by two at most can be rebalanced. -/
theorem rebalanceBy_ok
    (precise : arithmetic.Exact)
    (holds : tree.Holds (.node left id key height right))
    (distinct : (Shape.node left id key height right).ids.Nodup)
    (leftBalanced : left.Balanced)
    (rightBalanced : right.Balanced)
    (leftBound : left.height ≤ right.height + 2)
    (rightBound : right.height ≤ left.height + 2)
    (leftLow : left.Low)
    (rightLow : right.Low) :
    ∃ root result,
      tree.rebalanceBy arithmetic id = .ok (root, result) ∧
        (Shape.rebalance left id key right).root? = some root ∧
          Grown (Shape.rebalance left id key right) tree result := by
  obtain ⟨-, -, idLeft, idRight, -⟩ := nodup_ids_node.mp distinct
  have rebalanced : Rebalanced left right (Shape.rebalance left id key right) :=
    Shape.rebalanced leftBalanced rightBalanced leftBound rightBound
  have upper := rebalanced.height_le
  have idWithin : id ∈ (Shape.rebalance left id key right).ids := by
    rw [ids_rebalance]
    simp
  unfold Low at leftLow rightLow
  obtain ⟨measured, measured_eq, measuredFrame, holdsMeasured⟩ :=
    updateHeightBy_ok precise .left holds idLeft idRight (by omega) (by omega)
  obtain ⟨root, result, rotated_eq, root_eq, grown⟩ :=
    rotateBy_ok precise holdsMeasured distinct leftBalanced rightBalanced leftBound rightBound
      leftLow rightLow
  obtain ⟨balance, balanced_eq, near⟩ :=
    balanceBy_near precise grown.holds rebalanced.balanced (by omega) root_eq
  refine ⟨root, result, ?_, root_eq, ?_, grown.holds⟩
  · rw [rebalanceBy, measured_eq, ok_bind, rotated_eq, ok_bind]
    dsimp only
    rw [balanced_eq, ok_bind, if_neg (Nat.not_lt.mpr near)]
    rfl
  · exact (measuredFrame.mono (by simpa using idWithin)).trans grown.regrown

end LinkedTree

end OrderedIndex

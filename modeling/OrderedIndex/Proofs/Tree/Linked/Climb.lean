import Mathlib.Data.Nat.Fib.Basic
import OrderedIndex.Proofs.Tree.Linked.Balance
import OrderedIndex.Proofs.Tree.Numbering

namespace OrderedIndex

/-!
# The way back up in memory

The nodes that a descent has left behind wait for a subtree: each has its other
child in place, and what it names on the side of the descent does not matter.
Hanging a balanced subtree of nearly the old height at the end of the path keeps
every node above it within the reach of one rebalancing, and the heights of
balanced shapes are far too small for their words to overflow.
-/

namespace Shape

variable {Key : Type}

/-! ## Heights -/

/-- A node above children that are near in height has as many nodes as its height requires. -/
theorem fib_le_of_near
    {left right leftSize rightSize : Nat}
    (near : Near left right)
    (leftLeast : Nat.fib (left + 2) ≤ leftSize + 1)
    (rightLeast : Nat.fib (right + 2) ≤ rightSize + 1) :
    Nat.fib (1 + max left right + 2) ≤ leftSize + 1 + rightSize + 1 := by
  obtain ⟨leftBound, rightBound⟩ := near
  have sum : Nat.fib (1 + max left right + 2) =
      Nat.fib (1 + max left right) + Nat.fib (1 + max left right + 1) := Nat.fib_add_two
  rw [sum]
  rcases Nat.le_total left right with rightHigher | leftHigher
  · have ofLeft : Nat.fib (1 + max left right) ≤ Nat.fib (left + 2) := Nat.fib_mono (by omega)
    have ofRight : Nat.fib (1 + max left right + 1) ≤ Nat.fib (right + 2) :=
      Nat.fib_mono (by omega)
    omega
  · have ofRight : Nat.fib (1 + max left right) ≤ Nat.fib (right + 2) := Nat.fib_mono (by omega)
    have ofLeft : Nat.fib (1 + max left right + 1) ≤ Nat.fib (left + 2) :=
      Nat.fib_mono (by omega)
    omega

/-- A balanced shape has at least as many nodes as its height requires. -/
theorem fib_le_size
    {shape : Shape Key}
    (balanced : shape.Balanced) :
    Nat.fib (shape.height + 2) ≤ shape.size + 1 := by
  induction shape with
  | empty =>
      simp [size]
  | node left id key height right leftHypothesis rightHypothesis =>
      obtain ⟨leftBalanced, rightBalanced, rfl, near⟩ := balanced
      exact fib_le_of_near near (leftHypothesis leftBalanced) (rightHypothesis rightBalanced)

/-- A height that requires more nodes than a word counts is no height. -/
theorem low_of_fib_le
    {height size : Nat}
    (least : Nat.fib (height + 2) ≤ size + 1)
    (small : size < UInt64.size) :
    height ≤ 125 := by
  have ample : UInt64.size < Nat.fib 128 := by
    decide +kernel
  by_contra high
  have steep : Nat.fib 128 ≤ Nat.fib (height + 2) := Nat.fib_mono (by omega)
  omega

/-- A balanced shape whose size fits a word is low. -/
theorem Balanced.low
    {shape : Shape Key}
    (balanced : shape.Balanced)
    (small : shape.size < UInt64.size) :
    shape.Low :=
  low_of_fib_le (fib_le_size balanced) small

theorem size_rebalanceAt
    {side : Side}
    {near far : Shape Key}
    {id : NodeId}
    {key : Key} :
    (rebalanceAt side near id key far).size = near.size + 1 + far.size := by
  rw [← length_toList]
  cases side <;> simp only [rebalanceAt, toList_rebalance, List.length_append, List.length_cons,
    length_toList] <;> omega

/-! ## Paths -/

namespace Path

/-- The numbers of the nodes of a path, each with the side that the path took. -/
def turns (path : Path Key) : LinkedPath :=
  path.map fun
    | .left id _ _ => (id, .left)
    | .right _ id _ => (id, .right)

/-- The numbers of the nodes that a path has left behind. -/
def ids (path : Path Key) : List NodeId := (path.before ++ path.after).map Prod.fst

variable {path rest : Path Key} {left right subtree : Shape Key} {id : NodeId} {key : Key}

theorem mem_ids_left {sought : NodeId} :
    sought ∈ ids (.left id key right :: rest) ↔
      sought = id ∨ sought ∈ right.ids ∨ sought ∈ rest.ids := by
  simp only [ids, Shape.ids, before, after, List.map_append, List.map_cons, List.mem_append,
    List.mem_cons]
  grind

theorem mem_ids_right {sought : NodeId} :
    sought ∈ ids (.right left id key :: rest) ↔
      sought = id ∨ sought ∈ left.ids ∨ sought ∈ rest.ids := by
  simp only [ids, Shape.ids, before, after, List.map_append, List.map_cons, List.mem_append,
    List.map_nil, List.mem_singleton]
  grind

theorem perm_ids_retrace : (path.retrace subtree).ids.Perm (subtree.ids ++ path.ids) := by
  simp only [ids, Shape.ids, toList_retrace, List.map_append, List.append_assoc]
  exact List.perm_append_comm_assoc _ _ _

/-- The nodes of a retraced path are those of the subtree and those left behind. -/
theorem nodup_ids_retrace :
    (path.retrace subtree).ids.Nodup ↔
      subtree.ids.Nodup ∧ path.ids.Nodup ∧ ∀ other ∈ subtree.ids, other ∉ path.ids := by
  rw [perm_ids_retrace.nodup_iff, List.nodup_append]
  grind

theorem size_retrace : (path.retrace subtree).size = subtree.size + path.ids.length := by
  rw [← length_ids, ← length_ids, perm_ids_retrace.length_eq, List.length_append]

end Path

end Shape

namespace LinkedTree

open Shape

variable
  {Key Value : Type}
  {arithmetic : HeightArithmetic}
  {tree result : LinkedTree Key Value}
  {path : Path Key}
  {left right far subtree : Shape Key}
  {id : NodeId}
  {key : Key}
  {height : Nat}

/-- The nodes of a path are in memory with their other children. -/
def Awaits (tree : LinkedTree Key Value) : Path Key → Prop
  | [] => True
  | .left id _ right :: rest =>
      (∃ left height, tree.branch? id = some (Branch.fork .left left right.root? height)) ∧
        tree.Holds right ∧ Awaits tree rest
  | .right left id _ :: rest =>
      (∃ right height, tree.branch? id = some (Branch.fork .right right left.root? height)) ∧
        tree.Holds left ∧ Awaits tree rest

theorem awaits_nil : tree.Awaits [] := trivial

/-- What a path leaves behind is not changed by what happens below it. -/
theorem Awaits.congr
    (awaits : tree.Awaits path)
    (same : ∀ id ∈ path.ids, result.branch? id = tree.branch? id) :
    result.Awaits path := by
  induction path with
  | nil =>
      trivial
  | cons step rest inductionHypothesis =>
      cases step with
      | left id key right =>
          obtain ⟨⟨left, height, here⟩, holdsRight, restAwaits⟩ := awaits
          simp only [Path.mem_ids_left] at same
          exact ⟨⟨left, height, (same id (.inl rfl)).trans here⟩,
            holdsRight.congr fun other member => same other (.inr (.inl member)),
            inductionHypothesis restAwaits fun other member => same other (.inr (.inr member))⟩
      | right left id key =>
          obtain ⟨⟨right, height, here⟩, holdsLeft, restAwaits⟩ := awaits
          simp only [Path.mem_ids_right] at same
          exact ⟨⟨right, height, (same id (.inl rfl)).trans here⟩,
            holdsLeft.congr fun other member => same other (.inr (.inl member)),
            inductionHypothesis restAwaits fun other member => same other (.inr (.inr member))⟩

/-- What has grown at the end of a path has grown in the retraced shape. -/
theorem Grown.retrace
    {middle : LinkedTree Key Value}
    (first : Grown subtree tree middle)
    (second : Grown (path.retrace subtree) middle result) :
    Grown (path.retrace subtree) tree result where
  regrown := by
    refine (first.regrown.mono ?_).trans second.regrown
    intro other member
    exact Path.perm_ids_retrace.mem_iff.mpr (List.mem_append_left _ member)
  holds := second.holds

/-- A node takes a subtree in the place of a child of nearly the same height. -/
theorem hang_rebalanceBy
    (precise : arithmetic.Exact)
    (side : Side)
    {near? : Option NodeId}
    (found : tree.branch? id = some (Branch.fork side near? far.root? height))
    (holdsFar : tree.Holds far)
    (holds : tree.Holds subtree)
    (distinct : (rebalanceAt side subtree id key far).ids.Nodup)
    (balanced : subtree.Balanced)
    (farBalanced : far.Balanced)
    (upper : subtree.height ≤ far.height + 2)
    (lower : far.height ≤ subtree.height + 2)
    (small : (rebalanceAt side subtree id key far).size < UInt64.size) :
    ∃ hung root result,
      tree.hang id side subtree.root? = .ok hung ∧
        hung.rebalanceBy arithmetic id = .ok (root, result) ∧
          (rebalanceAt side subtree id key far).root? = some root ∧
            Grown (rebalanceAt side subtree id key far) tree result := by
  have sameIds :
      (rebalanceAt side subtree id key far).ids = (fork side subtree id key height far).ids :=
    ids_rebalanceAt
  have idWithin : id ∈ (rebalanceAt side subtree id key far).ids := by
    rw [sameIds, mem_ids_fork]
    exact .inl rfl
  rw [size_rebalanceAt] at small
  have low := balanced.low (by omega)
  have farLow := farBalanced.low (by omega)
  rw [sameIds] at distinct
  obtain ⟨-, -, idSubtree, idFar, -⟩ := nodup_ids_fork.mp distinct
  obtain ⟨hung, hung_eq, hungFrame, holdsHung⟩ :=
    hang_ok side found holdsFar holds idFar idSubtree key
  have rebalances :
      ∃ root result,
        hung.rebalanceBy arithmetic id = .ok (root, result) ∧
          (rebalanceAt side subtree id key far).root? = some root ∧
            Grown (rebalanceAt side subtree id key far) hung result := by
    cases side with
    | left =>
        exact rebalanceBy_ok precise holdsHung distinct balanced farBalanced upper lower low farLow
    | right =>
        exact rebalanceBy_ok precise holdsHung distinct farBalanced balanced lower upper farLow low
  obtain ⟨root, result, result_eq, root_eq, grown⟩ := rebalances
  exact ⟨hung, root, result, hung_eq, result_eq, root_eq,
    (hungFrame.mono (by simpa using idWithin)).trans grown.regrown, grown.holds⟩

/-- One step of the way back up, which leaves the rest of the path waiting. -/
theorem climbBy_cons
    (precise : arithmetic.Exact)
    (side : Side)
    {near? : Option NodeId}
    (found : tree.branch? id = some (Branch.fork side near? far.root? height))
    (holdsFar : tree.Holds far)
    (awaits : tree.Awaits path)
    (holds : tree.Holds subtree)
    (distinct : (path.retrace (rebalanceAt side subtree id key far)).ids.Nodup)
    (balanced : subtree.Balanced)
    (farBalanced : far.Balanced)
    (upper : subtree.height ≤ far.height + 2)
    (lower : far.height ≤ subtree.height + 2)
    (small : (path.retrace (rebalanceAt side subtree id key far)).size < UInt64.size) :
    ∃ middle,
      tree.climbBy arithmetic ((id, side) :: path.turns) subtree.root? =
          middle.climbBy arithmetic path.turns (rebalanceAt side subtree id key far).root? ∧
        Grown (rebalanceAt side subtree id key far) tree middle ∧ middle.Awaits path := by
  obtain ⟨hereDistinct, -, apart⟩ := Path.nodup_ids_retrace.mp distinct
  obtain ⟨hung, root, middle, hung_eq, middle_eq, root_eq, grown⟩ :=
    hang_rebalanceBy precise side found holdsFar holds hereDistinct balanced farBalanced upper lower
      (by rw [Path.size_retrace] at small; omega)
  refine ⟨middle, ?_, grown, awaits.congr ?_⟩
  · rw [climbBy, hung_eq, ok_bind, middle_eq, ok_bind, root_eq]
  · intro other waiting
    exact grown.regrown.branch?_eq other fun member => apart other member waiting

/-- Hanging a subtree at the end of a path finds every node on the way back up. -/
theorem climbBy_ok
    (precise : arithmetic.Exact)
    (awaits : tree.Awaits path)
    (holds : tree.Holds subtree)
    (distinct : (path.retrace subtree).ids.Nodup)
    (fits : path.Fits height)
    (balanced : subtree.Balanced)
    (near : Near subtree.height height)
    (small : (path.retrace subtree).size < UInt64.size) :
    ∃ result,
      tree.climbBy arithmetic path.turns subtree.root? =
          .ok ((path.retrace subtree).root?, result) ∧
        Grown (path.retrace subtree) tree result := by
  induction path generalizing tree subtree height with
  | nil =>
      exact ⟨tree, rfl, .refl _ tree, holds⟩
  | cons step rest inductionHypothesis =>
      obtain ⟨growth, loss⟩ := near
      cases step with
      | left id key right =>
          obtain ⟨⟨left, oldHeight, found⟩, holdsRight, restAwaits⟩ := awaits
          obtain ⟨rightBalanced, ⟨leftBound, rightBound⟩, restFits⟩ := fits
          have rebalanced : Rebalanced subtree right (Shape.rebalance subtree id key right) :=
            Shape.rebalanced balanced rightBalanced (by omega) (by omega)
          obtain ⟨middle, climbs, grown, middleAwaits⟩ :=
            climbBy_cons precise .left found holdsRight restAwaits holds distinct balanced
              rightBalanced (by omega) (by omega) small
          obtain ⟨result, result_eq, resultGrown⟩ :=
            inductionHypothesis middleAwaits grown.holds distinct restFits rebalanced.balanced
              (rebalanced.near ⟨leftBound, rightBound⟩ (.inl ⟨⟨growth, loss⟩, rfl⟩)) small
          exact ⟨result, climbs.trans result_eq, grown.retrace resultGrown⟩
      | right left id key =>
          obtain ⟨⟨right, oldHeight, found⟩, holdsLeft, restAwaits⟩ := awaits
          obtain ⟨leftBalanced, ⟨leftBound, rightBound⟩, restFits⟩ := fits
          have rebalanced : Rebalanced left subtree (Shape.rebalance left id key subtree) :=
            Shape.rebalanced leftBalanced balanced (by omega) (by omega)
          obtain ⟨middle, climbs, grown, middleAwaits⟩ :=
            climbBy_cons precise .right found holdsLeft restAwaits holds distinct balanced
              leftBalanced (by omega) (by omega) small
          obtain ⟨result, result_eq, resultGrown⟩ :=
            inductionHypothesis middleAwaits grown.holds distinct restFits rebalanced.balanced
              (rebalanced.near ⟨leftBound, rightBound⟩ (.inr ⟨rfl, ⟨growth, loss⟩⟩)) small
          exact ⟨result, climbs.trans result_eq, grown.retrace resultGrown⟩

end LinkedTree

end OrderedIndex

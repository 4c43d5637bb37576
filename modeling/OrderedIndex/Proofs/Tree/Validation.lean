import OrderedIndex.Proofs.Tree.Walk
import OrderedIndex.Tree.Violation

namespace OrderedIndex.OrderedTree

/-!
# Valid trees

The structural check reports nothing exactly for the valid trees: those whose
size, keys, heights, ends and links all agree with the walk over the shape.
A tree that represents a list of nodes is valid.
-/

open TreeNode

variable {Key Value : Type} {tree : OrderedTree Key Value}

/-- The neighbours of a node in a list, by its place. -/
def neighbour? (ids : List NodeId) (outside : Option NodeId) : (place : Nat) → Option NodeId
  | 0 => outside
  | place + 1 => ids[place]?

/-- Everything that a tree stores agrees with the walk over its shape. -/
structure Valid (tree : OrderedTree Key Value) : Prop where
  /-- The walk visits as many nodes as the tree counts. -/
  size_eq : tree.shape.ids.length = tree.size
  /-- Every node of the walk has an entry. -/
  live : ∀ id ∈ tree.shape.ids, (tree.entry? id).isSome
  /-- Keys ascend strictly along the walk. -/
  ascending : Order.Ascending tree.order (tree.shape.ids.filterMap tree.key?)
  /-- Stored heights are exact, and the children of a node differ by one at most. -/
  balanced : tree.shape.Balanced
  first_eq : tree.first = tree.shape.ids.head?
  last_eq : tree.last = tree.shape.ids.getLast?
  /-- Every node names its neighbours in the walk. -/
  linked :
    ∀ place id,
      tree.shape.ids[place]? = some id →
      tree.previous? id = neighbour? tree.shape.ids none place ∧
        tree.next? id = tree.shape.ids[place + 1]?

/-- The check of heights finds nothing exactly in balanced shapes. -/
theorem heightViolation?_eq_none_iff
    {Key : Type}
    {shape : Shape Key} :
    shape.heightViolation? = none ↔ shape.Balanced := by
  induction shape with
  | empty =>
      simp [Shape.heightViolation?]
  | node left id key height right leftHypothesis rightHypothesis =>
      have balances :
          (left.height : Int) - right.height ∈ [(-1 : Int), 0, 1] ↔
            Shape.Near left.height right.height := by
        simp only [List.mem_cons, List.not_mem_nil, or_false, Shape.Near]
        omega
      simp only [Shape.heightViolation?, Option.orElse_eq_orElse, Option.orElse_eq_or,
        Option.or_eq_none_iff, leftHypothesis, rightHypothesis, ite_eq_left_iff,
        reduceCtorEq, imp_false, Classical.not_not, balances, Shape.Balanced]
      constructor
      · rintro ⟨leftBalanced, exact, near, rightBalanced⟩
        exact ⟨leftBalanced, rightBalanced, exact, near⟩
      · rintro ⟨leftBalanced, rightBalanced, exact, near⟩
        exact ⟨leftBalanced, exact, near, rightBalanced⟩

/-- The check of keys finds nothing exactly where they ascend. -/
theorem keyViolation?_eq_none_iff
    {order : Order Key}
    [Std.TransCmp order]
    {keyed : List (NodeId × Key)} :
    keyViolation? order keyed = none ↔ Order.Ascending order (keyed.map Prod.snd) := by
  induction keyed with
  | nil =>
      simp [keyViolation?, Order.Ascending]
  | cons first rest inductionHypothesis =>
      cases rest with
      | nil =>
          simp [keyViolation?, Order.Ascending]
      | cons second rest =>
          rw [keyViolation?]
          constructor
          · intro clean
            by_cases ascends : order first.2 second.2 = .lt
            · rw [if_pos ascends] at clean
              have restAscending := inductionHypothesis.mp clean
              refine List.pairwise_cons.mpr ⟨?_, restAscending⟩
              intro key member
              rcases List.mem_cons.mp member with isSecond | inRest
              · subst key
                exact ascends
              · exact Std.TransCmp.lt_trans ascends
                  ((List.pairwise_cons.mp restAscending).1 key inRest)
            · simp [ascends] at clean
          · intro ascending
            obtain ⟨above, restAscending⟩ := List.pairwise_cons.mp ascending
            rw [if_pos (above second.2 (by simp))]
            exact inductionHypothesis.mpr restAscending

theorem linkViolation?_cons
    {outside : Option NodeId}
    {first : NodeId}
    {rest : List NodeId} :
    tree.linkViolation? outside (first :: rest) = none ↔
      ((tree.entry? first).isSome ∧
        tree.previous? first = outside ∧ tree.next? first = rest.head?) ∧
        tree.linkViolation? (some first) rest = none := by
  cases found : tree.entry? first with
  | none =>
      simp [linkViolation?, found]
  | some entry =>
      simp only [linkViolation?, found, previous?, next?, Option.isSome_some, Option.bind_some,
        true_and]
      by_cases previousRight : entry.previous = outside
      · by_cases nextRight : entry.next = rest.head?
        · simp [previousRight, nextRight]
        · simp [previousRight, nextRight]
      · simp [previousRight]

theorem neighbour?_succ
    (first : NodeId)
    (rest : List NodeId)
    (outside : Option NodeId)
    (place : Nat) :
    neighbour? (first :: rest) outside (place + 1) = neighbour? rest (some first) place := by
  cases place <;> simp [neighbour?]

/-- The check of links finds nothing exactly where every node names its neighbours. -/
theorem linkViolation?_eq_none_iff
    {outside : Option NodeId}
    {ids : List NodeId} :
    tree.linkViolation? outside ids = none ↔
      ∀ place id,
        ids[place]? = some id →
        (tree.entry? id).isSome ∧
          tree.previous? id = neighbour? ids outside place ∧
            tree.next? id = ids[place + 1]? := by
  induction ids generalizing outside with
  | nil =>
      simp [linkViolation?]
  | cons first rest inductionHypothesis =>
      rw [linkViolation?_cons, inductionHypothesis, List.head?_eq_getElem?]
      constructor
      · rintro ⟨here, later⟩ place id atPlace
        cases place with
        | zero =>
            cases atPlace
            exact here
        | succ place =>
            rw [neighbour?_succ]
            exact later place id atPlace
      · intro linked
        refine ⟨linked 0 first rfl, ?_⟩
        intro place id atPlace
        rw [← neighbour?_succ first rest outside]
        exact linked (place + 1) id atPlace

/-- The structural check passes exactly the valid trees. -/
theorem violation?_eq_none_iff [Std.TransCmp tree.order] :
    tree.violation? = none ↔ tree.Valid := by
  have missing :
      (tree.shape.ids.find? fun id => (tree.entry? id).isNone) = none ↔
        ∀ id ∈ tree.shape.ids, (tree.entry? id).isSome := by
    simp [List.find?_eq_none, Option.isSome_iff_ne_none]
  have keyed :
      ((tree.shape.ids.filterMap fun id => (tree.key? id).map fun key => (id, key)).map
          Prod.snd) =
        tree.shape.ids.filterMap tree.key? := by
    simp [List.map_filterMap, Function.comp_def]
  constructor
  · intro clean
    by_cases sizeRight : tree.shape.ids.length = tree.size
    · cases found : tree.shape.ids.find? fun id => (tree.entry? id).isNone with
      | some id =>
          rw [violation?, if_neg (not_not_intro sizeRight), found] at clean
          contradiction
      | none =>
          simp only [violation?, sizeRight, found, ne_eq, not_true_eq_false, ↓reduceIte,
            Option.orElse_eq_orElse, Option.orElse_eq_or, Option.or_eq_none_iff,
            keyViolation?_eq_none_iff, heightViolation?_eq_none_iff,
            linkViolation?_eq_none_iff, keyed, ite_eq_left_iff, reduceCtorEq, imp_false,
            Decidable.not_not] at clean
          obtain ⟨ascending, balanced, first_eq, last_eq, linked⟩ := clean
          exact ⟨sizeRight, missing.mp found, ascending, balanced, first_eq, last_eq,
            fun place id atPlace => (linked place id atPlace).2⟩
    · rw [violation?, if_pos sizeRight] at clean
      contradiction
  · intro valid
    have found := missing.mpr valid.live
    simp only [violation?, valid.size_eq, found, ne_eq, not_true_eq_false, ↓reduceIte,
      Option.orElse_eq_orElse, Option.orElse_eq_or, Option.or_eq_none_iff,
      keyViolation?_eq_none_iff, heightViolation?_eq_none_iff,
      linkViolation?_eq_none_iff, keyed, ite_eq_left_iff, reduceCtorEq, imp_false,
      Decidable.not_not]
    refine ⟨valid.ascending, valid.balanced, valid.first_eq, valid.last_eq, ?_⟩
    intro place id atPlace
    exact ⟨valid.live id (List.mem_of_getElem? atPlace), valid.linked place id atPlace⟩

/-! ## Trees that represent a list -/

namespace Represents

variable {nodes : List (TreeNode Key Value)}

/-- The links of a node, by its place in the list. -/
theorem links_of_getElem?
    (represents : tree.Represents nodes)
    {place : Nat}
    {node : TreeNode Key Value}
    (atPlace : nodes[place]? = some node) :
    tree.entry? node.id =
      some ⟨node.key, node.value,
        neighbour? (nodes.map TreeNode.id) none place, (nodes.map TreeNode.id)[place + 1]?⟩ := by
  obtain ⟨inRange, isNode⟩ := List.getElem?_eq_some_iff.mp atPlace
  have split : nodes = nodes.take place ++ node :: nodes.drop (place + 1) := by
    rw [← isNode, List.getElem_cons_drop, List.take_append_drop]
  rw [represents.entry?_eq split, lastOr_none, firstOr_none]
  congr 2
  · cases place with
    | zero =>
        simp [neighbour?]
    | succ place =>
        simp [neighbour?, List.getLast?_take, List.getElem?_eq_getElem (Nat.lt_of_succ_lt inRange)]
  · simp [List.head?_drop]

/-- A tree whose parts all tell one list of nodes is valid. -/
theorem valid (represents : tree.Represents nodes) : tree.Valid where
  size_eq := by
    rw [represents.ids_eq, represents.size_eq, List.length_map]
  live := by
    intro id member
    rw [represents.ids_eq] at member
    exact represents.entry?_isSome_iff.mpr member
  ascending := by
    have keys : tree.shape.ids.filterMap tree.key? = nodes.map TreeNode.key := by
      rw [represents.ids_eq]
      exact represents.filterMap_ids fun _ _ _ => rfl
    rw [keys]
    exact represents.ascending
  balanced := represents.balanced
  first_eq := by
    rw [represents.first_eq, represents.ids_eq, firstOr_none, List.head?_map]
  last_eq := by
    rw [represents.last_eq, represents.ids_eq, lastOr_none, List.getLast?_map]
  linked := by
    intro place id atPlace
    rw [represents.ids_eq] at atPlace ⊢
    rw [List.getElem?_map] at atPlace
    obtain ⟨node, nodeAtPlace, rfl⟩ := Option.map_eq_some_iff.mp atPlace
    have links := represents.links_of_getElem? nodeAtPlace
    simp [previous?, next?, links]

end Represents

end OrderedIndex.OrderedTree

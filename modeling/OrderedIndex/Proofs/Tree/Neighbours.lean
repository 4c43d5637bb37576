import OrderedIndex.Proofs.SortedList
import OrderedIndex.Proofs.Tree.Walk

namespace OrderedIndex

/-!
# Neighbours of a key

The four searches for the neighbours of a key find the nodes on either side of
the two borders of the key.
-/

namespace OrderedTree.Represents

open TreeNode

variable
  {Key Value : Type}
  {tree : OrderedTree Key Value}
  [Std.TransCmp tree.order]
  {nodes : List (TreeNode Key Value)}

/-- The least key at or above a sought one is the first that is not below it. -/
theorem findAtLeast?_eq
    (represents : tree.Represents nodes)
    (key : Key) :
    tree.findAtLeast? key = firstOr none (Order.notLower (tree.probeNode key) nodes) := by
  rcases represents.located key with
    ⟨below, above, node, rfl, equal, allBelow, _, located, _⟩ |
      ⟨below, above, rfl, allBelow, allAbove, located, _⟩
  · rw [findAtLeast?, located, (Order.lower_present allBelow equal).2]
    rfl
  · rw [findAtLeast?, located, (Order.borders_absent allBelow allAbove).1.2]

/-- The least key above a sought one is the first that is above it. -/
theorem findAbove?_eq
    (represents : tree.Represents nodes)
    (key : Key) :
    tree.findAbove? key = firstOr none (Order.upper (tree.probeNode key) nodes) := by
  rcases represents.located key with
    ⟨below, above, node, rfl, equal, allBelow, allAbove, located, _⟩ |
      ⟨below, above, rfl, allBelow, allAbove, located, _⟩
  · rw [findAbove?, located, (Order.upper_present allBelow equal allAbove).2]
    exact represents.next?_eq rfl
  · rw [findAbove?, located, (Order.borders_absent allBelow allAbove).2.2]

/-- The greatest key at or below a sought one is the last that is not above it. -/
theorem findAtMost?_eq
    (represents : tree.Represents nodes)
    (key : Key) :
    tree.findAtMost? key = lastOr none (Order.notUpper (tree.probeNode key) nodes) := by
  rcases represents.located key with
    ⟨below, above, node, rfl, equal, allBelow, allAbove, located, _⟩ |
      ⟨below, above, rfl, allBelow, allAbove, located, _⟩
  · rw [findAtMost?, located, (Order.upper_present allBelow equal allAbove).1, lastOr_append]
    rfl
  · rw [findAtMost?, located, (Order.borders_absent allBelow allAbove).2.1]

/-- The greatest key below a sought one is the last that is below it. -/
theorem findBelow?_eq
    (represents : tree.Represents nodes)
    (key : Key) :
    tree.findBelow? key = lastOr none (Order.lower (tree.probeNode key) nodes) := by
  rcases represents.located key with
    ⟨below, above, node, rfl, equal, allBelow, _, located, _⟩ |
      ⟨below, above, rfl, allBelow, allAbove, located, _⟩
  · rw [findBelow?, located, (Order.lower_present allBelow equal).1]
    exact represents.previous?_eq rfl
  · rw [findBelow?, located, (Order.borders_absent allBelow allAbove).1.1]

/-- There is a node at or above the key if any key is not below it. -/
theorem findAtLeast?_isSome
    (represents : tree.Represents nodes)
    (key : Key) :
    (tree.findAtLeast? key).isSome = nodes.any fun node => tree.order key node.key != .gt := by
  have nonempty := Order.any_notLower (tree.probeNode key) nodes
  rw [represents.findAtLeast?_eq, isSome_firstOr_none]
  exact nonempty.symm

/-- There is a node at or below the key if any key is not above it. -/
theorem findAtMost?_isSome
    (represents : tree.Represents nodes)
    (key : Key) :
    (tree.findAtMost? key).isSome = nodes.any fun node => tree.order key node.key != .lt := by
  have nonempty := Order.any_notUpper (represents.ascending.separates_map key)
  rw [represents.findAtMost?_eq, isSome_lastOr_none]
  exact nonempty.symm

end OrderedTree.Represents

end OrderedIndex

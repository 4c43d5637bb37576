import OrderedIndex.Proofs.Tree.Neighbours
import OrderedIndex.Proofs.Tree.RoundTrip

namespace OrderedIndex

/-!
# Requests

Whoever knows a tree by its keys changes it and asks for the neighbours of a
key.  The replies name pairs and no nodes, and all of them are told by the list
of the tree's pairs.
-/

variable {Key Value Element : Type}

/-- Which neighbour of a key is sought. -/
inductive Neighbour where
  /-- The greatest below the key. -/
  | below
  /-- The greatest at or below the key. -/
  | atMost
  /-- The one equal to the key. -/
  | equal
  /-- The least at or above the key. -/
  | atLeast
  /-- The least above the key. -/
  | above
  deriving Repr, DecidableEq

namespace Neighbour

/-- The node that a tree finds. -/
def node? (tree : OrderedTree Key Value) (key : Key) : Neighbour → Option NodeId
  | .below => tree.findBelow? key
  | .atMost => tree.findAtMost? key
  | .equal => tree.find? key
  | .atLeast => tree.findAtLeast? key
  | .above => tree.findAbove? key

/-- The neighbour among ascending elements. -/
def pick? (probe : Element → Ordering) (elements : List Element) : Neighbour → Option Element
  | .below => (Order.lower probe elements).getLast?
  | .atMost => (Order.notUpper probe elements).getLast?
  | .equal => Order.lookup? probe elements
  | .atLeast => (Order.notLower probe elements).head?
  | .above => (Order.upper probe elements).head?

theorem mem_of_pick?
    {probe : Element → Ordering}
    {elements : List Element}
    {element : Element}
    (neighbour : Neighbour)
    (picked : neighbour.pick? probe elements = some element) :
    element ∈ elements := by
  cases neighbour with
  | below =>
      exact (List.takeWhile_prefix _).subset (List.mem_of_getLast? picked)
  | atMost =>
      exact (List.takeWhile_prefix _).subset (List.mem_of_getLast? picked)
  | equal =>
      exact List.mem_of_find?_eq_some picked
  | atLeast =>
      exact (List.dropWhile_suffix _).subset (List.mem_of_head? picked)
  | above =>
      exact (List.dropWhile_suffix _).subset (List.mem_of_head? picked)

theorem pick?_map
    {Item : Type}
    (probe : Item → Ordering)
    (image : Element → Item)
    (elements : List Element)
    (neighbour : Neighbour) :
    neighbour.pick? probe (elements.map image) =
      (neighbour.pick? (fun element => probe (image element)) elements).map image := by
  cases neighbour with
  | below =>
      rw [pick?, Order.lower_map, List.getLast?_map]
      rfl
  | atMost =>
      rw [pick?, Order.notUpper_map, List.getLast?_map]
      rfl
  | equal =>
      exact Order.lookup?_map probe image elements
  | atLeast =>
      rw [pick?, Order.notLower_map, List.head?_map]
      rfl
  | above =>
      rw [pick?, Order.upper_map, List.head?_map]
      rfl

end Neighbour

namespace OrderedTree.Represents

open TreeNode

variable
  {tree : OrderedTree Key Value}
  [Std.TransCmp tree.order]
  {nodes : List (TreeNode Key Value)}

/-- A search for a neighbour finds the node of the neighbour in the list. -/
theorem neighbour_eq
    (represents : tree.Represents nodes)
    (key : Key)
    (neighbour : Neighbour) :
    neighbour.node? tree key =
      (neighbour.pick? (tree.probeNode key) nodes).map TreeNode.id := by
  cases neighbour with
  | below =>
      rw [Neighbour.node?, represents.findBelow?_eq, lastOr_none]
      rfl
  | atMost =>
      rw [Neighbour.node?, represents.findAtMost?_eq, lastOr_none]
      rfl
  | equal =>
      rcases represents.located key with
        ⟨below, above, node, rfl, equal, allBelow, _, located, _⟩ |
          ⟨below, above, rfl, allBelow, allAbove, located, _⟩
      · rw [Neighbour.node?, find?, located, Neighbour.pick?,
          Order.lookup?_present allBelow equal]
        rfl
      · rw [Neighbour.node?, find?, located, Neighbour.pick?,
          Order.lookup?_absent allBelow allAbove]
        rfl
  | atLeast =>
      rw [Neighbour.node?, represents.findAtLeast?_eq, firstOr_none]
      rfl
  | above =>
      rw [Neighbour.node?, represents.findAbove?_eq, firstOr_none]
      rfl

/-- The pair of a neighbour is the neighbour among the pairs. -/
theorem neighbour_pair_eq
    (represents : tree.Represents nodes)
    (key : Key)
    (neighbour : Neighbour) :
    (neighbour.node? tree key).bind tree.pair? =
      neighbour.pick? (probePair tree.order key) (nodes.map TreeNode.pair) := by
  have picks :
      neighbour.pick? (probePair tree.order key) (nodes.map TreeNode.pair) =
        (neighbour.pick? (tree.probeNode key) nodes).map TreeNode.pair :=
    neighbour.pick?_map _ _ nodes
  rw [represents.neighbour_eq, picks]
  cases picked : neighbour.pick? (tree.probeNode key) nodes with
  | none =>
      rfl
  | some node =>
      exact represents.pair?_eq_of_mem (neighbour.mem_of_pick? picked)

end OrderedTree.Represents

/-- What is asked of a tree by key. -/
inductive TreeRequest (Key Value : Type) where
  | make (change : TreeChange Key Value)
  | contains (key : Key)
  | get (key : Key)
  | find (neighbour : Neighbour) (key : Key)
  deriving Repr, DecidableEq

/-- What a tree replies, in keys and values. -/
inductive TreeReply (Key Value : Type) where
  | changed (answer : TreeAnswer Value)
  | contained (answer : Bool)
  | got (value : Option Value)
  | found (pair : Option (Key × Value))
  deriving Repr, DecidableEq

namespace TreeRequest

/-- Serve a request. -/
def apply (tree : OrderedTree Key Value) :
    TreeRequest Key Value → TreeReply Key Value × OrderedTree Key Value
  | .make change => (.changed (change.apply tree).1, (change.apply tree).2)
  | .contains key => (.contained (tree.contains key), tree)
  | .get key => (.got (tree.get? key), tree)
  | .find neighbour key => (.found ((neighbour.node? tree key).bind tree.pair?), tree)

/-- Serve requests one after the other and collect the replies. -/
def run (tree : OrderedTree Key Value) :
    List (TreeRequest Key Value) → List (TreeReply Key Value) × OrderedTree Key Value
  | [] => ([], tree)
  | request :: rest =>
      let (reply, changed) := request.apply tree
      let (replies, final) := run changed rest
      (reply :: replies, final)

/-- Serve a request from an ascending association list. -/
def applyToList (order : Order Key) (pairs : List (Key × Value)) :
    TreeRequest Key Value → TreeReply Key Value × List (Key × Value)
  | .make change =>
      (.changed (change.applyToList order pairs).1, (change.applyToList order pairs).2)
  | .contains key => (.contained (Order.lookup? (probePair order key) pairs).isSome, pairs)
  | .get key => (.got ((Order.lookup? (probePair order key) pairs).map Prod.snd), pairs)
  | .find neighbour key => (.found (neighbour.pick? (probePair order key) pairs), pairs)

variable {tree : OrderedTree Key Value} {nodes : List (TreeNode Key Value)}

@[simp] theorem order_apply (request : TreeRequest Key Value) :
    (request.apply tree).2.order = tree.order := by
  cases request with
  | make change =>
      exact TreeChange.order_apply change
  | contains key =>
      rfl
  | get key =>
      rfl
  | find neighbour key =>
      rfl

/-- A request of a tree is served as from the list of its pairs. -/
theorem apply_represents
    [Std.TransCmp tree.order]
    (represents : tree.Represents nodes)
    (request : TreeRequest Key Value) :
    ∃ changed,
      (request.apply tree).2.Represents changed ∧
        ((request.apply tree).1, changed.map TreeNode.pair) =
          request.applyToList tree.order (nodes.map TreeNode.pair) := by
  cases request with
  | make change =>
      obtain ⟨changed, result, answers⟩ := TreeChange.apply_represents represents change
      refine ⟨changed, result, ?_⟩
      rw [applyToList, ← answers]
      rfl
  | contains key =>
      refine ⟨nodes, represents, ?_⟩
      rw [applyToList, ← represents.contains_eq]
      rfl
  | get key =>
      refine ⟨nodes, represents, ?_⟩
      rw [applyToList, ← represents.get?_eq]
      rfl
  | find neighbour key =>
      refine ⟨nodes, represents, ?_⟩
      rw [applyToList, ← represents.neighbour_pair_eq]
      rfl

end TreeRequest

end OrderedIndex

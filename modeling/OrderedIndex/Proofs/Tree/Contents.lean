import OrderedIndex.Proofs.Tree.Change
import OrderedIndex.Proofs.Tree.Neighbours

namespace OrderedIndex.OrderedTree

/-!
# Trees by their contents

For whoever uses a tree, its nodes do not matter: a sound tree is known by its
pairs, and every operation by what it does to them.
-/

variable {Key Value : Type} {tree : OrderedTree Key Value}

/-- A tree in a lawful order that represents some list of nodes. -/
structure Sound (tree : OrderedTree Key Value) : Prop where
  lawful : Std.TransCmp tree.order
  represents : ∃ nodes, tree.Represents nodes

/-- The tree without keys is sound. -/
theorem sound_empty
    (order : Order Key)
    [Std.TransCmp order] :
    (empty order : OrderedTree Key Value).Sound where
  lawful := inferInstanceAs (Std.TransCmp order)
  represents := ⟨[], represents_empty order⟩

@[simp] theorem toList_empty (order : Order Key) :
    (empty order : OrderedTree Key Value).toList = [] :=
  rfl

/-- The keys of a tree are those of its pairs. -/
theorem keys_eq_toList : tree.keys = tree.toList.map Prod.fst := by
  rw [toList, List.map_map]
  rfl

/-- The values of a tree are those of its pairs. -/
theorem values_eq_toList : tree.values = tree.toList.map Prod.snd := by
  rw [toList, List.map_map]
  rfl

namespace Sound

/-- The keys of a sound tree ascend. -/
theorem ascending (sound : tree.Sound) : Order.Ascending tree.order tree.keys := by
  obtain ⟨nodes, represents⟩ := sound.represents
  rw [represents.keys_eq]
  exact represents.ascending

/-- A sound tree counts its pairs. -/
theorem size_eq (sound : tree.Sound) : tree.size = tree.toList.length := by
  obtain ⟨nodes, represents⟩ := sound.represents
  rw [represents.toList_eq, List.length_map]
  exact represents.size_eq

/-- Every key splits the pairs. -/
theorem split
    (sound : tree.Sound)
    (key : Key) :
    Order.Split (probePair tree.order key) tree.toList := by
  have lawful := sound.lawful
  have ascending := sound.ascending
  rw [keys_eq_toList] at ascending
  exact (ascending.separates_map key).split

/-- A key is contained if a pair with it is found. -/
theorem contains_eq
    (sound : tree.Sound)
    (key : Key) :
    tree.contains key = (Order.lookup? (probePair tree.order key) tree.toList).isSome := by
  have lawful := sound.lawful
  obtain ⟨nodes, represents⟩ := sound.represents
  rw [represents.toList_eq]
  exact represents.contains_eq key

/-- The value under a key is that of the pair with the key. -/
theorem get?_eq
    (sound : tree.Sound)
    (key : Key) :
    tree.get? key =
      (Order.lookup? (probePair tree.order key) tree.toList).map Prod.snd := by
  have lawful := sound.lawful
  obtain ⟨nodes, represents⟩ := sound.represents
  rw [represents.toList_eq]
  exact represents.get?_eq key

/-- An insertion places a pair, and tells whether none with the key was there. -/
theorem insert
    (sound : tree.Sound)
    (key : Key)
    (value : Value) :
    (tree.insert key value).2.Sound ∧
      (tree.insert key value).2.toList =
        Order.place (probePair tree.order key) (key, value) tree.toList ∧
        (tree.insert key value).1 =
          (Order.lookup? (probePair tree.order key) tree.toList).isNone := by
  have lawful := sound.lawful
  obtain ⟨nodes, represents⟩ := sound.represents
  obtain ⟨changed, changedRepresents, pairs, answer⟩ := represents.insert key value
  rw [represents.toList_eq, changedRepresents.toList_eq]
  refine ⟨⟨?_, changed, changedRepresents⟩, pairs, answer⟩
  rw [order_insert]
  exact lawful

/-- A removal takes out the pair with the key, and gives back its value. -/
theorem remove
    (sound : tree.Sound)
    (key : Key) :
    (tree.remove key).2.Sound ∧
      (tree.remove key).2.toList =
        Order.discard (probePair tree.order key) tree.toList ∧
        (tree.remove key).1 =
          (Order.lookup? (probePair tree.order key) tree.toList).map Prod.snd := by
  have lawful := sound.lawful
  obtain ⟨nodes, represents⟩ := sound.represents
  obtain ⟨changed, changedRepresents, pairs, answer⟩ := represents.remove key
  rw [represents.toList_eq, changedRepresents.toList_eq]
  refine ⟨⟨?_, changed, changedRepresents⟩, pairs, answer⟩
  rw [order_remove]
  exact lawful

/-- A write replaces the value under a key, and tells whether there is one. -/
theorem set
    (sound : tree.Sound)
    (key : Key)
    (value : Value) :
    (tree.set key value).2.Sound ∧
      (tree.set key value).2.toList =
        Order.adjust (probePair tree.order key) (fun pair => (pair.1, value)) tree.toList ∧
        (tree.set key value).1 =
          (Order.lookup? (probePair tree.order key) tree.toList).isSome := by
  have lawful := sound.lawful
  obtain ⟨nodes, represents⟩ := sound.represents
  obtain ⟨changed, changedRepresents, pairs, answer⟩ := represents.set key value
  rw [represents.toList_eq, changedRepresents.toList_eq]
  refine ⟨⟨?_, changed, changedRepresents⟩, pairs, answer⟩
  rw [order_set]
  exact lawful

/-- Whether a key is present, and what its users rely on in either case. -/
inductive Sought (tree : OrderedTree Key Value) (key : Key) : Prop where
  | present
      (id : NodeId)
      (stored : Value)
      (found : tree.find? key = some id)
      (holds : tree.value? id = some stored)
      (get?_eq : tree.get? key = some stored)
      (setValue_eq : ∀ other, tree.setValue id other = (tree.set key other).2)
      (removed : (tree.remove key).1 = some stored)
  | absent
      (missing : tree.find? key = none)
      (get?_eq : tree.get? key = none)
      (isNew : ∀ other, (tree.insert key other).1 = true)
      (untouched : tree.remove key = (none, tree))

/-- A key is sought among the pairs of a sound tree. -/
theorem sought
    (sound : tree.Sound)
    (key : Key) :
    Sought tree key := by
  have lawful := sound.lawful
  obtain ⟨nodes, represents⟩ := sound.represents
  rcases represents.located key with
    ⟨below, above, node, rfl, _, _, _, located, _⟩ | ⟨below, above, rfl, _, _, located, _⟩
  · have found : tree.find? key = some node.id := by
      simp [find?, located]
    have holds := represents.value?_eq rfl
    refine .present node.id node.value found holds ?_ ?_ ?_
    · rw [get?, found, Option.bind_some, holds]
    · intro other
      simp [OrderedTree.set, found]
    · simp [OrderedTree.remove, found, represents.entry?_eq rfl]
  · have missing : tree.find? key = none := by
      simp [find?, located]
    refine .absent missing ?_ ?_ ?_
    · rw [get?, missing, Option.bind_none]
    · intro other
      simp [OrderedTree.insert, located]
    · simp [OrderedTree.remove, missing]

/-- A node is found if a pair with the key is. -/
theorem find?_isSome
    (sound : tree.Sound)
    (key : Key) :
    (tree.find? key).isSome =
      (Order.lookup? (probePair tree.order key) tree.toList).isSome :=
  sound.contains_eq key

/-- A node at or above a key is found if a pair at or above it is there. -/
theorem findAtLeast?_isSome
    (sound : tree.Sound)
    (key : Key) :
    (tree.findAtLeast? key).isSome =
      tree.toList.any fun pair => tree.order key pair.1 != .gt := by
  have lawful := sound.lawful
  obtain ⟨nodes, represents⟩ := sound.represents
  rw [represents.toList_eq, List.any_map]
  exact represents.findAtLeast?_isSome key

/-- A node at or below a key is found if a pair at or below it is there. -/
theorem findAtMost?_isSome
    (sound : tree.Sound)
    (key : Key) :
    (tree.findAtMost? key).isSome =
      tree.toList.any fun pair => tree.order key pair.1 != .lt := by
  have lawful := sound.lawful
  obtain ⟨nodes, represents⟩ := sound.represents
  rw [represents.toList_eq, List.any_map]
  exact represents.findAtMost?_isSome key

/-! ## Trees as sets of keys -/

/-- A key is found among the keys if a pair with it is found among the pairs. -/
theorem lookup?_keys (key : Key) :
    (Order.lookup? (tree.order key) tree.keys).isSome =
      (Order.lookup? (probePair tree.order key) tree.toList).isSome := by
  rw [keys_eq_toList, Order.lookup?_map, Option.isSome_map]
  rfl

/-- A tree contains the keys that are found among its keys. -/
theorem contains_keys
    (sound : tree.Sound)
    (key : Key) :
    tree.contains key = (Order.lookup? (tree.order key) tree.keys).isSome := by
  rw [lookup?_keys]
  exact sound.contains_eq key

/-- A sound tree counts its keys. -/
theorem size_keys (sound : tree.Sound) : tree.size = tree.keys.length := by
  rw [keys_eq_toList, List.length_map]
  exact sound.size_eq

/-- An insertion places a key among the keys. -/
theorem insert_keys
    (sound : tree.Sound)
    (key : Key)
    (value : Value) :
    (tree.insert key value).2.keys = Order.place (tree.order key) key tree.keys ∧
      (tree.insert key value).1 = (Order.lookup? (tree.order key) tree.keys).isNone := by
  obtain ⟨_, pairs, answer⟩ := sound.insert key value
  constructor
  · rw [keys_eq_toList, pairs, keys_eq_toList]
    exact Order.place_map (tree.order key) Prod.fst (key, value) tree.toList
  · rw [answer, ← Option.not_isSome, ← lookup?_keys, Option.not_isSome]

/-- A removal takes out a key from the keys. -/
theorem remove_keys
    (sound : tree.Sound)
    (key : Key) :
    (tree.remove key).2.keys = Order.discard (tree.order key) tree.keys ∧
      (tree.remove key).1.isSome = (Order.lookup? (tree.order key) tree.keys).isSome := by
  obtain ⟨_, pairs, answer⟩ := sound.remove key
  constructor
  · rw [keys_eq_toList, pairs, keys_eq_toList]
    exact Order.discard_map (tree.order key) Prod.fst tree.toList
  · rw [answer, Option.isSome_map, lookup?_keys]

/-! ## Values in key order -/

/-- The value of a key has its place among the values. -/
theorem values_present
    (sound : tree.Sound)
    {key : Key}
    {stored : Value}
    (present : tree.get? key = some stored) :
    ∃ below above,
      tree.values = below ++ stored :: above ∧
        (tree.remove key).2.values = below ++ above ∧
          ∀ other,
            (tree.set key other).2.values = below ++ other :: above ∧
              ((tree.set key other).2.remove key).2.values = below ++ above := by
  rw [sound.get?_eq] at present
  rcases sound.split key with
    ⟨below, above, pair, pairs, equal, allBelow, allAbove⟩ |
      ⟨below, above, pairs, allBelow, allAbove⟩
  · rw [pairs, Order.lookup?_present allBelow equal, Option.map_some, Option.some.injEq] at present
    have remaining : Order.discard (probePair tree.order key) tree.toList = below ++ above := by
      rw [pairs, Order.discard_present allBelow equal allAbove]
    refine ⟨below.map Prod.snd, above.map Prod.snd, ?_, ?_, ?_⟩
    · rw [values_eq_toList, pairs, List.map_append, List.map_cons, present]
    · rw [values_eq_toList, (sound.remove key).2.1, remaining, List.map_append]
    · intro other
      obtain ⟨written, setPairs, _⟩ := sound.set key other
      refine ⟨?_, ?_⟩
      · rw [values_eq_toList, setPairs, pairs, Order.adjust_present allBelow equal allAbove,
          List.map_append, List.map_cons]
      · have discarded :
            Order.discard (probePair tree.order key)
                (Order.adjust (probePair tree.order key) (fun pair => (pair.1, other))
                  tree.toList) =
              Order.discard (probePair tree.order key) tree.toList := by
          refine Order.discard_adjust ?_ tree.toList
          intro pair
          rfl
        rw [values_eq_toList, (written.remove key).2.1, setPairs, order_set, discarded, remaining,
          List.map_append]
  · rw [pairs, Order.lookup?_absent allBelow allAbove] at present
    contradiction

/-- The value of a new key gets its place among the values. -/
theorem values_absent
    (sound : tree.Sound)
    {key : Key}
    (absent : tree.get? key = none)
    (added : Value) :
    ∃ below above,
      tree.values = below ++ above ∧
        (tree.insert key added).2.values = below ++ added :: above := by
  rw [sound.get?_eq] at absent
  rcases sound.split key with
    ⟨below, above, pair, pairs, equal, allBelow, _⟩ | ⟨below, above, pairs, allBelow, allAbove⟩
  · rw [pairs, Order.lookup?_present allBelow equal] at absent
    contradiction
  · refine ⟨below.map Prod.snd, above.map Prod.snd, ?_, ?_⟩
    · rw [values_eq_toList, pairs, List.map_append]
    · rw [values_eq_toList, (sound.insert key added).2.1, pairs,
        Order.place_absent allBelow allAbove, List.map_append, List.map_cons]

/-- What a slot holds is one of the values. -/
theorem mem_values_of_value?
    (sound : tree.Sound)
    {id : NodeId}
    {stored : Value}
    (holds : tree.value? id = some stored) :
    stored ∈ tree.values := by
  obtain ⟨nodes, represents⟩ := sound.represents
  rw [represents.values_eq]
  by_cases inTree : id ∈ nodes.map TreeNode.id
  · obtain ⟨node, member, rfl⟩ := List.mem_map.mp inTree
    obtain ⟨below, above, nodes_eq⟩ := List.append_of_mem member
    rw [represents.value?_eq nodes_eq, Option.some.injEq] at holds
    rw [← holds]
    exact List.mem_map_of_mem member
  · rw [value?, represents.vacant id inTree] at holds
    contradiction

end Sound

/-- Equal keys find the same. -/
theorem Sound.get?_congr
    (sound : tree.Sound)
    {key other : Key}
    (equal : tree.order key other = .eq) :
    tree.get? key = tree.get? other := by
  have lawful := sound.lawful
  have sameProbe :
      (probePair tree.order key : Key × Value → Ordering) = probePair tree.order other :=
    funext fun _ => Std.TransCmp.congr_left equal
  rw [sound.get?_eq, sound.get?_eq, sameProbe]

/-! ## Finding after a change -/

/-- A tree that differs from another in what it holds under one key. -/
structure ChangedAt
    (tree : OrderedTree Key Value)
    (key : Key)
    (stored? : Option Value)
    (result : OrderedTree Key Value) :
    Prop where
  get?_eq : result.get? key = stored?
  others : ∀ other, tree.order key other ≠ .eq → result.get? other = tree.get? other

/-- Two changes under one key come to the second. -/
theorem ChangedAt.trans
    {key : Key}
    {between? stored? : Option Value}
    {middle result : OrderedTree Key Value}
    (first : tree.ChangedAt key between? middle)
    (order_eq : middle.order = tree.order)
    (second : middle.ChangedAt key stored? result) :
    tree.ChangedAt key stored? result := by
  refine ⟨second.get?_eq, ?_⟩
  intro other differs
  rw [second.others other (order_eq ▸ differs), first.others other differs]

section ChangedAt

variable (sound : tree.Sound) {key : Key} {stored : Value}

include sound

/-- Pairs with a key are not pairs with another. -/
theorem Sound.probePair_apart
    {other : Key}
    (differs : tree.order key other ≠ .eq)
    (pair : Key × Value)
    (equal : probePair tree.order key pair = .eq) :
    probePair tree.order other pair ≠ .eq := by
  have lawful := sound.lawful
  intro alsoEqual
  exact differs (Std.TransCmp.eq_trans equal (Std.OrientedCmp.eq_symm alsoEqual))

/-- A write under a key that is present changes what is found under that key alone. -/
theorem Sound.changedAt_set
    (present : tree.get? key = some stored)
    (value : Value) :
    tree.ChangedAt key (some value) (tree.set key value).2 := by
  obtain ⟨written, pairs, _⟩ := sound.set key value
  have same :
      ∀ probed (pair : Key × Value),
        probePair tree.order probed (pair.1, value) = probePair tree.order probed pair :=
    fun _ _ => rfl
  refine ⟨?_, ?_⟩
  · rw [sound.get?_eq] at present
    obtain ⟨pair, found, _⟩ := Option.map_eq_some_iff.mp present
    rw [written.get?_eq, pairs, order_set, Order.lookup?_adjust (same key), found]
    rfl
  · intro other differs
    rw [written.get?_eq, sound.get?_eq, pairs, order_set,
      Order.lookup?_adjust_apart (sound.probePair_apart differs) (same other)]

/-- An insertion of an absent key changes what is found under that key alone. -/
theorem Sound.changedAt_insert
    (absent : tree.get? key = none)
    (value : Value) :
    tree.ChangedAt key (some value) (tree.insert key value).2 := by
  have lawful := sound.lawful
  obtain ⟨inserted, pairs, _⟩ := sound.insert key value
  refine ⟨?_, ?_⟩
  · rw [sound.get?_eq, Option.map_eq_none_iff] at absent
    have isKey : probePair tree.order key (key, value) = .eq := Std.ReflCmp.compare_self
    rw [inserted.get?_eq, pairs, order_insert, (sound.split key).lookup?_place absent isKey]
    rfl
  · intro other differs
    have isOther : probePair tree.order other (key, value) ≠ .eq :=
      fun equal => differs (Std.OrientedCmp.eq_symm equal)
    rw [inserted.get?_eq, sound.get?_eq, pairs, order_insert,
      Order.lookup?_place_apart isOther]

/-- A removal changes what is found under the removed key alone. -/
theorem Sound.changedAt_remove (key : Key) : tree.ChangedAt key none (tree.remove key).2 := by
  obtain ⟨removed, pairs, _⟩ := sound.remove key
  refine ⟨?_, ?_⟩
  · rw [removed.get?_eq, pairs, order_remove, Order.lookup?_discard]
    rfl
  · intro other differs
    rw [removed.get?_eq, sound.get?_eq, pairs, order_remove,
      Order.lookup?_discard_apart (sound.probePair_apart differs)]

end ChangedAt

end OrderedIndex.OrderedTree

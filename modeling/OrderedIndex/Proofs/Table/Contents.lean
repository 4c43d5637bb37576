import OrderedIndex.Proofs.Table.Group
import OrderedIndex.Proofs.Table.Multimap
import OrderedIndex.Table.Basic

namespace OrderedIndex

/-!
# Tables by their contents

A table is read as a multimap, whatever it stores under its keys.  A sound table
keeps its tree, its groups and its count of tuples in agreement with that map.
-/

/-! ## Trees of stored values -/

namespace OrderedTree

variable
  {Key Stored Value : Type}
  {tree : OrderedTree Key Stored}
  {spec : TableSpec Key Value}
  (values : Stored → List Value)

/-- The multimap of a tree that stores values in some form. -/
def groupsBy (tree : OrderedTree Key Stored) : Multimap Key Value :=
  tree.toList.map fun pair => (pair.1, values pair.2)

/-- The keys of a sound tree's groups ascend as the keys of the tree do. -/
theorem ordered_groupsBy
    (sound : tree.Sound)
    (order_eq : tree.order = spec.keys) :
    spec.Ordered (tree.groupsBy values) := by
  rw [TableSpec.Ordered, groupsBy, List.map_map, ← order_eq]
  have ascending := sound.ascending
  rw [keys_eq_toList] at ascending
  exact ascending

/-- The values under a key are those that are stored under it. -/
theorem valuesOf?_groupsBy
    (sound : tree.Sound)
    (order_eq : tree.order = spec.keys)
    (key : Key) :
    spec.valuesOf? (tree.groupsBy values) key = (tree.get? key).map values := by
  rw [sound.get?_eq, TableSpec.valuesOf?, groupsBy, Order.lookup?_map, Option.map_map,
    Option.map_map, order_eq]
  rfl

/-- An insertion of a key places its values. -/
theorem groupsBy_insert
    (sound : tree.Sound)
    (order_eq : tree.order = spec.keys)
    (key : Key)
    (stored : Stored) :
    (tree.insert key stored).2.groupsBy values =
      Order.place (spec.probe key) (key, values stored) (tree.groupsBy values) := by
  rw [groupsBy, (sound.insert key stored).2.1, order_eq]
  exact Order.place_map (spec.probe key) (fun pair => (pair.1, values pair.2)) (key, stored)
    tree.toList

/-- Taking out a key takes out its values. -/
theorem groupsBy_discard
    {other : OrderedTree Key Stored}
    (order_eq : tree.order = spec.keys)
    {key : Key}
    (discarded : other.toList = Order.discard (probePair tree.order key) tree.toList) :
    other.groupsBy values = Order.discard (spec.probe key) (tree.groupsBy values) := by
  rw [groupsBy, discarded, order_eq]
  exact Order.discard_map (spec.probe key) (fun pair => (pair.1, values pair.2)) tree.toList

/-- A write under a key replaces its values. -/
theorem groupsBy_set
    (sound : tree.Sound)
    (order_eq : tree.order = spec.keys)
    (key : Key)
    (stored : Stored) :
    (tree.set key stored).2.groupsBy values =
      spec.write (tree.groupsBy values) key (values stored) := by
  rw [groupsBy, (sound.set key stored).2.1, order_eq]
  exact Order.adjust_map (spec.probe key) (fun pair => (pair.1, values pair.2))
    (fun pair => (pair.1, stored)) (fun pair => (pair.1, values stored)) (fun _ => rfl)
    tree.toList

/-- With one value under each key there are as many tuples as keys. -/
theorem size_groupsBy_single (tree : OrderedTree Key Stored) :
    TableSpec.size (tree.groupsBy fun stored => [stored]) = tree.toList.length := by
  rw [groupsBy]
  induction tree.toList with
  | nil =>
      rfl
  | cons pair rest inductionHypothesis =>
      rw [List.map_cons, TableSpec.size_cons, inductionHypothesis, List.length_cons]
      exact Nat.add_comm 1 rest.length

end OrderedTree

/-! ## Sound tables -/

variable {Key Value : Type}

namespace Entries

/-- The keys with their values. -/
def groups : Entries Key Value → Multimap Key Value
  | .unique tree => tree.groupsBy fun value => [value]
  | .duplicates tree _ => tree.groupsBy Group.toList

/-- How the values of a key are told apart. -/
def kind (valueOrder? : Option (Order Value)) : Entries Key Value → TableKind Value
  | .unique _ => .unique valueOrder?
  | .duplicates _ policy => .duplicates policy.order

/-- A sound tree of keys, and under each key of a table with duplicates a sound group. -/
def Sound (keys : Order Key) (valueOrder? : Option (Order Value)) :
    Entries Key Value → Prop
  | .unique tree => tree.order = keys ∧ tree.Sound
  | .duplicates tree policy =>
      tree.order = keys ∧
        tree.Sound ∧
          valueOrder? = some policy.order ∧
            ∀ pair ∈ tree.toList, pair.2.Sound policy.order ∧ pair.2.toList ≠ []

end Entries

namespace Table

/-- What a table is meant to be. -/
def spec (table : Table Key Value) : TableSpec Key Value :=
  ⟨table.name, table.keyOrder, table.entries.kind table.valueOrder?⟩

/-- The keys of a table with their values. -/
def groups (table : Table Key Value) : Multimap Key Value := table.entries.groups

/-- A table whose parts agree. -/
structure Sound (table : Table Key Value) : Prop where
  lawfulValues : ∀ order, table.spec.kind.order? = some order → Std.TransCmp order
  contents : table.entries.Sound table.keyOrder table.valueOrder?
  counted : table.count = TableSpec.size table.groups

/-- The table after a change, beside the map and the answer that are expected. -/
structure Became
    (before : Table Key Value)
    (expected : Except IndexError Bool × Multimap Key Value)
    (outcome : Except IndexError Bool × Table Key Value) :
    Prop where
  sound : outcome.2.Sound
  spec_eq : outcome.2.spec = before.spec
  answer_eq : outcome.1 = expected.1
  groups_eq : outcome.2.groups = expected.2

end Table

/-! ## Changes -/

/-- A change of a table. -/
inductive TableChange (Key Value : Type) where
  | put (key : Key) (value : Value)
  | remove (key : Key)
  | removeValue (key : Key) (value : Value)
  deriving Repr, DecidableEq

namespace TableChange

/-- Make a change. -/
def apply (table : Table Key Value) :
    TableChange Key Value → StoreM (Except IndexError Bool × Table Key Value)
  | .put key value => table.put key value
  | .remove key => table.remove key
  | .removeValue key value => table.removeValue key value

/-- What a change makes of a multimap, and what the multimap answers. -/
def applyToMap (spec : TableSpec Key Value) (map : Multimap Key Value) :
    TableChange Key Value → Except IndexError Bool × Multimap Key Value
  | .put key value => (.ok (spec.put map key value).1, (spec.put map key value).2)
  | .remove key => (.ok (spec.remove map key).1, (spec.remove map key).2)
  | .removeValue key value => spec.removeValue map key value

end TableChange

end OrderedIndex

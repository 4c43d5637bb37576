import OrderedIndex.Proofs.Table.Contents

namespace OrderedIndex.Table

/-!
# Tables as trees of stored values

Whatever a table stores under its keys, a change of its tree is a change of its
map and of its count.  What is asked of the stored values is a parameter: a
table whose calls have failed may keep a key that has lost all its values.
-/

variable {Key Value : Type} {table : Table Key Value}

section Keeps

variable
  {Stored : Type}
  {tree : OrderedTree Key Stored}
  {wrap : OrderedTree Key Stored → Entries Key Value}
  {values : Stored → List Value}
  {valid : Stored → Prop}
  {key : Key}

/-- The map and the count of a table agree with its tree. -/
structure Keeps
    (table : Table Key Value)
    (tree : OrderedTree Key Stored)
    (wrap : OrderedTree Key Stored → Entries Key Value)
    (values : Stored → List Value)
    (valid : Stored → Prop) :
    Prop where
  entries_eq : table.entries = wrap tree
  groups_eq : ∀ other, (wrap other).groups = other.groupsBy values
  kind_eq :
    ∀ other,
      (wrap other).kind table.valueOrder? = table.entries.kind table.valueOrder?
  order_eq : tree.order = table.spec.keys
  treeSound : tree.Sound
  allValid : ∀ pair ∈ tree.toList, valid pair.2
  counted : table.count = TableSpec.size table.groups

/-- With another tree and another count a table agrees again, and has the given map. -/
structure KeepsAs
    (table : Table Key Value)
    (other : OrderedTree Key Stored)
    (wrap : OrderedTree Key Stored → Entries Key Value)
    (values : Stored → List Value)
    (valid : Stored → Prop)
    (count : Nat)
    (map : Multimap Key Value) :
    Prop where
  keeps : (table.withEntries (wrap other) count).Keeps other wrap values valid
  groups_eq : (table.withEntries (wrap other) count).groups = map

namespace Keeps

/-- The map of a table is that of its tree. -/
theorem groups_table (keeps : table.Keeps tree wrap values valid) :
    table.groups = tree.groupsBy values := by
  rw [groups, keeps.entries_eq]
  exact keeps.groups_eq tree

theorem lawful (keeps : table.Keeps tree wrap values valid) : Std.TransCmp table.spec.keys :=
  keeps.order_eq ▸ keeps.treeSound.lawful

/-- The keys of a table's map ascend. -/
theorem ordered (keeps : table.Keeps tree wrap values valid) :
    table.spec.Ordered table.groups := by
  rw [keeps.groups_table]
  exact OrderedTree.ordered_groupsBy values keeps.treeSound keeps.order_eq

/-- The values under a key are those that the tree stores under it. -/
theorem valuesOf?_eq
    (keeps : table.Keeps tree wrap values valid)
    (key : Key) :
    table.spec.valuesOf? table.groups key = (tree.get? key).map values := by
  rw [keeps.groups_table]
  exact OrderedTree.valuesOf?_groupsBy values keeps.treeSound keeps.order_eq key

/-- The value stored under a key that is present is valid. -/
theorem valid_of_get?
    (keeps : table.Keeps tree wrap values valid)
    {found : Stored}
    (get?_eq : tree.get? key = some found) :
    valid found := by
  rw [keeps.treeSound.get?_eq] at get?_eq
  obtain ⟨pair, isPair, rfl⟩ := Option.map_eq_some_iff.mp get?_eq
  exact keeps.allValid pair (List.mem_of_find?_eq_some isPair)

/-- The tree has as many keys as the map. -/
theorem size_eq_length (keeps : table.Keeps tree wrap values valid) :
    tree.size = table.groups.length := by
  rw [keeps.groups_table, OrderedTree.groupsBy, List.length_map, keeps.treeSound.size_eq]

/-- The tree has a node for a key if the map has values under it. -/
theorem find?_isSome
    (keeps : table.Keeps tree wrap values valid)
    (key : Key) :
    (tree.find? key).isSome = (table.spec.valuesOf? table.groups key).isSome := by
  rw [keeps.valuesOf?_eq, Option.isSome_map, keeps.treeSound.get?_eq, Option.isSome_map]
  exact keeps.treeSound.find?_isSome key

/-- The tree has a node at or above a key if the map has such a key. -/
theorem findAtLeast?_isSome
    (keeps : table.Keeps tree wrap values valid)
    (key : Key) :
    (tree.findAtLeast? key).isSome =
      table.groups.any fun pair => table.spec.probe key pair != .gt := by
  rw [keeps.treeSound.findAtLeast?_isSome, keeps.groups_table, OrderedTree.groupsBy,
    List.any_map, keeps.order_eq]
  rfl

/-- The tree has a node at or below a key if the map has such a key. -/
theorem findAtMost?_isSome
    (keeps : table.Keeps tree wrap values valid)
    (key : Key) :
    (tree.findAtMost? key).isSome =
      table.groups.any fun pair => table.spec.probe key pair != .lt := by
  rw [keeps.treeSound.findAtMost?_isSome, keeps.groups_table, OrderedTree.groupsBy,
    List.any_map, keeps.order_eq]
  rfl

/-- The count covers the values of every key. -/
theorem length_le_count
    (keeps : table.Keeps tree wrap values valid)
    {old : Stored}
    (present : tree.get? key = some old) :
    (values old).length ≤ table.count := by
  have lawful := keeps.lawful
  have found : table.spec.valuesOf? table.groups key = some (values old) := by
    rw [keeps.valuesOf?_eq, present, Option.map_some]
  rw [keeps.counted, ← TableSpec.size_discard keeps.ordered found]
  exact Nat.le_add_left _ _

/-! ### Changes of the tree -/

/-- A change of the tree and the count does not change what the table is meant to be. -/
theorem spec_withEntries
    (keeps : table.Keeps tree wrap values valid)
    (other : OrderedTree Key Stored)
    (count : Nat) :
    (table.withEntries (wrap other) count).spec = table.spec := by
  simp only [spec, withEntries, keeps.kind_eq]

/-- Another tree in the same order, with a count that agrees with it. -/
theorem withEntries
    (keeps : table.Keeps tree wrap values valid)
    {other : OrderedTree Key Stored}
    {count : Nat}
    {map : Multimap Key Value}
    (order_eq : other.order = tree.order)
    (otherSound : other.Sound)
    (othersValid : ∀ pair ∈ other.toList, valid pair.2)
    (groups_eq : other.groupsBy values = map)
    (counted : count = TableSpec.size map) :
    table.KeepsAs other wrap values valid count map := by
  have groups_table : (table.withEntries (wrap other) count).groups = map :=
    (keeps.groups_eq other).trans groups_eq
  refine ⟨⟨rfl, keeps.groups_eq, ?_, order_eq.trans keeps.order_eq, otherSound, othersValid, ?_⟩,
    groups_table⟩
  · intro another
    exact (keeps.kind_eq another).trans (keeps.kind_eq other).symm
  · rw [groups_table]
    exact counted

/-- Storing values under a new key places them. -/
theorem insert
    (keeps : table.Keeps tree wrap values valid)
    (absent : tree.get? key = none)
    (added : Stored)
    (addedValid : valid added) :
    table.KeepsAs (tree.insert key added).2 wrap values valid
      (table.count + (values added).length)
      (Order.place (table.spec.probe key) (key, values added) table.groups) := by
  obtain ⟨inserted, pairs, _⟩ := keeps.treeSound.insert key added
  have lawful := keeps.lawful
  refine keeps.withEntries (OrderedTree.order_insert tree key added) inserted ?_ ?_ ?_
  · intro pair member
    rw [pairs] at member
    rcases Order.mem_place member with rfl | inTree
    · exact addedValid
    · exact keeps.allValid pair inTree
  · rw [keeps.groups_table]
    exact OrderedTree.groupsBy_insert values keeps.treeSound keeps.order_eq key added
  · have missing : table.spec.valuesOf? table.groups key = none := by
      rw [keeps.valuesOf?_eq, absent, Option.map_none]
    rw [keeps.counted, TableSpec.size_place keeps.ordered missing]

/-- Storing other values under a key that is present replaces its values. -/
theorem set
    (keeps : table.Keeps tree wrap values valid)
    {old : Stored}
    (present : tree.get? key = some old)
    (new : Stored)
    (newValid : valid new)
    {count : Nat}
    (counted : count + (values old).length = table.count + (values new).length) :
    table.KeepsAs (tree.set key new).2 wrap values valid count
      (table.spec.write table.groups key (values new)) := by
  obtain ⟨written, pairs, _⟩ := keeps.treeSound.set key new
  have lawful := keeps.lawful
  refine keeps.withEntries (OrderedTree.order_set tree key new) written ?_ ?_ ?_
  · intro pair member
    rw [pairs] at member
    rcases Order.mem_adjust member with ⟨_, _, rfl⟩ | inTree
    · exact newValid
    · exact keeps.allValid pair inTree
  · rw [keeps.groups_table]
    exact OrderedTree.groupsBy_set values keeps.treeSound keeps.order_eq key new
  · have found : table.spec.valuesOf? table.groups key = some (values old) := by
      rw [keeps.valuesOf?_eq, present, Option.map_some]
    have sizes := TableSpec.size_write keeps.ordered found (values new)
    rw [← keeps.counted, ← counted] at sizes
    exact (Nat.add_right_cancel sizes).symm

/-- A tree without a key discards its values. -/
theorem discard
    (keeps : table.Keeps tree wrap values valid)
    {old : Stored}
    (present : tree.get? key = some old)
    {other : OrderedTree Key Stored}
    (otherSound : other.Sound)
    (otherOrder : other.order = tree.order)
    (discarded : other.toList = Order.discard (probePair tree.order key) tree.toList) :
    table.KeepsAs other wrap values valid (table.count - (values old).length)
      (Order.discard (table.spec.probe key) table.groups) := by
  have lawful := keeps.lawful
  refine keeps.withEntries otherOrder otherSound ?_ ?_ ?_
  · intro pair member
    rw [discarded] at member
    exact keeps.allValid pair (Order.mem_discard member)
  · rw [keeps.groups_table]
    exact OrderedTree.groupsBy_discard values keeps.order_eq discarded
  · have found : table.spec.valuesOf? table.groups key = some (values old) := by
      rw [keeps.valuesOf?_eq, present, Option.map_some]
    rw [keeps.counted, ← TableSpec.size_discard keeps.ordered found, Nat.add_sub_cancel]

/-- Taking a key out discards its values. -/
theorem remove
    (keeps : table.Keeps tree wrap values valid)
    {old : Stored}
    (present : tree.get? key = some old) :
    table.KeepsAs (tree.remove key).2 wrap values valid (table.count - (values old).length)
      (Order.discard (table.spec.probe key) table.groups) := by
  obtain ⟨removed, discarded, _⟩ := keeps.treeSound.remove key
  exact keeps.discard present removed (tree.order_remove key) discarded

/-- Taking a key out after its values were replaced discards the values it had. -/
theorem set_remove
    (keeps : table.Keeps tree wrap values valid)
    {old : Stored}
    (present : tree.get? key = some old)
    (new : Stored) :
    table.KeepsAs ((tree.set key new).2.remove key).2 wrap values valid
      (table.count - (values old).length)
      (Order.discard (table.spec.probe key) table.groups) := by
  obtain ⟨written, pairs, _⟩ := keeps.treeSound.set key new
  obtain ⟨removed, remaining, _⟩ := written.remove key
  refine keeps.discard present removed (by simp) ?_
  rw [remaining, pairs, OrderedTree.order_set]
  refine Order.discard_adjust ?_ tree.toList
  intro pair
  rfl

end Keeps

end Keeps

/-! ## Sound tables -/

section Stored

variable
  {Stored : Type}
  {tree : OrderedTree Key Stored}
  {wrap : OrderedTree Key Stored → Entries Key Value}
  {values : Stored → List Value}
  {valid : Stored → Prop}
  {key : Key}

/-- A sound table, and how it stores the values of its keys in a tree. -/
structure StoredAs
    (table : Table Key Value)
    (tree : OrderedTree Key Stored)
    (wrap : OrderedTree Key Stored → Entries Key Value)
    (values : Stored → List Value)
    (valid : Stored → Prop) :
    Prop extends Keeps table tree wrap values valid where
  sound : table.Sound
  contents_of :
    ∀ other : OrderedTree Key Stored,
      other.order = table.keyOrder →
      other.Sound →
      (∀ pair ∈ other.toList, valid pair.2) →
      (wrap other).Sound table.keyOrder table.valueOrder?

/-- A change that keeps what a sound table stores keeps it sound. -/
theorem StoredAs.became
    (stored : StoredAs table tree wrap values valid)
    {other : OrderedTree Key Stored}
    {count : Nat}
    {map : Multimap Key Value}
    (changed : table.KeepsAs other wrap values valid count map)
    (answer : Except IndexError Bool) :
    Became table (answer, map) (answer, table.withEntries (wrap other) count) where
  sound := by
    have keeps := changed.keeps
    refine ⟨?_, stored.contents_of other keeps.order_eq keeps.treeSound keeps.allValid,
      keeps.counted⟩
    rw [stored.spec_withEntries]
    exact stored.sound.lawfulValues
  spec_eq := stored.spec_withEntries other count
  answer_eq := rfl
  groups_eq := changed.groups_eq

end Stored

/-! ## Both kinds of tables -/

/-- A sound table without duplicates stores one value under each key. -/
theorem storedAs_unique
    {tree : OrderedTree Key Value}
    (sound : table.Sound)
    (entries : table.entries = .unique tree) :
    StoredAs table tree Entries.unique (fun value => [value]) fun _ => True := by
  have contents := sound.contents
  rw [entries] at contents
  obtain ⟨order_eq, treeSound⟩ := contents
  exact {
    entries_eq := entries
    groups_eq := fun _ => rfl
    kind_eq := fun _ => by
      rw [entries]
      rfl
    order_eq := order_eq
    treeSound := treeSound
    allValid := fun _ _ => trivial
    counted := sound.counted
    sound := sound
    contents_of := fun _ otherOrder otherSound _ => ⟨otherOrder, otherSound⟩
  }

/-- A sound table with duplicates stores a sound group with values under each key. -/
theorem storedAs_duplicates
    {tree : OrderedTree Key (Group Value)}
    {policy : DuplicatePolicy Value}
    (sound : table.Sound)
    (entries : table.entries = .duplicates tree policy) :
    StoredAs table tree (Entries.duplicates · policy) Group.toList
      fun group => group.Sound policy.order ∧ group.toList ≠ [] := by
  have contents := sound.contents
  rw [entries] at contents
  obtain ⟨order_eq, treeSound, hasOrder, allValid⟩ := contents
  exact {
    entries_eq := entries
    groups_eq := fun _ => rfl
    kind_eq := fun _ => by
      rw [entries]
      rfl
    order_eq := order_eq
    treeSound := treeSound
    allValid := allValid
    counted := sound.counted
    sound := sound
    contents_of := fun _ otherOrder otherSound othersValid =>
      ⟨otherOrder, otherSound, hasOrder, othersValid⟩
  }

theorem Sound.lawfulKeys (sound : table.Sound) : Std.TransCmp table.spec.keys := by
  cases entries : table.entries with
  | unique tree =>
      exact (storedAs_unique sound entries).lawful
  | duplicates tree policy =>
      exact (storedAs_duplicates sound entries).lawful

/-- The keys of a sound table's map ascend. -/
theorem Sound.ordered (sound : table.Sound) : table.spec.Ordered table.groups := by
  cases entries : table.entries with
  | unique tree =>
      exact (storedAs_unique sound entries).ordered
  | duplicates tree policy =>
      exact (storedAs_duplicates sound entries).ordered

end OrderedIndex.Table

import OrderedIndex.Proofs.Table.Duplicates

namespace OrderedIndex

/-!
# Changes of a table

Over stores that do not fail, every change of a sound table is the change of its
map, also when it moves a group between a tree and a store.
-/

variable {Key Value : Type} {table : Table Key Value}

namespace Table

/-- A change that does nothing. -/
theorem Sound.unchanged
    (sound : table.Sound)
    (answer : Except IndexError Bool) :
    Became table (answer, table.groups) (answer, table) :=
  ⟨sound, rfl, rfl, rfl⟩

theorem withEntries_self
    {entries : Entries Key Value}
    (entries_eq : table.entries = entries) :
    table.withEntries entries table.count = table := by
  rw [withEntries, ← entries_eq]

/-! ## Tables without duplicates -/

section Unique

variable {tree : OrderedTree Key Value}

theorem kind_unique (entries : table.entries = .unique tree) :
    table.spec.kind = .unique table.valueOrder? := by
  rw [spec, entries]
  rfl

theorem ensures_put_unique
    (sound : table.Sound)
    (entries : table.entries = .unique tree)
    (key : Key)
    (value : Value) :
    Ensures .reliable (table.put key value)
      (Became table
        (.ok (table.spec.put table.groups key value).1,
          (table.spec.put table.groups key value).2)) := by
  have stored := storedAs_unique sound entries
  have treeSound := stored.treeSound
  have valuesOf := stored.valuesOf?_eq key
  unfold put
  rw [entries]
  dsimp only
  cases treeSound.sought key with
  | present id old found holds get?_eq setValue_eq =>
      rw [get?_eq, Option.map_some] at valuesOf
      rw [TableSpec.put_unique (kind_unique entries) valuesOf, found]
      dsimp only
      rw [setValue_eq]
      exact Ensures.pure (stored.became (stored.set get?_eq value trivial rfl) (.ok false))
  | absent missing get?_eq isNew =>
      rw [get?_eq, Option.map_none] at valuesOf
      rw [TableSpec.put_absent valuesOf, missing]
      dsimp only
      rw [isNew]
      exact Ensures.pure (stored.became (stored.insert get?_eq value trivial) (.ok true))

theorem ensures_remove_unique
    (sound : table.Sound)
    (entries : table.entries = .unique tree)
    (key : Key) :
    Ensures .reliable (table.remove key)
      (Became table
        (.ok (table.spec.remove table.groups key).1,
          (table.spec.remove table.groups key).2)) := by
  have stored := storedAs_unique sound entries
  have treeSound := stored.treeSound
  have valuesOf := stored.valuesOf?_eq key
  unfold remove
  rw [entries]
  dsimp only
  cases treeSound.sought key with
  | present id old found holds get?_eq setValue_eq removed =>
      rw [get?_eq, Option.map_some] at valuesOf
      rw [TableSpec.remove, valuesOf, removed]
      exact Ensures.pure (stored.became (stored.remove get?_eq) (.ok true))
  | absent missing get?_eq isNew untouched =>
      rw [get?_eq, Option.map_none] at valuesOf
      have lawful := sound.lawfulKeys
      rw [TableSpec.remove, valuesOf, TableSpec.discard_absent sound.ordered valuesOf, untouched]
      refine Ensures.pure ?_
      have same := withEntries_self entries
      simp only [Option.isSome_none, Bool.toNat_false, Nat.sub_zero, same]
      exact sound.unchanged (.ok false)

theorem ensures_removeValue_unique
    (sound : table.Sound)
    (entries : table.entries = .unique tree)
    (key : Key)
    (value : Value) :
    Ensures .reliable (table.removeValue key value)
      (Became table (table.spec.removeValue table.groups key value)) := by
  have stored := storedAs_unique sound entries
  have treeSound := stored.treeSound
  have valuesOf := stored.valuesOf?_eq key
  unfold removeValue
  rw [entries]
  dsimp only
  cases ordered : table.valueOrder? with
  | none =>
      have unordered : table.spec.kind.order? = none := by
        rw [kind_unique entries, ordered]
        rfl
      rw [TableSpec.removeValue_unordered unordered, requireValueOrder, ordered]
      exact Ensures.pure (sound.unchanged _)
  | some order =>
      have order?_eq : table.spec.kind.order? = some order := by
        rw [kind_unique entries, ordered]
        rfl
      have lawful : Std.TransCmp order := sound.lawfulValues order order?_eq
      rw [requireValueOrder, ordered]
      dsimp only
      cases treeSound.sought key with
      | present id old found holds get?_eq setValue_eq removed =>
          rw [get?_eq, Option.map_some] at valuesOf
          rw [get?_eq, Option.any_some]
          by_cases equal : order value old = .eq
          · have matched : Order.lookup? (order value) [old] = some old := by
              simp [Order.lookup?, equal]
            have nothingLeft : Order.discard (order value) [old] = [] := by
              simp [Order.discard, equal]
            have matching : order old value = .eq := Std.OrientedCmp.eq_symm equal
            rw [TableSpec.removeValue_matched order?_eq valuesOf matched,
              if_pos nothingLeft, if_pos (by simp [matching])]
            exact Ensures.pure (stored.became (stored.remove get?_eq) (.ok true))
          · have unmatched : Order.lookup? (order value) [old] = none := by
              simp [Order.lookup?, equal]
            have differing : order old value ≠ .eq := mt Std.OrientedCmp.eq_symm equal
            rw [TableSpec.removeValue_unmatched order?_eq valuesOf unmatched,
              if_neg (by simp [differing])]
            exact Ensures.pure (sound.unchanged _)
      | absent missing get?_eq isNew untouched =>
          rw [get?_eq, Option.map_none] at valuesOf
          rw [TableSpec.removeValue_absent order?_eq valuesOf, get?_eq]
          exact Ensures.pure (sound.unchanged _)

end Unique

/-! ## Tables with duplicates -/

section Duplicates

variable {tree : OrderedTree Key (Group Value)} {policy : DuplicatePolicy Value}

theorem Sound.lawfulPolicy
    (sound : table.Sound)
    (entries : table.entries = .duplicates tree policy) :
    table.spec.kind = .duplicates policy.order ∧ Std.TransCmp policy.order := by
  have kind_eq : table.spec.kind = .duplicates policy.order := by
    rw [spec, entries]
    rfl
  refine ⟨kind_eq, sound.lawfulValues policy.order ?_⟩
  rw [kind_eq]
  rfl

/-- A sound table is intact. -/
theorem Sound.intact
    (sound : table.Sound)
    (entries : table.entries = .duplicates tree policy) :
    table.Intact tree policy := by
  have stored := storedAs_duplicates sound entries
  have contents := sound.contents
  rw [entries] at contents
  obtain ⟨_, _, valueOrder_eq, _⟩ := contents
  refine ⟨{ stored.toKeeps with allValid := ?_ }, (sound.lawfulPolicy entries).2, valueOrder_eq⟩
  intro pair member
  exact (stored.allValid pair member).1

/-- No key of a sound table with duplicates is without values. -/
theorem Sound.populated
    (sound : table.Sound)
    (entries : table.entries = .duplicates tree policy) :
    TableSpec.Populated table.groups := by
  have stored := storedAs_duplicates sound entries
  rw [stored.groups_table]
  refine List.forall_mem_map.mpr ?_
  intro pair member
  exact (stored.allValid pair member).2

/-- A table that is intact and keeps no key without values is sound. -/
theorem Intact.sound
    (intact : table.Intact tree policy)
    (populated : TableSpec.Populated table.groups) :
    table.Sound := by
  refine ⟨?_, ?_, intact.counted⟩
  · intro order isOrder
    rw [intact.spec_kind] at isOrder
    cases isOrder
    exact intact.lawfulValues
  · rw [intact.entries_eq]
    refine ⟨intact.order_eq, intact.treeSound, intact.valueOrder_eq, ?_⟩
    intro pair member
    refine ⟨intact.allValid pair member, populated (pair.1, pair.2.toList) ?_⟩
    rw [intact.groups_table]
    exact List.mem_map_of_mem member

end Duplicates

/-! ## Every table -/

end Table

/-- No change of a map with duplicates leaves a key without values. -/
theorem TableChange.populated_applyToMap
    {spec : TableSpec Key Value}
    {map : Multimap Key Value}
    {order : Order Value}
    (kind_eq : spec.kind = .duplicates order)
    (populated : TableSpec.Populated map)
    (change : TableChange Key Value) :
    TableSpec.Populated (change.applyToMap spec map).2 := by
  cases change with
  | put key value =>
      exact populated.put kind_eq key value
  | remove key =>
      exact populated.discard (spec.probe key)
  | removeValue key value =>
      exact populated.removeValue key value

/-- One change of a sound table is the change of its map. -/
theorem TableChange.ensures_apply
    (sound : table.Sound)
    (change : TableChange Key Value) :
    Ensures .reliable (change.apply table)
      (table.Became (change.applyToMap table.spec table.groups)) := by
  cases entries : table.entries with
  | unique tree =>
      cases change with
      | put key value =>
          exact Table.ensures_put_unique sound entries key value
      | remove key =>
          exact Table.ensures_remove_unique sound entries key
      | removeValue key value =>
          exact Table.ensures_removeValue_unique sound entries key value
  | duplicates tree policy =>
      have intact := sound.intact entries
      refine (intact.performs_apply change).ensures ?_
      rintro outcome events ⟨⟨⟨other, intactAfter⟩, spec_eq⟩, ends⟩
      cases ends with
      | made answer_eq groups_eq =>
          have populated :=
            change.populated_applyToMap intact.spec_kind (sound.populated entries)
          rw [← groups_eq] at populated
          exact ⟨intactAfter.sound populated, spec_eq, answer_eq, groups_eq⟩
      | refused mayFail => exact mayFail.elim
      | uncounted mayFail => exact mayFail.elim
      | unreleased mayFail => exact mayFail.elim

end OrderedIndex

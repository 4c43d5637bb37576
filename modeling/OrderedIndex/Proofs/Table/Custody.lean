import OrderedIndex.Proofs.Table.Failures
import OrderedIndex.Proofs.Table.GroupCustody

namespace OrderedIndex

/-!
# Custody of the stores of tables

A table has custody of the stores of its groups.  Every change leaves open the
stores of the groups that there are after it, whatever calls fail.
-/

variable {Key Value : Type}

/-- The stores of the groups of a tree, in key order. -/
def OrderedTree.storeIds (tree : OrderedTree Key (Group Value)) : List StoreId :=
  tree.values.flatMap Group.storeIds

theorem OrderedTree.storeIds_subset
    {tree : OrderedTree Key (Group Value)}
    {group : Group Value}
    (member : group ∈ tree.values) :
    group.storeIds ⊆ tree.storeIds :=
  fun _ isOpen => List.mem_flatMap.mpr ⟨group, member, isOpen⟩

namespace Table

/-- The stores of the groups of a table, in key order. -/
def storeIds (table : Table Key Value) : List StoreId :=
  match table.entries with
  | .unique _ => []
  | .duplicates tree _ => tree.storeIds

variable
  {table : Table Key Value}
  {tree : OrderedTree Key (Group Value)}
  {policy : DuplicatePolicy Value}
  {key : Key}
  {group : Group Value}

/-- The stores of a table, one group after those of the others. -/
theorem flatMap_storeIds_perm (below above : List (Group Value)) (group : Group Value) :
    ((below ++ group :: above).flatMap Group.storeIds).Perm
      (group.storeIds ++ (below ++ above).flatMap Group.storeIds) := by
  simp only [List.flatMap_append, List.flatMap_cons]
  exact List.perm_append_comm_assoc _ _ _

/-- What is open after a change: the stores of the table that there is then. -/
abbrev Kept (outcome : Except IndexError Bool × Table Key Value) (after : List StoreId) : Prop :=
  after.Perm outcome.2.storeIds

namespace Intact

theorem storeIds_eq (intact : table.Intact tree policy) : table.storeIds = tree.storeIds := by
  rw [storeIds, intact.entries_eq]

theorem kept
    (intact : table.Intact tree policy)
    (answer : Except IndexError Bool) :
    Kept (answer, table) tree.storeIds := by
  rw [Kept, intact.storeIds_eq]

theorem manages_put
    (intact : table.Intact tree policy)
    (key : Key)
    (value : Value) :
    Manages table.storeIds (table.put key value) Kept := by
  have treeSound := intact.treeSound
  rw [intact.storeIds_eq]
  unfold put
  rw [intact.entries_eq]
  dsimp only
  cases treeSound.sought key with
  | present id old found holds get?_eq setValue_eq =>
      obtain ⟨below, above, values_eq, _, changed⟩ := treeSound.values_present get?_eq
      rw [OrderedTree.storeIds, values_eq, found]
      dsimp only
      rw [holds]
      refine ((Group.manages_insert policy old value).bind ?_).reorder
        (flatMap_storeIds_perm below above old)
      rintro ⟨answer, result⟩ _ rfl
      have stored :
          (Group.storeIds result ++ (below ++ above).flatMap Group.storeIds).Perm
            (tree.setValue id result).storeIds := by
        rw [setValue_eq, OrderedTree.storeIds, (changed result).1]
        exact (flatMap_storeIds_perm below above result).symm
      rcases answer with cause | added
      · exact Manages.pure stored
      · exact Manages.pure stored
  | absent missing get?_eq isNew =>
      rw [missing]
      dsimp only
      have lawfulValues := intact.lawfulValues
      have emptySound := Group.sound_empty policy.order
      refine Manages.bind
        ((Group.manages_insert policy (.empty policy.order) value).and_ensures
          (Group.ensures_insert emptySound value)) ?_
      rintro ⟨cause | added, result⟩ _ ⟨became, rfl⟩
      · -- The group that was to be added has stayed empty.
        obtain ⟨_, rfl⟩ := became
        exact Manages.pure (intact.kept _)
      · obtain ⟨below, above, values_eq, inserted⟩ := treeSound.values_absent get?_eq result
        refine Manages.pure ?_
        show (Group.storeIds result ++ tree.storeIds).Perm (tree.insert key result).2.storeIds
        rw [OrderedTree.storeIds, OrderedTree.storeIds, values_eq, inserted]
        exact (flatMap_storeIds_perm below above result).symm

theorem manages_remove
    (intact : table.Intact tree policy)
    (key : Key) :
    Manages table.storeIds (table.remove key) Kept := by
  have treeSound := intact.treeSound
  rw [intact.storeIds_eq]
  unfold remove
  rw [intact.entries_eq]
  dsimp only
  cases treeSound.sought key with
  | present id old found holds get?_eq =>
      obtain ⟨below, above, values_eq, removed, _⟩ := treeSound.values_present get?_eq
      have isOpen : old.storeIds ⊆ tree.storeIds :=
        OrderedTree.storeIds_subset (treeSound.mem_values_of_value? holds)
      rw [get?_eq]
      refine Borrows.bind (Group.borrows_size isOpen) ?_
      rintro (cause | size) _
      · exact Manages.pure (intact.kept _)
      · have parts : tree.storeIds.Perm
            (old.storeIds ++ (below ++ above).flatMap Group.storeIds) := by
          rw [OrderedTree.storeIds, values_eq]
          exact flatMap_storeIds_perm below above old
        have remaining :
            ((below ++ above).flatMap Group.storeIds).Perm (tree.remove key).2.storeIds := by
          rw [OrderedTree.storeIds, removed]
        refine ((Group.manages_close old).bind ?_).reorder parts
        rintro (cause | ⟨⟩) _ rfl
        · exact Manages.pure remaining
        · exact Manages.pure remaining
  | absent missing get?_eq =>
      rw [get?_eq]
      exact Manages.pure (intact.kept _)

/-- Dropping a key closes the store of its group. -/
theorem manages_dropIfEmpty
    (intact : table.Intact tree policy)
    {old : Group Value}
    (present : tree.get? key = some old)
    (result : Group Value) :
    Manages (tree.set key result).2.storeIds
      ((table.withEntries (.duplicates (tree.set key result).2 policy)
          (table.count - 1)).dropIfEmpty (tree.set key result).2 policy key result)
      Kept := by
  obtain ⟨below, above, _, _, changed⟩ := intact.treeSound.values_present present
  obtain ⟨written, removed⟩ := changed result
  have isOpen : result.storeIds ⊆ (tree.set key result).2.storeIds :=
    OrderedTree.storeIds_subset (by rw [written]; simp)
  have parts :
      (tree.set key result).2.storeIds.Perm
        (result.storeIds ++ (below ++ above).flatMap Group.storeIds) := by
    rw [OrderedTree.storeIds, written]
    exact flatMap_storeIds_perm below above result
  have remaining :
      ((below ++ above).flatMap Group.storeIds).Perm
        ((tree.set key result).2.remove key).2.storeIds := by
    rw [OrderedTree.storeIds, removed]
  unfold dropIfEmpty
  refine Borrows.bind (Group.borrows_size isOpen) ?_
  rintro (cause | size) _
  · exact Manages.pure (List.Perm.refl _)
  · dsimp only
    split
    · refine ((Group.manages_close result).bind ?_).reorder parts
      rintro (cause | ⟨⟩) _ rfl
      · exact Manages.pure remaining
      · exact Manages.pure remaining
    · exact Manages.pure (List.Perm.refl _)

theorem manages_removeValue
    (intact : table.Intact tree policy)
    (key : Key)
    (value : Value) :
    Manages table.storeIds (table.removeValue key value) Kept := by
  have treeSound := intact.treeSound
  rw [intact.storeIds_eq]
  unfold removeValue
  rw [intact.entries_eq]
  dsimp only
  cases treeSound.sought key with
  | present id old found holds get?_eq setValue_eq =>
      obtain ⟨below, above, values_eq, _, changed⟩ := treeSound.values_present get?_eq
      rw [OrderedTree.storeIds, values_eq, found]
      dsimp only
      rw [holds]
      refine ((Group.manages_remove policy old value).bind ?_).reorder
        (flatMap_storeIds_perm below above old)
      rintro ⟨answer, result⟩ _ rfl
      have stored :
          (Group.storeIds result ++ (below ++ above).flatMap Group.storeIds).Perm
            (tree.set key result).2.storeIds := by
        rw [OrderedTree.storeIds, (changed result).1]
        exact (flatMap_storeIds_perm below above result).symm
      dsimp only
      rw [setValue_eq]
      rcases answer with cause | removed
      · exact Manages.pure stored
      · cases removed with
        | false =>
            exact Manages.pure stored
        | true =>
            exact (intact.manages_dropIfEmpty get?_eq result).reorder stored
  | absent missing get?_eq =>
      rw [missing]
      exact Manages.pure (intact.kept _)

/-- Whatever calls of a change fail, the stores of the groups are left open and no others. -/
theorem manages_apply
    (intact : table.Intact tree policy)
    (change : TableChange Key Value) :
    Manages table.storeIds (change.apply table) Kept := by
  cases change with
  | put key value =>
      exact intact.manages_put key value
  | remove key =>
      exact intact.manages_remove key
  | removeValue key value =>
      exact intact.manages_removeValue key value

end Intact

end Table

end OrderedIndex

import OrderedIndex.Proofs.Table.Failures

namespace OrderedIndex.Table

/-!
# Counts of held values

A table adjusts its count in several places, before and after calls that may
fail.  Whatever has failed, the count is the number of values that the groups
hold in their trees and stores, and what is subtracted from it was counted
before.
-/

variable {Key Value : Type} {table : Table Key Value}

/-- Number of values that the groups of a tree hold. -/
def heldValues (tree : OrderedTree Key (Group Value)) : Nat :=
  tree.values.foldr (fun group count => group.toList.length + count) 0

theorem size_groupsBy_eq_heldValues (tree : OrderedTree Key (Group Value)) :
    TableSpec.size (tree.groupsBy Group.toList) = heldValues tree := by
  rw [OrderedTree.groupsBy, heldValues, OrderedTree.toList, OrderedTree.values, List.map_map]
  induction tree.entries with
  | nil =>
      rfl
  | cons entry rest inductionHypothesis =>
      rw [List.map_cons, TableSpec.size_cons, inductionHypothesis, List.map_cons, List.foldr_cons]
      rfl

section Intact

variable
  {tree : OrderedTree Key (Group Value)}
  {policy : DuplicatePolicy Value}
  {key : Key}
  {group : Group Value}

theorem Intact.count_eq_held (intact : table.Intact tree policy) :
    table.count = heldValues tree := by
  rw [intact.counted, intact.groups_table, size_groupsBy_eq_heldValues]

/-- A size that is told of a group has been counted. -/
theorem Intact.size_le_count
    (intact : table.Intact tree policy)
    (present : tree.get? key = some group)
    {backend : Backend}
    {size : Nat}
    (told : (group.size backend).1 = .ok size) :
    size ≤ table.count := by
  have expected :=
    (Group.ensures_size (intact.valid_of_get? present) backend
      (by trivial : Regime.arbitrary.admits _)).1
  rw [told] at expected
  rw [show size = group.toList.length from expected]
  exact intact.length_le_count present

/-- A value that is removed from a group has been counted. -/
theorem Intact.one_le_count
    (intact : table.Intact tree policy)
    (present : tree.get? key = some group)
    {backend : Backend}
    {value : Value}
    (removed : (group.remove policy value backend).1.1 = .ok true) :
    1 ≤ table.count := by
  have lawful := intact.lawfulValues
  have expected :=
    (Group.ensures_remove (intact.valid_of_get? present) value backend
      (by trivial : Regime.arbitrary.admits _)).1
  generalize group.remove policy value backend = outcome at removed expected
  obtain ⟨⟨answer, after⟩, later⟩ := outcome
  cases removed
  have isSome : (Order.lookup? (policy.order value) group.toList).isSome := expected.1.symm
  obtain ⟨stored, found⟩ := Option.isSome_iff_exists.mp isSome
  have member : stored ∈ group.toList := List.mem_of_find?_eq_some found
  exact Nat.le_trans (List.length_pos_of_mem member) (intact.length_le_count present)

end Intact

/--
Whatever calls have failed, the count of a table is the number of values that
its groups hold.  A size that is told of a group and a value that is taken out
of one can be subtracted from it.
-/
theorem ReachableWithFailures.count_eq_heldValues (reachable : table.ReachableWithFailures) :
    ∃ tree policy,
      table.entries = .duplicates tree policy ∧
        table.count = heldValues tree ∧
          ∀ key group,
            tree.get? key = some group →
            ∀ backend,
              (∀ size, (group.size backend).1 = .ok size → size ≤ table.count) ∧
                ∀ value, (group.remove policy value backend).1.1 = .ok true → 1 ≤ table.count := by
  obtain ⟨tree, policy, intact⟩ := reachable.intact
  refine ⟨tree, policy, intact.entries_eq, intact.count_eq_held, ?_⟩
  intro key group present backend
  refine ⟨?_, ?_⟩
  · intro size told
    exact intact.size_le_count present told
  · intro value removed
    exact intact.one_le_count present removed

/-- A removal that cannot count what it has left has lowered the count all the same. -/
theorem ReachableWithFailures.count_eq_heldValues_uncounted :
    ∃ before after : Table Nat Nat,
      before.ReachableWithFailures ∧
        before.count = 2 ∧
          ((TableChange.removeValue 1 20).apply before (TableChange.timingOut .size 1)).1 =
              (.error (.ofStore (.io .timedOut)), after) ∧
            after.count = 1 ∧
              ∃ tree policy,
                after.entries = .duplicates tree policy ∧ after.count = heldValues tree := by
  have reachable := TableChange.reachable_changedTable [.put 1 10, .put 1 20]
  have failed := reachable.changed (TableChange.timingOut .size 1) (.removeValue 1 20)
  obtain ⟨tree, policy, entries_eq, count_eq, _⟩ := count_eq_heldValues failed
  exact ⟨_, _, reachable, rfl, rfl, rfl, tree, policy, entries_eq, count_eq⟩

end OrderedIndex.Table

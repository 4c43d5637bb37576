import OrderedIndex.Proofs.Table.Refinement

namespace OrderedIndex

/-!
# Failing changes

A change of a table with duplicates that answers with an error has changed
nothing that can be seen, or it has failed late: then its tuples are those after
the whole change.  Which of the two it is, the last calls tell.
-/

variable {Key Value : Type}

/-! ## Reachable tables -/

/-- Tables with duplicates that are opened and changed over stores that may fail at any call. -/
inductive Table.ReachableWithFailures : Table Key Value → Prop where
  | opened
      {config : TableConfig}
      {keyOrder : Order Key}
      {valueOrder? : Option (Order Value)}
      {backend : Backend}
      {table : Table Key Value}
      (duplicates : config.duplicates = true)
      (lawfulKeys : Std.TransCmp keyOrder)
      (lawfulValues : ∀ order ∈ valueOrder?, Std.TransCmp order)
      (new_eq : (Table.new config keyOrder valueOrder? backend).1 = .ok table) :
      ReachableWithFailures table
  | changed
      {table : Table Key Value}
      (reachable : ReachableWithFailures table)
      (backend : Backend)
      (change : TableChange Key Value) :
      ReachableWithFailures (change.apply table backend).1.2

namespace Table

variable {table : Table Key Value}

theorem Intact.ends
    {tree : OrderedTree Key (Group Value)}
    {policy : DuplicatePolicy Value}
    (intact : table.Intact tree policy)
    (change : TableChange Key Value)
    (backend : Backend) :
    StaysIntact policy table (change.apply table backend).1.2 ∧
      change.Ends .arbitrary policy table (change.apply table backend).1
        (backend.eventsOf (change.apply table)) :=
  (intact.performs_apply change).post_eventsOf (by trivial : Regime.arbitrary.admits _)

/-- Whatever fails, the parts of a table agree. -/
theorem ReachableWithFailures.intact (reachable : table.ReachableWithFailures) :
    ∃ tree policy, table.Intact tree policy := by
  induction reachable with
  | @opened config keyOrder valueOrder? backend table duplicates _ lawfulValues new_eq =>
      obtain ⟨sound, spec_eq, _⟩ := new_sound lawfulValues new_eq
      obtain ⟨entries, initial, rfl⟩ := new_eq_ok new_eq
      unfold initialEntries at initial
      rw [if_pos duplicates] at initial
      cases valueOrder? with
      | none =>
          contradiction
      | some order =>
          cases initial
          exact ⟨_, _, sound.intact rfl⟩
  | changed _ backend change tableIntact =>
      obtain ⟨tree, policy, intact⟩ := tableIntact
      obtain ⟨⟨⟨other, otherIntact⟩, _⟩, _⟩ := intact.ends change backend
      exact ⟨other, policy, otherIntact⟩

/-- A run of changes, each over the backend that the one before has left. -/
theorem ReachableWithFailures.run
    (reachable : table.ReachableWithFailures)
    (backend : Backend)
    (changes : List (TableChange Key Value)) :
    (TableChange.run table changes backend).1.2.ReachableWithFailures := by
  induction changes generalizing table backend with
  | nil =>
      exact reachable
  | cons change rest inductionHypothesis =>
      exact inductionHypothesis (reachable.changed backend change) _

/-! ## What can be seen of a table -/

/-- Two tables that show the same tuples, the same counts and the same keys. -/
structure LooksLike (table other : Table Key Value) : Prop where
  toList_eq : table.toList = other.toList
  count_eq : table.count = other.count
  keyCount_eq : table.keyCount = other.keyCount
  has_eq : ∀ key, table.has key = other.has key

namespace Intact

variable {tree : OrderedTree Key (Group Value)} {policy : DuplicatePolicy Value}

theorem keyCount_eq (intact : table.Intact tree policy) :
    table.keyCount = table.groups.length := by
  rw [keyCount, intact.entries_eq]
  exact intact.size_eq_length

theorem has_eq
    (intact : table.Intact tree policy)
    (key : Key) :
    table.has key = (table.spec.valuesOf? table.groups key).isSome := by
  rw [has, intact.entries_eq]
  exact intact.find?_isSome key

theorem count_eq_length (intact : table.Intact tree policy) :
    table.count = table.toList.length := by
  rw [intact.counted, toList_eq_tuples, TableSpec.length_tuples]

/-- Tables with the same map look the same, in whatever form their values are stored. -/
theorem looksLike
    (intact : table.Intact tree policy)
    {other : Table Key Value}
    {otherTree : OrderedTree Key (Group Value)}
    (otherIntact : other.Intact otherTree policy)
    (spec_eq : other.spec = table.spec)
    (groups_eq : other.groups = table.groups) :
    other.LooksLike table where
  toList_eq := by rw [toList_eq_tuples, toList_eq_tuples, groups_eq]
  count_eq := by rw [otherIntact.counted, intact.counted, groups_eq]
  keyCount_eq := by rw [otherIntact.keyCount_eq, intact.keyCount_eq, groups_eq]
  has_eq key := by rw [otherIntact.has_eq, intact.has_eq, groups_eq, spec_eq]

end Intact

end Table

/-! ## Errors -/

namespace TableChange

variable {table : Table Key Value}

/-- A map with duplicates refuses no change. -/
theorem applyToMap_isOk
    {spec : TableSpec Key Value}
    {order : Order Value}
    (kind_eq : spec.kind = .duplicates order)
    (map : Multimap Key Value)
    (change : TableChange Key Value) :
    ∃ answer, (change.applyToMap spec map).1 = .ok answer := by
  cases change with
  | put key value =>
      exact ⟨_, rfl⟩
  | remove key =>
      exact ⟨_, rfl⟩
  | removeValue key value =>
      have order?_eq : spec.kind.order? = some order := by
        rw [kind_eq]
        rfl
      cases valuesOf : spec.valuesOf? map key with
      | none =>
          rw [applyToMap, TableSpec.removeValue_absent order?_eq valuesOf]
          exact ⟨_, rfl⟩
      | some values =>
          cases matched : Order.lookup? (order value) values with
          | none =>
              rw [applyToMap, TableSpec.removeValue_unmatched order?_eq valuesOf matched]
              exact ⟨_, rfl⟩
          | some stored =>
              rw [applyToMap, TableSpec.removeValue_matched order?_eq valuesOf matched]
              exact ⟨_, rfl⟩

/--
What is seen of a table after a change that was made although it has failed: the
tuples are those after the change, and the keys either are too or have all stayed.
-/
structure MadeLate (change : TableChange Key Value) (before after : Table Key Value) : Prop where
  toList_eq :
    after.toList = TableSpec.tuples (change.applyToMap before.spec before.groups).2
  count_eq : after.count = after.toList.length
  keys :
    (after.keyCount = before.keyCount ∧ ∀ key, after.has key = before.has key) ∨
      (after.keyCount = (change.applyToMap before.spec before.groups).2.length ∧
        ∀ key,
          after.has key =
            (before.spec.valuesOf? (change.applyToMap before.spec before.groups).2 key).isSome)

section MadeLate

variable
  {after : Table Key Value}
  {tree otherTree : OrderedTree Key (Group Value)}
  {policy : DuplicatePolicy Value}

/-- A table with the map after the change shows that map. -/
theorem madeLate_of_groups_eq
    {change : TableChange Key Value}
    (intact : after.Intact otherTree policy)
    (spec_eq : after.spec = table.spec)
    (groups_eq : after.groups = (change.applyToMap table.spec table.groups).2) :
    change.MadeLate table after where
  toList_eq := by rw [Table.toList_eq_tuples, groups_eq]
  count_eq := intact.count_eq_length
  keys := by
    refine Or.inr ⟨?_, ?_⟩
    · rw [intact.keyCount_eq, groups_eq]
    · intro key
      rw [intact.has_eq, groups_eq, spec_eq]

/-- A removal that leaves its key in any case shows the tuples after it and all keys. -/
theorem madeLate_of_write
    {key : Key}
    {value : Value}
    {values : List Value}
    (intact : table.Intact tree policy)
    (afterIntact : after.Intact otherTree policy)
    (spec_eq : after.spec = table.spec)
    (present : table.spec.valuesOf? table.groups key = some values)
    (matched : (Order.lookup? (policy.order value) values).isSome)
    (groups_eq :
      after.groups =
        table.spec.write table.groups key (Order.discard (policy.order value) values)) :
    (TableChange.removeValue key value).MadeLate table after where
  toList_eq := by
    have lawful := intact.lawful
    have order?_eq : table.spec.kind.order? = some policy.order := by
      rw [intact.spec_kind]
      rfl
    obtain ⟨stored, isStored⟩ := Option.isSome_iff_exists.mp matched
    rw [Table.toList_eq_tuples, groups_eq, applyToMap,
      TableSpec.removeValue_matched order?_eq present isStored]
    dsimp only
    split
    next isEmpty =>
      rw [isEmpty]
      exact TableSpec.tuples_write_nil intact.ordered present
    next =>
      rfl
  count_eq := afterIntact.count_eq_length
  keys := by
    refine Or.inl ⟨?_, ?_⟩
    · rw [afterIntact.keyCount_eq, intact.keyCount_eq, groups_eq]
      exact List.length_map _
    · intro other
      rw [afterIntact.has_eq, intact.has_eq, groups_eq, spec_eq]
      exact TableSpec.valuesOf?_write_isSome table.groups key other _

end MadeLate

/--
A change that answers with an error has changed nothing that can be seen of the
table, unless it has failed late; then it was made all the same.  Adding a tuple
never fails late.
-/
theorem looksLike_iff_of_error
    (reachable : table.ReachableWithFailures)
    (change : TableChange Key Value)
    (backend : Backend)
    {cause : IndexError}
    (failed : (change.apply table backend).1.1 = .error cause) :
    ((change.apply table backend).1.2.LooksLike table ↔
        ¬ change.FailsLate (backend.eventsOf (change.apply table))) ∧
      (change.FailsLate (backend.eventsOf (change.apply table)) →
        change.MadeLate table (change.apply table backend).1.2) := by
  obtain ⟨tree, policy, intact⟩ := reachable.intact
  obtain ⟨⟨⟨afterTree, afterIntact⟩, spec_eq⟩, ends⟩ := intact.ends change backend
  cases ends with
  | made answer_eq =>
      obtain ⟨answer, isOk⟩ := change.applyToMap_isOk intact.spec_kind table.groups
      rw [answer_eq, isOk] at failed
      contradiction
  | refused _ _ _ groups_eq early =>
      have looks := intact.looksLike afterIntact spec_eq groups_eq
      exact ⟨⟨fun _ => early, fun _ => looks⟩, fun late => absurd late early⟩
  | uncounted _ _ _ key value values change_eq present matched fewer groups_eq late =>
      have lawful := intact.lawful
      have sizes :=
        TableSpec.size_write intact.ordered present (Order.discard (policy.order value) values)
      rw [← groups_eq, ← afterIntact.counted, ← intact.counted] at sizes
      refine ⟨⟨fun looks => ?_, fun early => absurd late early⟩, fun _ => ?_⟩
      · -- One value less is counted.
        have count_eq := looks.count_eq
        omega
      · have madeLate :=
          madeLate_of_write intact afterIntact spec_eq present matched groups_eq
        rw [← change_eq] at madeLate
        exact madeLate
  | unreleased _ _ _ groups_eq fewer late =>
      refine ⟨⟨fun looks => ?_, fun early => absurd late early⟩,
        fun _ => madeLate_of_groups_eq afterIntact spec_eq groups_eq⟩
      -- One key less is counted.
      have keyCount_eq := looks.keyCount_eq
      rw [afterIntact.keyCount_eq, intact.keyCount_eq] at keyCount_eq
      omega

/-- A backend on which one call of a kind times out, after others have passed. -/
def timingOut (call : StoreCall) (passing : Nat) : Backend :=
  .faulty true none [(call, .plan (.io .timedOut) passing (some 1) none)] 2 .empty

/-- A table that keeps one value of a key inline, after some changes. -/
def changedTable (changes : List (TableChange Nat Nat)) : Table Nat Nat :=
  (run
    ⟨"t", Order.byRank id, some (Order.byRank id),
      .duplicates (.empty (Order.byRank id)) ⟨"t", Order.byRank id, 1, 0⟩, 0, 1⟩
    changes (.memory 1 .empty)).1.2

theorem reachable_changedTable (changes : List (TableChange Nat Nat)) :
    (changedTable changes).ReachableWithFailures := by
  have lawfulValues : ∀ order ∈ some (Order.byRank (id : Nat → Nat)), Std.TransCmp order := by
    intro order isOrder
    cases isOrder
    infer_instance
  have opened :=
    Table.ReachableWithFailures.opened rfl inferInstance lawfulValues
      (rfl :
        (Table.new ⟨"t", true, 1, none, none⟩ (Order.byRank (id : Nat → Nat))
            (some (Order.byRank (id : Nat → Nat))) (.memory 1 .empty)).1 =
          .ok _)
  exact opened.run _ changes

/-- A store that cannot remove a value leaves the table as it was. -/
theorem looksLike_iff_of_error_refused :
    ∃ before after : Table Nat Nat,
      ((TableChange.removeValue 1 10).apply before (timingOut .remove 0)).1 =
          (.error (.ofStore (.io .timedOut)), after) ∧
        before.toList = [(1, 10), (1, 20)] ∧ after.LooksLike before := by
  have reachable := reachable_changedTable [.put 1 10, .put 1 20]
  refine ⟨changedTable [.put 1 10, .put 1 20], _, rfl, rfl, ?_⟩
  exact (looksLike_iff_of_error reachable (.removeValue 1 10) (timingOut .remove 0) rfl).1.mpr
    (by decide)

/--
The last value of a key is removed from its store, which then cannot be counted:
the tuple is gone and the key is still there, although an error is the answer.
-/
theorem removeValue_fails_late :
    ∃ before after : Table Nat Nat,
      before.ReachableWithFailures ∧
        ((TableChange.removeValue 1 20).apply before (timingOut .size 1)).1 =
            (.error (.ofStore (.io .timedOut)), after) ∧
          before.toList = [(1, 20)] ∧ after.toList = [] ∧ after.has 1 = true ∧
            ¬ after.LooksLike before := by
  refine ⟨changedTable [.put 1 10, .put 1 20, .removeValue 1 10], _,
    reachable_changedTable _, rfl, rfl, rfl, rfl, ?_⟩
  intro looks
  exact absurd looks.count_eq (by decide)

end TableChange

end OrderedIndex

import OrderedIndex.Proofs.Table.GroupCalls
import OrderedIndex.Proofs.Table.Stored

namespace OrderedIndex

/-!
# Changes of tables with duplicates

What a change of a table with duplicates comes to, whatever calls fail.  The
parts of the table agree after every outcome; what a failure may leave behind is
a key without values, and a change that has been made although an error is the
answer.
-/

variable {regime : Regime} {Key Value : Type}

/-! ## Tables whose parts agree -/

/-- A table with duplicates whose parts agree; a key may have lost all its values. -/
structure Table.Intact
    (table : Table Key Value)
    (tree : OrderedTree Key (Group Value))
    (policy : DuplicatePolicy Value) :
    Prop extends
      table.Keeps tree (Entries.duplicates · policy) Group.toList (Group.Sound policy.order) where
  lawfulValues : Std.TransCmp policy.order
  valueOrder_eq : table.valueOrder? = some policy.order

/-- After a change, the parts of the table agree again. -/
def Table.StaysIntact
    (policy : DuplicatePolicy Value)
    (before after : Table Key Value) :
    Prop :=
  (∃ tree, after.Intact tree policy) ∧ after.spec = before.spec

/-! ## Outcomes -/

namespace TableChange

/--
Whether a change that has failed has failed after it was made, as its last calls
tell: the removed values could not be released, or what a removal has left could
not be counted.
-/
def FailsLate (events : List StoreEvent) : TableChange Key Value → Prop
  | .put .. => False
  | .remove _ => LastCalls [.close] events
  | .removeValue .. => LastCalls [.close] events ∨ LastCalls [.size, .remove] events

instance (events : List StoreEvent) (change : TableChange Key Value) :
    Decidable (change.FailsLate events) :=
  match change with
  | .put .. => inferInstanceAs (Decidable False)
  | .remove _ => inferInstanceAs (Decidable (LastCalls [.close] events))
  | .removeValue .. =>
      inferInstanceAs (Decidable (LastCalls [.close] events ∨ LastCalls [.size, .remove] events))

/-- What a change of a table with duplicates comes to. -/
inductive Ends
    (regime : Regime)
    (policy : DuplicatePolicy Value)
    (table : Table Key Value)
    (change : TableChange Key Value)
    (outcome : Except IndexError Bool × Table Key Value)
    (events : List StoreEvent) :
    Prop where
  /-- The change is made, and the answer tells so. -/
  | made
      (answer_eq : outcome.1 = (change.applyToMap table.spec table.groups).1)
      (groups_eq : outcome.2.groups = (change.applyToMap table.spec table.groups).2)
  /-- A call fails before the change is made. -/
  | refused
      (mayFail : regime.mayFail)
      (cause : IndexError)
      (answer_eq : outcome.1 = .error cause)
      (groups_eq : outcome.2.groups = table.groups)
      (early : ¬ change.FailsLate events)
  /-- The value is removed, but what is left cannot be counted: a key stays even without values. -/
  | uncounted
      (mayFail : regime.mayFail)
      (cause : IndexError)
      (answer_eq : outcome.1 = .error cause)
      (key : Key)
      (value : Value)
      (values : List Value)
      (change_eq : change = .removeValue key value)
      (present : table.spec.valuesOf? table.groups key = some values)
      (matched : (Order.lookup? (policy.order value) values).isSome)
      (fewer : (Order.discard (policy.order value) values).length + 1 = values.length)
      (groups_eq :
        outcome.2.groups =
          table.spec.write table.groups key (Order.discard (policy.order value) values))
      (late : change.FailsLate events)
      (counting : LastCalls [.size, .remove] events)
      (room : policy.demoteBelow ≤ (Order.discard (policy.order value) values).length)
  /-- The change is made and the key gone, but its store cannot be released. -/
  | unreleased
      (mayFail : regime.mayFail)
      (cause : IndexError)
      (answer_eq : outcome.1 = .error cause)
      (groups_eq : outcome.2.groups = (change.applyToMap table.spec table.groups).2)
      (fewer : outcome.2.groups.length + 1 = table.groups.length)
      (late : change.FailsLate events)
      (closing : LastCalls [.close] events)

end TableChange

/-! ## One change -/

namespace Table

variable
  {table : Table Key Value}
  {tree : OrderedTree Key (Group Value)}
  {policy : DuplicatePolicy Value}

namespace Intact

theorem spec_kind (intact : table.Intact tree policy) :
    table.spec.kind = .duplicates policy.order := by
  rw [spec, intact.entries_eq]
  rfl

theorem same (intact : table.Intact tree policy) : StaysIntact policy table table :=
  ⟨⟨tree, intact⟩, rfl⟩

theorem stays
    (intact : table.Intact tree policy)
    {other : OrderedTree Key (Group Value)}
    {count : Nat}
    {map : Multimap Key Value}
    (changed :
      table.KeepsAs other (Entries.duplicates · policy) Group.toList (Group.Sound policy.order)
        count map) :
    StaysIntact policy table (table.withEntries (.duplicates other policy) count) :=
  ⟨⟨other, changed.keeps, intact.lawfulValues, intact.valueOrder_eq⟩,
    intact.spec_withEntries other count⟩

/-- A value is added, or a failure leaves everything as it was. -/
theorem performs_put
    (intact : table.Intact tree policy)
    (key : Key)
    (value : Value) :
    Performs regime (table.put key value) fun outcome events =>
      StaysIntact policy table outcome.2 ∧
        (TableChange.put key value).Ends regime policy table outcome events := by
  have lawfulValues := intact.lawfulValues
  have lawful := intact.lawful
  have valuesOf := intact.valuesOf?_eq key
  unfold put
  rw [intact.entries_eq]
  dsimp only
  cases intact.treeSound.sought key with
  | present id old found holds get?_eq setValue_eq =>
      rw [get?_eq, Option.map_some] at valuesOf
      have oldSound := intact.valid_of_get? get?_eq
      have expected := TableSpec.put_duplicates intact.spec_kind valuesOf value
      rw [found]
      dsimp only
      rw [holds]
      refine (Group.performs_insert oldSound value).bind ?_
      rintro ⟨cause | added, result⟩ events ⟨became, _⟩
      · obtain ⟨mayFail, rfl⟩ := became
        have written := intact.set get?_eq result oldSound rfl
        dsimp only
        rw [setValue_eq]
        refine .pure ⟨intact.stays written, .refused mayFail cause rfl ?_ not_false⟩
        rw [written.groups_eq, TableSpec.write_same intact.ordered valuesOf]
      · obtain ⟨rfl, resultSound, resultValues⟩ := became
        have counted :
            table.count + (Order.lookup? (policy.order value) old.toList).isNone.toNat +
                old.toList.length =
              table.count + result.toList.length := by
          rw [resultValues, (oldSound.ascending.split value).length_place]
          omega
        have written := intact.set get?_eq result resultSound counted
        dsimp only
        rw [setValue_eq]
        refine .pure ⟨intact.stays written, .made ?_ ?_⟩
        · rw [TableChange.applyToMap, expected]
        · rw [TableChange.applyToMap, expected, written.groups_eq, resultValues]
  | absent missing get?_eq isNew =>
      rw [get?_eq, Option.map_none] at valuesOf
      have emptySound := Group.sound_empty policy.order
      have expected := TableSpec.put_absent valuesOf value
      rw [missing]
      dsimp only
      refine (Group.performs_insert emptySound value).bind ?_
      rintro ⟨cause | added, result⟩ events ⟨became, _⟩
      · exact .pure ⟨intact.same, .refused became.1 cause rfl rfl not_false⟩
      · obtain ⟨_, resultSound, resultValues⟩ := became
        have single : result.toList = [value] := resultValues
        have inserted := intact.insert get?_eq result resultSound
        rw [single] at inserted
        dsimp only
        rw [isNew]
        refine .pure ⟨intact.stays inserted, .made ?_ ?_⟩
        · rw [TableChange.applyToMap, expected]
        · rw [TableChange.applyToMap, expected]
          exact inserted.groups_eq

/-- A key is removed; a failure may come after that, when its store is released. -/
theorem performs_remove
    (intact : table.Intact tree policy)
    (key : Key) :
    Performs regime (table.remove key) fun outcome events =>
      StaysIntact policy table outcome.2 ∧
        (TableChange.remove key).Ends regime policy table outcome events := by
  have lawful := intact.lawful
  have valuesOf := intact.valuesOf?_eq key
  unfold remove
  rw [intact.entries_eq]
  dsimp only
  cases intact.treeSound.sought key with
  | present id old found holds get?_eq setValue_eq removed =>
      rw [get?_eq, Option.map_some] at valuesOf
      rw [get?_eq]
      refine (Group.performs_size (intact.valid_of_get? get?_eq)).bind ?_
      rintro (cause | size) counting counted
      · obtain ⟨mayFail, _, calls⟩ := counted
        refine .pure ⟨intact.same, .refused mayFail cause rfl rfl ?_⟩
        simp [TableChange.FailsLate, LastCalls, calls]
      · cases counted
        have dropped := intact.remove get?_eq
        refine (Group.performs_close old).bind ?_
        rintro (cause | ⟨⟩) closing closed
        · obtain ⟨mayFail, calls⟩ := closed
          have last : LastCalls [.close] (closing ++ counting) := by simp [LastCalls, calls]
          refine .pure
            ⟨intact.stays dropped, .unreleased mayFail cause rfl dropped.groups_eq ?_ last last⟩
          exact (congrArg (List.length · + 1) dropped.groups_eq).trans
            (TableSpec.length_discard intact.ordered (by simp [valuesOf]))
        · refine .pure ⟨intact.stays dropped, .made ?_ dropped.groups_eq⟩
          rw [TableChange.applyToMap, TableSpec.remove, valuesOf]
          rfl
  | absent missing get?_eq isNew untouched =>
      rw [get?_eq, Option.map_none] at valuesOf
      rw [get?_eq]
      refine .pure ⟨intact.same, .made ?_ ?_⟩
      · rw [TableChange.applyToMap, TableSpec.remove, valuesOf]
        rfl
      · exact (TableSpec.discard_absent intact.ordered valuesOf).symm

/--
A key whose value has been removed is dropped if that was the last one; a
failure leaves the value removed.
-/
theorem performs_dropIfEmpty
    (intact : table.Intact tree policy)
    {key : Key}
    {value : Value}
    {old result : Group Value}
    (get?_eq : tree.get? key = some old)
    (matched : (Order.lookup? (policy.order value) old.toList).isSome)
    (resultSound : result.Sound policy.order)
    (resultValues : result.toList = Order.discard (policy.order value) old.toList)
    (fewer : result.toList.length + 1 = old.toList.length)
    {earlier : List StoreEvent}
    (removedLast : result.isRedirected = true → LastCalls [.remove] earlier)
    (room : result.isRedirected = true → policy.demoteBelow ≤ result.toList.length) :
    Performs regime
      ((table.withEntries (.duplicates (tree.set key result).2 policy)
          (table.count - 1)).dropIfEmpty (tree.set key result).2 policy key result)
      fun outcome later =>
        StaysIntact policy table outcome.2 ∧
          (TableChange.removeValue key value).Ends regime policy table outcome
            (later ++ earlier) := by
  have lawful := intact.lawful
  have counted := intact.length_le_count get?_eq
  have valuesOf : table.spec.valuesOf? table.groups key = some old.toList := by
    rw [intact.valuesOf?_eq, get?_eq, Option.map_some]
  have order?_eq : table.spec.kind.order? = some policy.order := by
    rw [intact.spec_kind]
    rfl
  obtain ⟨stored, isStored⟩ := Option.isSome_iff_exists.mp matched
  have expected := TableSpec.removeValue_matched order?_eq valuesOf isStored
  rw [← resultValues] at expected
  have written := intact.set get?_eq result resultSound
    (show table.count - 1 + old.toList.length = table.count + result.toList.length by omega)
  unfold dropIfEmpty
  refine (Group.performs_size resultSound).bind ?_
  rintro (cause | size) counting counted
  · obtain ⟨mayFail, redirected, calls⟩ := counted
    have last : LastCalls [.size, .remove] (counting ++ earlier) :=
      LastCalls.append calls (removedLast redirected)
    refine .pure ⟨intact.stays written, .uncounted mayFail cause rfl key value
      old.toList rfl valuesOf matched (resultValues ▸ fewer) ?_ (Or.inr last) last
      (resultValues ▸ room redirected)⟩
    rw [← resultValues]
    exact written.groups_eq
  · cases counted
    dsimp only
    by_cases isEmpty : result.toList = []
    · have single : old.toList.length = 1 := by
        rw [← fewer, isEmpty]
        rfl
      have dropped := intact.set_remove get?_eq result
      rw [single] at dropped
      rw [if_pos isEmpty] at expected
      rw [if_pos (by simp [isEmpty])]
      refine (Group.performs_close result).bind ?_
      rintro (cause | ⟨⟩) closing closed
      · obtain ⟨mayFail, calls⟩ := closed
        have last : LastCalls [.close] ((closing ++ counting) ++ earlier) := by
          simp [LastCalls, calls]
        refine .pure
          ⟨intact.stays dropped, .unreleased mayFail cause rfl ?_ ?_ (Or.inl last) last⟩
        · rw [TableChange.applyToMap, expected]
          exact dropped.groups_eq
        · exact (congrArg (List.length · + 1) dropped.groups_eq).trans
            (TableSpec.length_discard intact.ordered (by simp [valuesOf]))
      · refine .pure ⟨intact.stays dropped, .made ?_ ?_⟩
        · rw [TableChange.applyToMap, expected]
        · rw [TableChange.applyToMap, expected]
          exact dropped.groups_eq
    · rw [if_neg isEmpty] at expected
      rw [if_neg (by simpa using isEmpty)]
      refine .pure ⟨intact.stays written, .made ?_ ?_⟩
      · rw [TableChange.applyToMap, expected]
      · rw [TableChange.applyToMap, expected]
        exact written.groups_eq

/-- A value is removed; a failure may come after that, when its key is looked after. -/
theorem performs_removeValue
    (intact : table.Intact tree policy)
    (key : Key)
    (value : Value) :
    Performs regime (table.removeValue key value) fun outcome events =>
      StaysIntact policy table outcome.2 ∧
        (TableChange.removeValue key value).Ends regime policy table outcome events := by
  have lawfulValues := intact.lawfulValues
  have lawful := intact.lawful
  have order?_eq : table.spec.kind.order? = some policy.order := by
    rw [intact.spec_kind]
    rfl
  have valuesOf := intact.valuesOf?_eq key
  unfold removeValue
  rw [intact.entries_eq]
  dsimp only
  cases intact.treeSound.sought key with
  | present id old found holds get?_eq setValue_eq =>
      rw [get?_eq, Option.map_some] at valuesOf
      have oldSound := intact.valid_of_get? get?_eq
      have split := oldSound.ascending.split value
      rw [found]
      dsimp only
      rw [holds]
      refine ((Group.performs_remove oldSound value).and_ensures
        (Group.ensures_remove_room oldSound value)).bind ?_
      rintro ⟨cause | removed, result⟩ events ⟨room, became, calls⟩
      · obtain ⟨mayFail, rfl⟩ := became
        obtain ⟨notClosed, notCounted⟩ := calls
        have written := intact.set get?_eq result oldSound rfl
        dsimp only
        rw [setValue_eq]
        refine .pure ⟨intact.stays written, .refused mayFail cause rfl ?_ ?_⟩
        · rw [written.groups_eq, TableSpec.write_same intact.ordered valuesOf]
        · rintro (closed | counted)
          · exact notClosed closed
          · exact notCounted counted
      · obtain ⟨answer, resultSound, resultValues⟩ := became
        dsimp only
        rw [setValue_eq]
        cases present : Order.lookup? (policy.order value) old.toList with
        | none =>
            rw [present] at answer
            have same : result.toList = old.toList := by
              rw [resultValues, split.discard_of_lookup?_none present]
            have written := intact.set get?_eq result resultSound (by rw [same])
            have expected := TableSpec.removeValue_unmatched order?_eq valuesOf present
            rw [answer]
            refine .pure ⟨intact.stays written, .made ?_ ?_⟩
            · rw [TableChange.applyToMap, expected]
            · rw [TableChange.applyToMap, expected, written.groups_eq, same,
                TableSpec.write_same intact.ordered valuesOf]
        | some stored =>
            rw [present] at answer
            have fewer : result.toList.length + 1 = old.toList.length := by
              have lengths := split.length_discard
              rw [present] at lengths
              rw [resultValues]
              exact lengths
            rw [answer]
            exact intact.performs_dropIfEmpty get?_eq (by simp [present]) resultSound
              resultValues fewer calls (room (by rw [answer]; rfl))
  | absent missing get?_eq isNew untouched =>
      rw [get?_eq, Option.map_none] at valuesOf
      have expected := TableSpec.removeValue_absent order?_eq valuesOf value
      rw [missing]
      refine .pure ⟨intact.same, .made ?_ ?_⟩
      · rw [TableChange.applyToMap, expected]
      · rw [TableChange.applyToMap, expected]

/-- One change of a table with duplicates, whatever calls fail. -/
theorem performs_apply
    (intact : table.Intact tree policy)
    (change : TableChange Key Value) :
    Performs regime (change.apply table) fun outcome events =>
      StaysIntact policy table outcome.2 ∧ change.Ends regime policy table outcome events := by
  cases change with
  | put key value =>
      exact intact.performs_put key value
  | remove key =>
      exact intact.performs_remove key
  | removeValue key value =>
      exact intact.performs_removeValue key value

end Intact

end Table

end OrderedIndex

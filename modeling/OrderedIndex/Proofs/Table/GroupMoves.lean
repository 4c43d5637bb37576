import OrderedIndex.Proofs.Table.Failures
import OrderedIndex.Proofs.Table.GroupLayouts

namespace OrderedIndex

/-!
# Moves of a table's groups

A change of a table with duplicates moves at most the group under its own key, and
only with the value that makes the group too large or too small for its layout.
Where a store fails the change, no group is moved.
-/

variable {regime : Regime} {Key Value : Type}

/-! ## Groups by their keys -/

/-- The group under a key of a table with duplicates. -/
def Table.group? (table : Table Key Value) (key : Key) : Option (Group Value) :=
  match table.entries with
  | .unique _ => none
  | .duplicates tree _ => tree.get? key

namespace TableChange

/-- The key whose values are changed. -/
def key : TableChange Key Value → Key
  | .put key _ => key
  | .remove key => key
  | .removeValue key _ => key

/-! ## Expected moves -/

/-- The move that a change makes if it does not fail. -/
def move? (policy : DuplicatePolicy Value) (table : Table Key Value) :
    TableChange Key Value → Option Relocation
  | .put key value => (table.group? key).bind (·.insertionMove? policy value)
  | .remove _ => none
  | .removeValue key value => (table.group? key).bind (·.removalMove? policy value)

/-- The move that a change with the given answer has made. -/
def moved?
    (policy : DuplicatePolicy Value)
    (table : Table Key Value)
    (change : TableChange Key Value) :
    Except IndexError Bool → Option Relocation
  | .ok _ => change.move? policy table
  | .error _ => none

end TableChange

/-! ## One change -/

/-- What a change does to the groups of a table, and which moves it makes. -/
structure TableChange.Handles
    (policy : DuplicatePolicy Value)
    (table : Table Key Value)
    (change : TableChange Key Value)
    (outcome : Except IndexError Bool × Table Key Value)
    (moves : List Relocation) :
    Prop where
  moves_eq : moves = (change.moved? policy table outcome.1).toList
  rearranged :
    Rearranged policy (table.group? change.key) (change.moved? policy table outcome.1)
      (outcome.2.group? change.key)
  fits : ∀ group, outcome.2.group? change.key = some group → group.Fits policy
  others :
    ∀ other,
      table.keyOrder change.key other ≠ .eq →
      outcome.2.group? other = table.group? other

namespace Table

variable
  {table : Table Key Value}
  {tree : OrderedTree Key (Group Value)}
  {policy : DuplicatePolicy Value}

/-- A table whose parts agree, with groups in layouts that the policy allows. -/
structure Policed
    (table : Table Key Value)
    (tree : OrderedTree Key (Group Value))
    (policy : DuplicatePolicy Value) :
    Prop extends table.Intact tree policy where
  one_le : 1 ≤ policy.promoteAbove
  coherent : policy.demoteBelow ≤ policy.promoteAbove
  allFit : ∀ key group, table.group? key = some group → group.Fits policy

namespace Policed

theorem group?_eq (policed : table.Policed tree policy) (key : Key) :
    table.group? key = tree.get? key := by
  rw [group?, policed.entries_eq]

theorem fits_of_get?
    (policed : table.Policed tree policy)
    {key : Key}
    {group : Group Value}
    (get?_eq : tree.get? key = some group) :
    group.Fits policy :=
  policed.allFit key group ((policed.group?_eq key).trans get?_eq)

/-- A change of the tree under one key handles the groups as its move says. -/
theorem handles
    (policed : table.Policed tree policy)
    (change : TableChange Key Value)
    {answer : Except IndexError Bool}
    {move? : Option Relocation}
    {before? after? : Option (Group Value)}
    {other : OrderedTree Key (Group Value)}
    {count : Nat}
    (before_eq : tree.get? change.key = before?)
    (changed : tree.ChangedAt change.key after? other)
    (moved?_eq : change.moved? policy table answer = move?)
    (rearranged : Rearranged policy before? move? after?)
    (fits : ∀ group, after? = some group → group.Fits policy) :
    change.Handles policy table
      (answer, table.withEntries (.duplicates other policy) count) move?.toList := by
  have after_eq :
      (table.withEntries (.duplicates other policy) count).group? change.key = after? :=
    changed.get?_eq
  refine ⟨by rw [moved?_eq], ?_, ?_, ?_⟩
  · rw [policed.group?_eq, before_eq, moved?_eq, after_eq]
    exact rearranged
  · rw [after_eq]
    exact fits
  · intro key differs
    have apart : tree.order change.key key ≠ .eq := policed.order_eq ▸ differs
    exact (changed.others key apart).trans (policed.group?_eq key).symm

/-- Another group under a key that is present. -/
theorem handles_set
    (policed : table.Policed tree policy)
    (change : TableChange Key Value)
    {answer : Except IndexError Bool}
    {move? : Option Relocation}
    {old result : Group Value}
    {count : Nat}
    (get?_eq : tree.get? change.key = some old)
    (moved?_eq : change.moved? policy table answer = move?)
    (rearranged : Rearranged policy (some old) move? (some result))
    (fits : result.Fits policy) :
    change.Handles policy table
      (answer, table.withEntries (.duplicates (tree.set change.key result).2 policy) count)
      move?.toList := by
  have changed := policed.treeSound.changedAt_set get?_eq result
  refine policed.handles change get?_eq changed moved?_eq rearranged ?_
  rintro _ ⟨⟩
  exact fits

/-- A key that goes with its group. -/
theorem handles_drop
    (policed : table.Policed tree policy)
    (change : TableChange Key Value)
    {answer : Except IndexError Bool}
    {move? : Option Relocation}
    {old : Group Value}
    {other : OrderedTree Key (Group Value)}
    {count : Nat}
    (get?_eq : tree.get? change.key = some old)
    (dropped : tree.ChangedAt change.key none other)
    (moved?_eq : change.moved? policy table answer = move?)
    (rearranged : Rearranged policy (some old) move? none) :
    change.Handles policy table
      (answer, table.withEntries (.duplicates other policy) count) move?.toList := by
  refine policed.handles change get?_eq dropped moved?_eq rearranged ?_
  intro _ impossible
  contradiction

/-- A change that leaves the table as it was has moved nothing. -/
theorem handles_same
    (policed : table.Policed tree policy)
    {change : TableChange Key Value}
    {answer : Except IndexError Bool}
    (moved?_eq : change.moved? policy table answer = none) :
    change.Handles policy table (answer, table) [] := by
  refine ⟨?_, ?_, policed.allFit change.key, fun _ _ => rfl⟩
  · rw [moved?_eq]
    rfl
  · rw [moved?_eq]
    cases table.group? change.key with
    | none =>
        exact .absent
    | some group =>
        exact .kept rfl

/-- A new value goes into the group of its key, or starts one. -/
theorem relocates_put
    (policed : table.Policed tree policy)
    (key : Key)
    (value : Value) :
    Relocates regime (table.put key value)
      ((TableChange.put key value).Handles policy table) := by
  have lawfulValues := policed.lawfulValues
  have group?_eq := policed.group?_eq key
  unfold put
  rw [policed.entries_eq]
  dsimp only
  cases policed.treeSound.sought key with
  | present id old found holds get?_eq setValue_eq =>
      have oldSound := policed.valid_of_get? get?_eq
      have oldFits := policed.fits_of_get? get?_eq
      have move?_eq :
          (TableChange.put key value).move? policy table = old.insertionMove? policy value := by
        rw [TableChange.move?, group?_eq, get?_eq, Option.bind_some]
      rw [found]
      dsimp only
      rw [holds]
      refine ((Group.relocates_insert oldSound oldFits value).and_ensures
        (Group.ensures_insert oldSound value)).bind ?_
      rintro ⟨cause | added, result⟩ moves ⟨became, lands⟩
      · obtain ⟨_, rfl⟩ := became
        cases lands
        dsimp only
        rw [setValue_eq]
        exact .pure (policed.handles_set (.put key value) get?_eq rfl (.kept rfl) oldFits)
      · obtain ⟨_, _, resultValues⟩ := became
        obtain ⟨rfl, lands⟩ := lands
        have length_eq := (oldSound.ascending.split value).length_place value
        rw [← resultValues] at length_eq
        have rearranged := Group.rearranged_insert length_eq lands
        have fits := oldFits.insert policed.coherent length_eq lands
        dsimp only
        rw [setValue_eq]
        exact .pure (policed.handles_set (.put key value) get?_eq move?_eq rearranged fits)
  | absent missing get?_eq isNew =>
      have emptySound := Group.sound_empty policy.order
      have emptyFits : (Group.empty policy.order).Fits policy :=
        (Group.fits_inline rfl).mpr (Nat.zero_le _)
      have stays : (Group.empty policy.order).insertionMove? policy value = none := by
        refine if_neg ?_
        rintro ⟨_, full, _⟩
        exact absurd policed.one_le (full ▸ Nat.not_succ_le_zero 0)
      have moved?_eq :
          (TableChange.put key value).moved? policy table (.ok true) = none := by
        rw [TableChange.moved?, TableChange.move?, group?_eq, get?_eq, Option.bind_none]
      rw [missing]
      dsimp only
      refine ((Group.relocates_insert emptySound emptyFits value).and_ensures
        (Group.ensures_insert emptySound value)).bind ?_
      rintro ⟨cause | added, result⟩ moves ⟨became, lands⟩
      · cases lands
        exact .pure (policed.handles_same rfl)
      · obtain ⟨_, _, resultValues⟩ := became
        rw [stays] at lands
        obtain ⟨rfl, landed⟩ := lands
        have isInline : result.isRedirected = false := landed
        have single : result.toList = [value] := resultValues
        have changed := policed.treeSound.changedAt_insert get?_eq result
        dsimp only
        rw [isNew]
        refine .pure
          (policed.handles (.put key value) get?_eq changed moved?_eq (.created isInline) ?_)
        rintro _ ⟨⟩
        rw [Group.fits_inline isInline, single]
        exact policed.one_le

/-- A key that is removed moves nothing. -/
theorem relocates_remove
    (policed : table.Policed tree policy)
    (key : Key) :
    Relocates regime (table.remove key)
      ((TableChange.remove key).Handles policy table) := by
  have dropped := policed.treeSound.changedAt_remove key
  unfold remove
  rw [policed.entries_eq]
  dsimp only
  cases get?_eq : tree.get? key with
  | none =>
      exact .pure (policed.handles_same rfl)
  | some group =>
      refine .bind_quiet (Group.ensures_size (policed.valid_of_get? get?_eq)) group.quiet_size ?_
      rintro (cause | size) _
      · exact .pure (policed.handles_same rfl)
      · refine .bind_quiet group.ensures_close group.quiet_close ?_
        rintro (cause | ⟨⟩) _
        · exact .pure (policed.handles_drop (.remove key) get?_eq dropped rfl .dropped)
        · exact .pure (policed.handles_drop (.remove key) get?_eq dropped rfl .dropped)

/-- A group that a removal has left is moved no more, also where its key is dropped. -/
theorem relocates_dropIfEmpty
    (policed : table.Policed tree policy)
    {key : Key}
    {value : Value}
    {old result : Group Value}
    (get?_eq : tree.get? key = some old)
    (move?_eq :
      (TableChange.removeValue key value).move? policy table = old.removalMove? policy value)
    (resultSound : result.Sound policy.order)
    (resultFits : result.Fits policy)
    (rearranged : Rearranged policy (some old) (old.removalMove? policy value) (some result))
    (settled : result.isRedirected = true → old.removalMove? policy value = none)
    (count : Nat) :
    Relocates regime
      ((table.withEntries (.duplicates (tree.set key result).2 policy) count).dropIfEmpty
        (tree.set key result).2 policy key result)
      fun outcome later =>
        (TableChange.removeValue key value).Handles policy table outcome
          (later ++ (old.removalMove? policy value).toList) := by
  unfold dropIfEmpty
  refine .bind_quiet (Group.ensures_size_redirected resultSound) result.quiet_size ?_
  rintro (cause | size) told
  · -- Only a store can fail to be counted, and then nothing was moved.
    rw [settled told] at rearranged ⊢
    exact .pure (policed.handles_set (.removeValue key value) get?_eq rfl rearranged resultFits)
  · cases told
    dsimp only
    by_cases isEmpty : result.toList = []
    · have changed := policed.treeSound.changedAt_set get?_eq result
      obtain ⟨written, _⟩ := policed.treeSound.set key result
      have dropped :=
        changed.trans (OrderedTree.order_set tree key result) (written.changedAt_remove key)
      have gone := rearranged.drop isEmpty
      rw [if_pos (by simp [isEmpty])]
      refine .bind_quiet (Group.ensures_close_redirected result) result.quiet_close ?_
      rintro (cause | ⟨⟩) closed
      · rw [settled closed] at gone ⊢
        exact .pure (policed.handles_drop (.removeValue key value) get?_eq dropped rfl gone)
      · exact .pure (policed.handles_drop (.removeValue key value) get?_eq dropped move?_eq gone)
    · rw [if_neg (by simpa using isEmpty)]
      exact .pure
        (policed.handles_set (.removeValue key value) get?_eq move?_eq rearranged resultFits)

/-- A value is removed from the group of its key. -/
theorem relocates_removeValue
    (policed : table.Policed tree policy)
    (key : Key)
    (value : Value) :
    Relocates regime (table.removeValue key value)
      ((TableChange.removeValue key value).Handles policy table) := by
  have lawfulValues := policed.lawfulValues
  have group?_eq := policed.group?_eq key
  unfold removeValue
  rw [policed.entries_eq]
  dsimp only
  cases policed.treeSound.sought key with
  | present id old found holds get?_eq setValue_eq =>
      have oldSound := policed.valid_of_get? get?_eq
      have oldFits := policed.fits_of_get? get?_eq
      have move?_eq :
          (TableChange.removeValue key value).move? policy table =
            old.removalMove? policy value := by
        rw [TableChange.move?, group?_eq, get?_eq, Option.bind_some]
      rw [found]
      dsimp only
      rw [holds]
      refine ((Group.relocates_remove oldSound value).and_ensures
        (Group.ensures_remove oldSound value)).bind ?_
      rintro ⟨cause | removed, result⟩ moves ⟨became, lands⟩
      · obtain ⟨_, rfl⟩ := became
        cases lands
        dsimp only
        rw [setValue_eq]
        exact .pure (policed.handles_set (.removeValue key value) get?_eq rfl (.kept rfl) oldFits)
      · obtain ⟨_, resultSound, resultValues⟩ := became
        obtain ⟨rfl, lands⟩ := lands
        have length_eq := (oldSound.ascending.split value).length_discard
        rw [← resultValues] at length_eq
        have rearranged := Group.rearranged_remove length_eq lands
        have fits := oldFits.remove policed.coherent length_eq lands
        dsimp only
        rw [setValue_eq]
        cases removed with
        | false =>
            exact .pure
              (policed.handles_set (.removeValue key value) get?_eq move?_eq rearranged fits)
        | true =>
            exact policed.relocates_dropIfEmpty get?_eq move?_eq resultSound fits rearranged
              (Group.removalMove?_eq_none lands) _
  | absent missing get?_eq isNew =>
      have move?_eq : (TableChange.removeValue key value).move? policy table = none := by
        rw [TableChange.move?, group?_eq, get?_eq, Option.bind_none]
      rw [missing]
      exact .pure (policed.handles_same move?_eq)

/-- However a change ends, it handles the groups as the policy says. -/
theorem relocates_apply
    (policed : table.Policed tree policy)
    (change : TableChange Key Value) :
    Relocates regime (change.apply table) (change.Handles policy table) := by
  cases change with
  | put key value =>
      exact policed.relocates_put key value
  | remove key =>
      exact policed.relocates_remove key
  | removeValue key value =>
      exact policed.relocates_removeValue key value

/-- After a change, however it ends, the policy allows all groups again. -/
theorem apply
    (policed : table.Policed tree policy)
    (change : TableChange Key Value)
    (backend : Backend) :
    ∃ other, (change.apply table backend).1.2.Policed other policy := by
  obtain ⟨⟨⟨other, intact⟩, spec_eq⟩, _⟩ := policed.toIntact.ends change backend
  obtain ⟨_, _, handles, _⟩ :=
    policed.relocates_apply change backend (by trivial : Regime.arbitrary.admits _)
  refine ⟨other, intact, policed.one_le, policed.coherent, ?_⟩
  intro key group present
  have order_eq : other.order = table.keyOrder :=
    intact.order_eq.trans (congrArg TableSpec.keys spec_eq)
  have found : ∀ key, (change.apply table backend).1.2.group? key = other.get? key := by
    intro key
    rw [group?, intact.entries_eq]
  by_cases same : table.keyOrder change.key key = .eq
  · refine handles.fits group ?_
    rw [found, intact.treeSound.get?_congr (order_eq ▸ same), ← found, present]
  · rw [handles.others key same] at present
    exact policed.allFit key group present

end Policed

end Table

end OrderedIndex

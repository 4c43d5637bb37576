import OrderedIndex.Proofs.Table.GroupMoves

namespace OrderedIndex

/-!
# The storage policy of tables

The limit of a table bounds its groups, whatever calls fail: how large an inline
group can be, and how small a redirected one.  A group changes its layout exactly
with the value that crosses a bound, and never in a change that answers with an
error.
-/

variable {Key Value : Type}

/-- The policy for groups that the settings of a table come to. -/
def TableConfig.policy (config : TableConfig) (order : Order Value) : DuplicatePolicy Value where
  table := config.name
  order := order
  promoteAbove := config.duplicateLimit
  demoteBelow := config.duplicateLimit / 2

/--
Tables with duplicates that are opened with the given settings and changed over
stores that may fail at any call, and whether all changes have succeeded.
-/
inductive Table.ReachableSucceeding (config : TableConfig) (order : Order Value) :
    Bool → Table Key Value → Prop where
  | opened
      {keyOrder : Order Key}
      {backend : Backend}
      {table : Table Key Value}
      (duplicates : config.duplicates = true)
      (lawfulKeys : Std.TransCmp keyOrder)
      (lawfulValues : Std.TransCmp order)
      (new_eq : (Table.new config keyOrder (some order) backend).1 = .ok table) :
      ReachableSucceeding config order true table
  | changed
      {succeeded : Bool}
      {table : Table Key Value}
      (reachable : ReachableSucceeding config order succeeded table)
      (backend : Backend)
      (change : TableChange Key Value) :
      ReachableSucceeding config order
        (succeeded && (change.apply table backend).1.1.isOk)
        (change.apply table backend).1.2

/-- A group in ascending order and within the bounds of a limit. -/
structure Group.WithinBounds
    (limit : Nat)
    (order : Order Value)
    (succeeded : Bool)
    (group : Group Value) :
    Prop where
  ascending : Order.Ascending order group.toList
  inline_le : group.isRedirected = false → group.toList.length ≤ limit
  le_redirected : group.isRedirected = true → limit / 2 ≤ group.toList.length
  /-- Only a change that has failed can leave a store empty. -/
  occupied :
    succeeded = true → group.isRedirected = true → max 1 (limit / 2) ≤ group.toList.length

/-- A change makes the expected move of the group under its key, and no other. -/
structure TableChange.FollowsPolicy
    (policy : DuplicatePolicy Value)
    (table : Table Key Value)
    (change : TableChange Key Value)
    (backend : Backend) :
    Prop where
  tally_eq :
    ∀ kind,
      (change.apply table backend).2.tally kind =
        backend.tally kind +
          (change.moved? policy table (change.apply table backend).1.1).toList.count kind
  rearranged :
    Rearranged policy (table.group? change.key)
      (change.moved? policy table (change.apply table backend).1.1)
      ((change.apply table backend).1.2.group? change.key)
  others :
    ∀ other,
      table.keyOrder change.key other ≠ .eq →
      (change.apply table backend).1.2.group? other = table.group? other
  /-- Only a failing store makes a change fail. -/
  succeeds : backend.Reliable → (change.apply table backend).1.1.isOk = true

namespace Table

variable
  {config : TableConfig}
  {order : Order Value}
  {succeeded : Bool}
  {table : Table Key Value}
  {tree : OrderedTree Key (Group Value)}
  {policy : DuplicatePolicy Value}

namespace Policed

theorem followsPolicy
    (policed : table.Policed tree policy)
    (change : TableChange Key Value)
    (backend : Backend) :
    change.FollowsPolicy policy table backend := by
  obtain ⟨moves, tally_eq, handles, _⟩ :=
    policed.relocates_apply change backend (by trivial : Regime.arbitrary.admits _)
  refine ⟨?_, handles.rearranged, handles.others, ?_⟩
  · intro kind
    rw [tally_eq, handles.moves_eq]
  · intro reliable
    obtain ⟨_, ends⟩ := (policed.performs_apply change).post_eventsOf reliable
    cases ends with
    | made answer_eq =>
        obtain ⟨answer, isOk⟩ := change.applyToMap_isOk policed.spec_kind table.groups
        rw [answer_eq, isOk]
        rfl
    | refused mayFail =>
        exact mayFail.elim
    | uncounted mayFail =>
        exact mayFail.elim
    | unreleased mayFail =>
        exact mayFail.elim

/-- A change that succeeds leaves no key without values. -/
theorem populated_apply
    (policed : table.Policed tree policy)
    (populated : TableSpec.Populated table.groups)
    {change : TableChange Key Value}
    {backend : Backend}
    (isOk : (change.apply table backend).1.1.isOk = true) :
    TableSpec.Populated (change.apply table backend).1.2.groups := by
  obtain ⟨_, ends⟩ := policed.toIntact.ends change backend
  cases ends with
  | made _ groups_eq =>
      rw [groups_eq]
      exact change.populated_applyToMap policed.spec_kind populated
  | refused _ cause answer_eq =>
      rw [answer_eq] at isOk
      contradiction
  | uncounted _ cause answer_eq =>
      rw [answer_eq] at isOk
      contradiction
  | unreleased _ cause answer_eq =>
      rw [answer_eq] at isOk
      contradiction

theorem group_ne_nil
    (policed : table.Policed tree policy)
    (populated : TableSpec.Populated table.groups)
    {key : Key}
    {group : Group Value}
    (present : table.group? key = some group) :
    group.toList ≠ [] := by
  rw [policed.group?_eq] at present
  have valuesOf := policed.valuesOf?_eq key
  rw [present, Option.map_some] at valuesOf
  obtain ⟨pair, found, values_eq⟩ := Option.map_eq_some_iff.mp valuesOf
  rw [← values_eq]
  exact populated pair (List.mem_of_find?_eq_some found)

theorem withinBounds
    (policed : table.Policed tree (config.policy order))
    (populated : succeeded = true → TableSpec.Populated table.groups)
    {key : Key}
    {group : Group Value}
    (present : table.group? key = some group) :
    group.WithinBounds config.duplicateLimit order succeeded := by
  have fits := policed.allFit key group present
  have found := (policed.group?_eq key).symm.trans present
  have sound : group.Sound order := policed.valid_of_get? found
  have le_redirected (isRedirected : group.isRedirected = true) :
      config.duplicateLimit / 2 ≤ group.toList.length :=
    (Group.fits_redirected isRedirected).mp fits
  refine ⟨sound.ascending, ?_, le_redirected, ?_⟩
  · intro isInline
    exact (Group.fits_inline isInline).mp fits
  · intro allSucceeded isRedirected
    have occupied := policed.group_ne_nil (populated allSucceeded) present
    exact Nat.max_le.mpr ⟨List.length_pos_iff.mpr occupied, le_redirected isRedirected⟩

end Policed

namespace ReachableSucceeding

theorem policed (reachable : ReachableSucceeding config order succeeded table) :
    ∃ tree,
      table.Policed tree (config.policy order) ∧
        (succeeded = true → TableSpec.Populated table.groups) := by
  induction reachable with
  | @opened keyOrder backend table duplicates _ lawfulValues new_eq =>
      have limited := duplicateLimit_ne_zero new_eq
      have lawful : ∀ other ∈ some order, Std.TransCmp other := by
        rintro _ ⟨⟩
        exact lawfulValues
      obtain ⟨sound, _, empty⟩ := new_sound lawful new_eq
      obtain ⟨entries, initial, rfl⟩ := new_eq_ok new_eq
      unfold initialEntries at initial
      rw [if_pos duplicates] at initial
      cases initial
      refine ⟨_, ⟨sound.intact rfl, Nat.pos_of_ne_zero limited, Nat.div_le_self _ 2, ?_⟩, ?_⟩
      · intro key group present
        contradiction
      · intro _
        rw [empty]
        exact List.forall_mem_nil _
  | changed _ backend change previous =>
      obtain ⟨tree, policed, populated⟩ := previous
      obtain ⟨other, after⟩ := policed.apply change backend
      refine ⟨other, after, ?_⟩
      intro allSucceeded
      obtain ⟨before, isOk⟩ := Bool.and_eq_true_iff.mp allSucceeded
      exact policed.populated_apply (populated before) isOk

/-- A run of changes that succeed, each over the backend that the one before has left. -/
theorem run
    (reachable : ReachableSucceeding config order succeeded table)
    (backend : Backend)
    (changes : List (TableChange Key Value))
    (succeed : (TableChange.run table changes backend).1.1.all (·.isOk) = true) :
    ReachableSucceeding config order succeeded (TableChange.run table changes backend).1.2 := by
  induction changes generalizing table backend with
  | nil =>
      exact reachable
  | cons change rest inductionHypothesis =>
      obtain ⟨succeeds, others⟩ := Bool.and_eq_true_iff.mp succeed
      have isOk : (change.apply table backend).1.1.isOk = true := succeeds
      have changed := reachable.changed backend change
      rw [isOk, Bool.and_true] at changed
      exact inductionHypothesis changed (change.apply table backend).2 others

/--
Whatever calls fail, inline groups hold no more values than the limit and
redirected ones no fewer than half of it, and none is empty while all changes
succeed.  A change moves a group exactly when it succeeds with a new value for a
full inline group or with a value less than a redirected group needs.
-/
theorem storage_policy (reachable : ReachableSucceeding config order succeeded table) :
    1 ≤ config.duplicateLimit ∧
      (∀ key group,
        table.group? key = some group →
        group.WithinBounds config.duplicateLimit order succeeded) ∧
        ∀ (change : TableChange Key Value) (backend : Backend),
          change.FollowsPolicy (config.policy order) table backend := by
  obtain ⟨tree, policed, populated⟩ := reachable.policed
  refine ⟨policed.one_le, ?_, policed.followsPolicy⟩
  intro key group present
  exact policed.withinBounds populated present

/--
With a limit of two, the third value of a key moves its group into a store, and
the removal of the last value moves the group back before its key goes.
-/
theorem storage_policy_pair :
    ∃ full single : Table Nat Nat,
      ReachableSucceeding ⟨"t", true, 2, none, none⟩ (Order.byRank id) true full ∧
        (full.group? 1).map Group.toList = some [10, 20] ∧
          ((TableChange.put 1 30).apply full (.memory 1 .empty)).2.tally .promotion = 1 ∧
            ReachableSucceeding ⟨"t", true, 2, none, none⟩ (Order.byRank id) true single ∧
              (single.group? 1).map Group.toList = some [30] ∧
                ((TableChange.removeValue 1 30).apply single (.memory 2 .empty)).2.tally .demotion =
                  1 := by
  have opened :=
    ReachableSucceeding.opened rfl inferInstance inferInstance
      (rfl :
        (new ⟨"t", true, 2, none, none⟩ (Order.byRank (id : Nat → Nat))
            (some (Order.byRank (id : Nat → Nat))) (.memory 1 .empty)).1 =
          .ok _)
  have full := opened.run (.memory 1 .empty) [.put 1 10, .put 1 20] (by decide +kernel)
  have single :=
    opened.run (.memory 1 .empty)
      [.put 1 10, .put 1 20, .put 1 30, .removeValue 1 10, .removeValue 1 20]
      (by decide +kernel)
  refine ⟨_, _, full, by decide +kernel, ?_, single, by decide +kernel, ?_⟩
  · obtain ⟨_, _, follows⟩ := storage_policy full
    refine ((follows (.put 1 30) (.memory 1 .empty)).tally_eq .promotion).trans ?_
    decide +kernel
  · obtain ⟨_, _, follows⟩ := storage_policy single
    refine ((follows (.removeValue 1 30) (.memory 2 .empty)).tally_eq .demotion).trans ?_
    decide +kernel

end ReachableSucceeding

end Table

end OrderedIndex

import OrderedIndex.Proofs.Table.Failures

namespace OrderedIndex

/-!
# Keys without values

A removal that takes the last value of a key out of its store and then cannot
count what is left keeps the key.  Which keys are left without values is told by
the answers, the last calls and the tuples of the changes that were made; no
other key is ever without values.
-/

variable {Key Value : Type}

/-- An ascending list of one key for each class of equal keys with a property. -/
structure Order.Lists (order : Order Key) (property : Key → Prop) (keys : List Key) : Prop where
  ascending : Order.Ascending order keys
  iff_equal : ∀ key, property key ↔ ∃ listed ∈ keys, order key listed = .eq

/-! ## Vacant keys of a map -/

namespace TableSpec

variable {spec : TableSpec Key Value} {map : Multimap Key Value} {key : Key}

/-- A key that is there without values. -/
def Vacant (spec : TableSpec Key Value) (map : Multimap Key Value) (key : Key) : Prop :=
  ∃ pair ∈ map, spec.probe key pair = .eq ∧ pair.2 = []

/-- A key that some tuple has. -/
def Occupied (spec : TableSpec Key Value) (map : Multimap Key Value) (key : Key) : Prop :=
  ∃ tuple ∈ tuples map, spec.keys key tuple.1 = .eq

theorem occupied_iff :
    spec.Occupied map key ↔ ∃ pair ∈ map, spec.probe key pair = .eq ∧ pair.2 ≠ [] :=
  exists_tuple_iff fun stored => spec.keys key stored = .eq

/-- A key is there with values or without. -/
theorem valuesOf?_isSome_iff :
    (spec.valuesOf? map key).isSome ↔ spec.Occupied map key ∨ spec.Vacant map key := by
  rw [valuesOf?, Option.isSome_map, Order.lookup?, List.find?_isSome, occupied_iff]
  constructor
  · rintro ⟨pair, inMap, found⟩
    have equal : spec.probe key pair = .eq := eq_of_beq found
    by_cases isEmpty : pair.2 = []
    · exact Or.inr ⟨pair, inMap, equal, isEmpty⟩
    · exact Or.inl ⟨pair, inMap, equal, isEmpty⟩
  · rintro (⟨pair, inMap, equal, _⟩ | ⟨pair, inMap, equal, _⟩)
    · exact ⟨pair, inMap, beq_iff_eq.mpr equal⟩
    · exact ⟨pair, inMap, beq_iff_eq.mpr equal⟩

theorem Populated.not_vacant (populated : Populated map) (key : Key) : ¬ spec.Vacant map key := by
  rintro ⟨pair, inMap, _, isEmpty⟩
  exact populated pair inMap isEmpty

section Ordered

variable
  [Std.TransCmp spec.keys]
  (ordered : spec.Ordered map)
  {values : List Value}
  (present : spec.valuesOf? map key = some values)

include ordered present

/-- Only one pair of a map has a key. -/
theorem Ordered.values_eq
    {pair : Key × List Value}
    (inMap : pair ∈ map)
    (equal : spec.probe key pair = .eq) :
    pair.2 = values := by
  cases ordered.found key with
  | present below above stored found map_eq valuesOf?_eq _ discard_eq =>
      rw [valuesOf?_eq, Option.some.injEq] at present
      have differs : pair ∉ below ++ above := by
        rw [← discard_eq]
        intro kept
        have notEqual := (List.mem_filter.mp kept).2
        rw [equal] at notEqual
        contradiction
      rw [map_eq] at inMap
      simp only [List.mem_append, List.mem_cons, not_or] at inMap differs
      rcases inMap with inBelow | rfl | inAbove
      · exact absurd inBelow differs.1
      · exact present
      · exact absurd inAbove differs.2
  | absent _ _ _ valuesOf?_eq =>
      rw [valuesOf?_eq] at present
      contradiction

end Ordered

/-! ### What changes do to vacant keys -/

section Changes

variable [Std.TransCmp spec.keys] {old values : List Value}

/-- A key that is written is vacant if nothing is written; the others stay as they are. -/
theorem vacant_write
    (present : (spec.valuesOf? map key).isSome)
    (values : List Value)
    (other : Key) :
    spec.Vacant (spec.write map key values) other ↔
      (spec.keys key other = .eq ∧ values = []) ∨
        (spec.keys key other ≠ .eq ∧ spec.Vacant map other) := by
  constructor
  · rintro ⟨_, written, equal, isEmpty⟩
    obtain ⟨pair, inMap, rfl⟩ := List.mem_map.mp written
    by_cases matched : spec.probe key pair = .eq
    · rw [if_pos matched] at equal isEmpty
      have sameKey : spec.keys key other = .eq :=
        (Std.TransCmp.congr_right equal).trans matched
      exact Or.inl ⟨sameKey, isEmpty⟩
    · rw [if_neg matched] at equal isEmpty
      have otherKey : spec.keys key other ≠ .eq := by
        rw [Std.TransCmp.congr_right equal]
        exact matched
      exact Or.inr ⟨otherKey, pair, inMap, equal, isEmpty⟩
  · rintro (⟨sameKey, rfl⟩ | ⟨otherKey, pair, inMap, equal, isEmpty⟩)
    · rw [valuesOf?, Option.isSome_map, Order.lookup?, List.find?_isSome] at present
      obtain ⟨pair, inMap, found⟩ := present
      have matched : spec.probe key pair = .eq := eq_of_beq found
      refine ⟨(pair.1, []), List.mem_map.mpr ⟨pair, inMap, if_pos matched⟩, ?_, rfl⟩
      exact (Std.TransCmp.congr_left sameKey).symm.trans matched
    · have differs : spec.probe key pair ≠ .eq := by
        rw [probe, ← Std.TransCmp.congr_right equal]
        exact otherKey
      exact ⟨pair, List.mem_map.mpr ⟨pair, inMap, if_neg differs⟩, equal, isEmpty⟩

theorem vacant_write_values
    (present : spec.valuesOf? map key = some old)
    (nonempty : values ≠ [])
    (other : Key) :
    spec.Vacant (spec.write map key values) other ↔
      spec.keys key other ≠ .eq ∧ spec.Vacant map other := by
  rw [vacant_write (by rw [present]; rfl)]
  simp [nonempty]

/-- A key that is discarded is not vacant; the others stay as they are. -/
theorem vacant_discard (map : Multimap Key Value) (key other : Key) :
    spec.Vacant (Order.discard (spec.probe key) map) other ↔
      spec.Vacant map other ∧ spec.keys key other ≠ .eq := by
  have differs
      {pair : Key × List Value}
      (equal : spec.probe other pair = .eq) :
      spec.probe key pair = spec.keys key other :=
    (Std.TransCmp.congr_right equal).symm
  constructor
  · rintro ⟨pair, kept, equal, isEmpty⟩
    obtain ⟨inMap, notEqual⟩ := List.mem_filter.mp kept
    rw [differs equal] at notEqual
    exact ⟨⟨pair, inMap, equal, isEmpty⟩, bne_iff_ne.mp notEqual⟩
  · rintro ⟨⟨pair, inMap, equal, isEmpty⟩, otherKey⟩
    rw [← differs equal] at otherKey
    exact ⟨pair, List.mem_filter.mpr ⟨inMap, bne_iff_ne.mpr otherKey⟩, equal, isEmpty⟩

/-- A new key with values is not vacant; the others stay as they are. -/
theorem Ordered.vacant_place
    (ordered : spec.Ordered map)
    (absent : spec.valuesOf? map key = none)
    {values : List Value}
    (nonempty : values ≠ [])
    (other : Key) :
    spec.Vacant (Order.place (spec.probe key) (key, values) map) other ↔
      spec.Vacant map other := by
  cases ordered.found key with
  | present _ _ _ _ _ valuesOf?_eq =>
      rw [valuesOf?_eq] at absent
      contradiction
  | absent below above map_eq _ place_eq =>
      rw [place_eq, map_eq]
      simp only [Vacant, List.mem_append, List.mem_cons]
      constructor
      · rintro ⟨pair, inBelow | rfl | inAbove, equal, isEmpty⟩
        · exact ⟨pair, Or.inl inBelow, equal, isEmpty⟩
        · exact absurd isEmpty nonempty
        · exact ⟨pair, Or.inr inAbove, equal, isEmpty⟩
      · rintro ⟨pair, inBelow | inAbove, equal, isEmpty⟩
        · exact ⟨pair, Or.inl inBelow, equal, isEmpty⟩
        · exact ⟨pair, Or.inr (Or.inr inAbove), equal, isEmpty⟩

/-- A vacant key is there, without values. -/
theorem Ordered.valuesOf?_of_vacant
    (ordered : spec.Ordered map)
    {other : Key}
    (vacant : spec.Vacant map other)
    (sameKey : spec.keys key other = .eq) :
    spec.valuesOf? map key = some [] := by
  obtain ⟨pair, inMap, equal, isEmpty⟩ := vacant
  have matched : spec.probe key pair = .eq := (Std.TransCmp.congr_left sameKey).trans equal
  have isSome : (spec.valuesOf? map key).isSome :=
    valuesOf?_isSome_iff.mpr (Or.inr ⟨pair, inMap, matched, isEmpty⟩)
  obtain ⟨values, present⟩ := Option.isSome_iff_exists.mp isSome
  rw [present, ← ordered.values_eq present inMap matched, isEmpty]

/-- A key that has values is not vacant. -/
theorem Ordered.ne_of_vacant
    (ordered : spec.Ordered map)
    (present : spec.valuesOf? map key = some values)
    (nonempty : values ≠ [])
    {other : Key}
    (vacant : spec.Vacant map other) :
    spec.keys key other ≠ .eq := by
  intro sameKey
  rw [ordered.valuesOf?_of_vacant vacant sameKey, Option.some.injEq] at present
  exact nonempty present.symm

end Changes

/-! ### Lists of keys -/

/-- The keys of some pairs of a map list the classes of their keys. -/
theorem Ordered.lists
    (ordered : spec.Ordered map)
    (kept : Key × List Value → Bool) :
    spec.keys.Lists (fun key => ∃ pair ∈ map, spec.probe key pair = .eq ∧ kept pair = true)
      ((map.filter kept).map Prod.fst) where
  ascending := List.Pairwise.sublist (List.filter_sublist.map Prod.fst) ordered
  iff_equal key := by
    constructor
    · rintro ⟨pair, inMap, equal, isKept⟩
      have inKept : pair ∈ map.filter kept := List.mem_filter.mpr ⟨inMap, isKept⟩
      exact ⟨pair.1, List.mem_map_of_mem inKept, equal⟩
    · rintro ⟨_, listed, equal⟩
      obtain ⟨pair, inKept, rfl⟩ := List.mem_map.mp listed
      obtain ⟨inMap, isKept⟩ := List.mem_filter.mp inKept
      exact ⟨pair, inMap, equal, isKept⟩

/-- No tuple has a vacant key. -/
theorem Ordered.not_occupied
    [Std.TransCmp spec.keys]
    (ordered : spec.Ordered map)
    (vacant : spec.Vacant map key) :
    ¬ spec.Occupied map key := by
  intro occupied
  obtain ⟨pair, inMap, equal, nonempty⟩ := occupied_iff.mp occupied
  have present := ordered.valuesOf?_of_vacant vacant Std.ReflCmp.compare_self
  exact nonempty (ordered.values_eq present inMap equal)

end TableSpec

/-! ## What a change leaves vacant -/

namespace TableChange

/--
The keys without values after a change, as its answer, its last calls and the
tuples before it tell.  A key becomes vacant when its only value has been removed
and what is left could not be counted; it is filled by an addition and goes with
a removal that was made.
-/
def vacantAfter
    (keyOrder : Order Key)
    (tuples : List (Key × Value))
    (vacant : Key → Prop)
    (answer : Except IndexError Bool)
    (events : List StoreEvent) :
    TableChange Key Value → Key → Prop
  | .put key _, other => vacant other ∧ ¬ (keyOrder key other = .eq ∧ answer.isOk)
  | .remove key, other =>
      vacant other ∧ ¬ (keyOrder key other = .eq ∧ (answer.isOk ∨ LastCalls [.close] events))
  | .removeValue key _, other =>
      vacant other ∨
        (keyOrder key other = .eq ∧
          ¬ answer.isOk ∧
            LastCalls [.size, .remove] events ∧
              (tuples.countP fun tuple => keyOrder key tuple.1 == .eq) = 1)

section Ends

variable
  {regime : Regime}
  {table : Table Key Value}
  {tree : OrderedTree Key (Group Value)}
  {policy : DuplicatePolicy Value}
  {outcome : Except IndexError Bool × Table Key Value}
  {events : List StoreEvent}

/-- A change that is made fills keys and drops them, and leaves no key vacant. -/
theorem vacant_applyToMap
    {spec : TableSpec Key Value}
    {order : Order Value}
    [Std.TransCmp spec.keys]
    (kind_eq : spec.kind = .duplicates order)
    {map : Multimap Key Value}
    (ordered : spec.Ordered map)
    (change : TableChange Key Value)
    (tuples : List (Key × Value))
    (events : List StoreEvent)
    (other : Key) :
    spec.Vacant (change.applyToMap spec map).2 other ↔
      change.vacantAfter spec.keys tuples (spec.Vacant map) (change.applyToMap spec map).1 events
        other := by
  have order?_eq : spec.kind.order? = some order := by
    rw [kind_eq]
    rfl
  obtain ⟨answer, answer_eq⟩ := change.applyToMap_isOk kind_eq map
  have answered : (change.applyToMap spec map).1.isOk = true := by
    rw [answer_eq]
    rfl
  cases change with
  | put key value =>
      simp only [vacantAfter, answered, and_true]
      cases valuesOf : spec.valuesOf? map key with
      | none =>
          rw [applyToMap, TableSpec.put_absent valuesOf,
            ordered.vacant_place valuesOf (List.cons_ne_nil value [])]
          refine ⟨fun vacant => ⟨vacant, fun sameKey => ?_⟩, And.left⟩
          rw [ordered.valuesOf?_of_vacant vacant sameKey] at valuesOf
          contradiction
      | some values =>
          have nonempty : Order.place (order value) value values ≠ [] :=
            Order.place_ne_nil value values
          rw [applyToMap, TableSpec.put_duplicates kind_eq valuesOf,
            TableSpec.vacant_write_values valuesOf nonempty, and_comm]
  | remove key =>
      simp only [vacantAfter, answered, true_or, and_true]
      exact TableSpec.vacant_discard map key other
  | removeValue key value =>
      simp only [vacantAfter, answered, not_true_eq_false, false_and, and_false, or_false]
      cases valuesOf : spec.valuesOf? map key with
      | none =>
          rw [applyToMap, TableSpec.removeValue_absent order?_eq valuesOf]
      | some values =>
          cases matched : Order.lookup? (order value) values with
          | none =>
              rw [applyToMap, TableSpec.removeValue_unmatched order?_eq valuesOf matched]
          | some stored =>
              have nonempty : values ≠ [] := List.ne_nil_of_mem (List.mem_of_find?_eq_some matched)
              have populated : spec.Vacant map other → spec.keys key other ≠ .eq :=
                ordered.ne_of_vacant valuesOf nonempty
              rw [applyToMap, TableSpec.removeValue_matched order?_eq valuesOf matched]
              dsimp only
              split
              next =>
                rw [TableSpec.vacant_discard]
                exact and_iff_left_of_imp populated
              next remaining =>
                rw [TableSpec.vacant_write_values valuesOf remaining]
                exact and_iff_right_of_imp populated

/-- Which keys a change leaves vacant, whatever calls fail. -/
theorem Ends.vacant_eq
    {change : TableChange Key Value}
    (intact : table.Intact tree policy)
    (ends : change.Ends regime policy table outcome events) :
    table.spec.Vacant outcome.2.groups =
      change.vacantAfter table.spec.keys table.toList (table.spec.Vacant table.groups) outcome.1
        events := by
  have lawful := intact.lawful
  funext other
  refine propext ?_
  cases ends with
  | made answer_eq groups_eq =>
      rw [groups_eq, answer_eq]
      exact change.vacant_applyToMap intact.spec_kind intact.ordered _ events other
  | refused _ _ answer_eq groups_eq early =>
      have failed : outcome.1.isOk = false := by
        rw [answer_eq]
        rfl
      rw [groups_eq]
      cases change with
      | put key value =>
          simp [vacantAfter, failed]
      | remove key =>
          have notClosing : ¬ LastCalls [.close] events := early
          simp [vacantAfter, failed, notClosing]
      | removeValue key value =>
          have notCounting : ¬ LastCalls [.size, .remove] events := fun last => early (Or.inr last)
          simp [vacantAfter, notCounting]
  | uncounted _ _ answer_eq key value values change_eq present matched fewer groups_eq _ counting =>
      have failed : outcome.1.isOk = false := by
        rw [answer_eq]
        rfl
      have single :
          Order.discard (policy.order value) values = [] ↔
            (table.toList.countP fun tuple => table.spec.keys key tuple.1 == .eq) = 1 := by
        rw [Table.toList_eq_tuples, intact.ordered.countP_tuples, present, Option.map_some,
          Option.getD_some, ← fewer, ← List.length_eq_zero_iff]
        omega
      have populated : table.spec.Vacant table.groups other → table.spec.keys key other ≠ .eq :=
        intact.ordered.ne_of_vacant present (List.ne_nil_of_length_pos (by omega))
      rw [groups_eq, change_eq, TableSpec.vacant_write (by rw [present]; rfl), single,
        and_iff_right_of_imp populated, or_comm]
      simp [vacantAfter, failed, counting]
  | unreleased _ _ _ groups_eq _ late closing =>
      rw [groups_eq, change.vacant_applyToMap intact.spec_kind intact.ordered table.toList events]
      cases change with
      | put key value =>
          exact late.elim
      | remove key =>
          simp [vacantAfter, closing]
      | removeValue key value =>
          have notCounting : ¬ LastCalls [.size, .remove] events := by
            intro counting
            exact absurd (LastCalls.head_eq closing counting) (by decide)
          simp [vacantAfter, notCounting]

/-- Where a group moves back inline before it is empty, no key becomes vacant. -/
theorem Ends.populated
    {change : TableChange Key Value}
    (intact : table.Intact tree policy)
    (enough : 1 ≤ policy.demoteBelow)
    (populated : TableSpec.Populated table.groups)
    (ends : change.Ends regime policy table outcome events) :
    TableSpec.Populated outcome.2.groups := by
  cases ends with
  | made _ groups_eq =>
      rw [groups_eq]
      exact change.populated_applyToMap intact.spec_kind populated
  | refused _ _ _ groups_eq =>
      rw [groups_eq]
      exact populated
  | uncounted _ _ _ key value values _ _ _ _ groups_eq _ _ room =>
      rw [groups_eq]
      refine populated.write ?_ key
      exact List.ne_nil_of_length_pos (Nat.lt_of_lt_of_le enough room)
  | unreleased _ _ _ groups_eq =>
      rw [groups_eq]
      exact change.populated_applyToMap intact.spec_kind populated

end Ends

end TableChange

/-! ## Runs -/

namespace Table

/--
Tables with duplicates that are opened and changed over stores that may fail at
any call, with the keys that the changes have left vacant.
-/
inductive ReachableVacating
    (config : TableConfig)
    (keyOrder : Order Key)
    (valueOrder? : Option (Order Value)) :
    Table Key Value → (Key → Prop) → Prop where
  | opened
      {backend : Backend}
      {table : Table Key Value}
      (duplicates : config.duplicates = true)
      (lawfulKeys : Std.TransCmp keyOrder)
      (lawfulValues : ∀ order ∈ valueOrder?, Std.TransCmp order)
      (new_eq : (new config keyOrder valueOrder? backend).1 = .ok table) :
      ReachableVacating config keyOrder valueOrder? table fun _ => False
  | changed
      {table : Table Key Value}
      {vacant : Key → Prop}
      (reachable : ReachableVacating config keyOrder valueOrder? table vacant)
      (backend : Backend)
      (change : TableChange Key Value) :
      ReachableVacating config keyOrder valueOrder? (change.apply table backend).1.2
        (change.vacantAfter keyOrder table.toList vacant (change.apply table backend).1.1
          (backend.eventsOf (change.apply table)))

/-- What a table shows of its keys: those of its tuples and the vacant ones, each class once. -/
structure ShowsKeys
    (table : Table Key Value)
    (keyOrder : Order Key)
    (vacant : Key → Prop) :
    Prop where
  has_iff :
    ∀ key,
      table.has key = true ↔ (∃ tuple ∈ table.toList, keyOrder key tuple.1 = .eq) ∨ vacant key
  apart : ∀ key, vacant key → ∀ tuple ∈ table.toList, keyOrder key tuple.1 ≠ .eq
  keyCount_eq :
    ∃ occupiedKeys vacantKeys,
      keyOrder.Lists (fun key => ∃ tuple ∈ table.toList, keyOrder key tuple.1 = .eq)
          occupiedKeys ∧
        keyOrder.Lists vacant vacantKeys ∧
          table.keyCount = occupiedKeys.length + vacantKeys.length

variable
  {config : TableConfig}
  {keyOrder : Order Key}
  {valueOrder? : Option (Order Value)}
  {table : Table Key Value}
  {vacant : Key → Prop}

/-- A table shows the keys of its map. -/
theorem Intact.showsKeys
    {tree : OrderedTree Key (Group Value)}
    {policy : DuplicatePolicy Value}
    (intact : table.Intact tree policy) :
    table.ShowsKeys table.spec.keys (table.spec.Vacant table.groups) := by
  have lawful := intact.lawful
  refine ⟨?_, ?_, ?_⟩
  · intro key
    rw [intact.has_eq, toList_eq_tuples]
    exact TableSpec.valuesOf?_isSome_iff
  · intro key isVacant tuple member equal
    rw [toList_eq_tuples] at member
    exact intact.ordered.not_occupied isVacant ⟨tuple, member, equal⟩
  · have occupied := intact.ordered.lists fun pair => !pair.2.isEmpty
    have empty := intact.ordered.lists fun pair => pair.2.isEmpty
    refine ⟨_, _, ⟨occupied.ascending, ?_⟩, ⟨empty.ascending, ?_⟩, ?_⟩
    · intro key
      rw [toList_eq_tuples, ← occupied.iff_equal]
      refine TableSpec.occupied_iff.trans ?_
      simp
    · intro key
      rw [← empty.iff_equal, TableSpec.Vacant]
      simp
    · have parts :=
        List.length_eq_countP_add_countP (fun pair => pair.2.isEmpty) (l := table.groups)
      simp only [Bool.not_eq_true, Bool.decide_eq_false, List.countP_eq_length_filter] at parts
      rw [intact.keyCount_eq, List.length_map, List.length_map, parts, Nat.add_comm]

/-- The keys that are reckoned vacant are those of the map, and only a limit of one leaves any. -/
structure Reckons
    (config : TableConfig)
    (keyOrder : Order Key)
    (table : Table Key Value)
    (vacant : Key → Prop)
    (tree : OrderedTree Key (Group Value))
    (policy : DuplicatePolicy Value) :
    Prop extends table.Intact tree policy where
  keys_eq : table.spec.keys = keyOrder
  vacant_eq : vacant = table.spec.Vacant table.groups
  demoteBelow_eq : policy.demoteBelow = config.demotionLimit
  limited : config.duplicateLimit ≠ 0
  populated : config.duplicateLimit ≠ 1 → TableSpec.Populated table.groups

theorem Reckons.apply
    {tree : OrderedTree Key (Group Value)}
    {policy : DuplicatePolicy Value}
    (reckons : Reckons config keyOrder table vacant tree policy)
    (change : TableChange Key Value)
    (backend : Backend) :
    ∃ other,
      Reckons config keyOrder (change.apply table backend).1.2
        (change.vacantAfter keyOrder table.toList vacant (change.apply table backend).1.1
          (backend.eventsOf (change.apply table)))
        other policy := by
  obtain ⟨⟨⟨other, intact⟩, spec_eq⟩, ends⟩ := reckons.toIntact.ends change backend
  refine ⟨other, {
    toIntact := intact
    keys_eq := by rw [spec_eq, reckons.keys_eq]
    vacant_eq := ?_
    demoteBelow_eq := reckons.demoteBelow_eq
    limited := reckons.limited
    populated := ?_ }⟩
  · rw [spec_eq, ends.vacant_eq reckons.toIntact, ← reckons.keys_eq, ← reckons.vacant_eq]
  · intro larger
    have limited := reckons.limited
    have enough : 1 ≤ policy.demoteBelow := by
      rw [reckons.demoteBelow_eq, TableConfig.demotionLimit]
      omega
    exact ends.populated reckons.toIntact enough (reckons.populated larger)

namespace ReachableVacating

theorem reckons (reachable : ReachableVacating config keyOrder valueOrder? table vacant) :
    ∃ tree policy, Reckons config keyOrder table vacant tree policy := by
  induction reachable with
  | @opened backend table duplicates _ lawfulValues new_eq =>
      have limited := duplicateLimit_ne_zero new_eq
      obtain ⟨sound, spec_eq, empty⟩ := new_sound lawfulValues new_eq
      have populated : TableSpec.Populated table.groups := by
        rw [empty]
        exact List.forall_mem_nil _
      obtain ⟨entries, initial, rfl⟩ := new_eq_ok new_eq
      unfold initialEntries at initial
      rw [if_pos duplicates] at initial
      cases valueOrder? with
      | none =>
          contradiction
      | some order =>
          cases initial
          refine ⟨_, _, sound.intact rfl, rfl, ?_, rfl, limited, fun _ => populated⟩
          funext key
          exact (eq_false (populated.not_vacant key)).symm
  | changed _ backend change previous =>
      obtain ⟨tree, policy, reckons⟩ := previous
      obtain ⟨other, after⟩ := reckons.apply change backend
      exact ⟨other, policy, after⟩

/-- A run of changes, each over the backend that the one before has left. -/
theorem run
    (reachable : ReachableVacating config keyOrder valueOrder? table vacant)
    (backend : Backend)
    (changes : List (TableChange Key Value)) :
    ∃ left,
      ReachableVacating config keyOrder valueOrder? (TableChange.run table changes backend).1.2
        left := by
  induction changes generalizing table vacant backend with
  | nil =>
      exact ⟨vacant, reachable⟩
  | cons change rest inductionHypothesis =>
      exact inductionHypothesis (reachable.changed backend change) _

/--
The keys of a table with duplicates are those of its tuples and those that its
changes have left vacant; only with a duplicate limit of one are there any.
-/
theorem keys_eq_occupied_or_vacant
    (reachable : ReachableVacating config keyOrder valueOrder? table vacant) :
    table.ShowsKeys keyOrder vacant ∧ (config.duplicateLimit ≠ 1 → ∀ key, ¬ vacant key) := by
  obtain ⟨tree, policy, reckons⟩ := reachable.reckons
  have shows := reckons.showsKeys
  rw [reckons.keys_eq, ← reckons.vacant_eq] at shows
  refine ⟨shows, ?_⟩
  intro larger key
  rw [reckons.vacant_eq]
  exact (reckons.populated larger).not_vacant key

/-- With a duplicate limit of one, the last value of a key goes and its key stays. -/
theorem keys_eq_occupied_or_vacant_limit_one :
    ∃ (table : Table Nat Nat) (vacant : Nat → Prop),
      ReachableVacating ⟨"t", true, 1, none, none⟩ (Order.byRank id) (some (Order.byRank id))
          table vacant ∧
        table.toList = [] ∧ vacant 1 ∧ table.keyCount = 1 := by
  have lawfulValues : ∀ order ∈ some (Order.byRank (id : Nat → Nat)), Std.TransCmp order := by
    intro order isOrder
    cases isOrder
    infer_instance
  have opened :
      ReachableVacating ⟨"t", true, 1, none, none⟩ (Order.byRank id) (some (Order.byRank id))
        (TableChange.changedTable []) fun _ => False :=
    .opened rfl inferInstance lawfulValues
      (rfl :
        (new ⟨"t", true, 1, none, none⟩ (Order.byRank (id : Nat → Nat))
            (some (Order.byRank (id : Nat → Nat))) (.memory 1 .empty)).1 =
          .ok _)
  obtain ⟨vacant, changed⟩ :=
    opened.run (.memory 1 .empty) [.put 1 10, .put 1 20, .removeValue 1 10]
  have failed := changed.changed (TableChange.timingOut .size 1) (.removeValue 1 20)
  refine ⟨_, _, failed, rfl, ?_, rfl⟩
  rcases (keys_eq_occupied_or_vacant failed).1.has_iff 1 |>.mp rfl with ⟨_, isTuple, _⟩ | isVacant
  · exact absurd isTuple (List.not_mem_nil)
  · exact isVacant

/--
A key outlives its last value: it has no tuple, is still told to be there and is
counted, and removing a value of it finds none and leaves it.
-/
theorem has_without_tuples :
    ∃ before after : Table Nat Nat,
      before.ReachableWithFailures ∧
        ((TableChange.removeValue 1 20).apply before (TableChange.timingOut .size 1)).1 =
            (.error (.ofStore (.io .timedOut)), after) ∧
          after.ReachableWithFailures ∧
            after.toList = [] ∧
              after.has 1 = true ∧
                after.keyCount = 1 ∧
                  ((TableChange.removeValue 1 20).apply after (.memory 3 .empty)).1.1 =
                      .ok false ∧
                    ((TableChange.removeValue 1 20).apply after (.memory 3 .empty)).1.2.has 1 =
                      true := by
  have reachable := TableChange.reachable_changedTable [.put 1 10, .put 1 20, .removeValue 1 10]
  have failed := reachable.changed (TableChange.timingOut .size 1) (.removeValue 1 20)
  refine ⟨_, ((TableChange.removeValue 1 20).apply _ _).1.2, reachable, rfl, failed, ?_⟩
  exact ⟨rfl, rfl, rfl, rfl, rfl⟩

end ReachableVacating

/-- Whatever fails, it is reckoned which keys are left vacant. -/
theorem ReachableWithFailures.reckoned (reachable : table.ReachableWithFailures) :
    ∃ config keyOrder valueOrder? vacant,
      ReachableVacating config keyOrder valueOrder? table vacant := by
  induction reachable with
  | opened duplicates lawfulKeys lawfulValues new_eq =>
      exact ⟨_, _, _, _, .opened duplicates lawfulKeys lawfulValues new_eq⟩
  | changed _ backend change previous =>
      obtain ⟨config, keyOrder, valueOrder?, vacant, reachable⟩ := previous
      exact ⟨config, keyOrder, valueOrder?, _, reachable.changed backend change⟩

end Table

end OrderedIndex

import OrderedIndex.Proofs.Table.StoragePolicy

namespace OrderedIndex

/-!
# No flapping

Between a move of a group and the move back lie as many values as the two bounds
of the limit are apart.  Each value comes or goes with one change that tells so,
which makes the number of values under a key an account of these changes.
-/

variable {Key Value : Type}

/-! ## The number of values under a key -/

namespace TableSpec

variable
  {spec : TableSpec Key Value}
  {map : Multimap Key Value}
  {order : Order Value}
  {key : Key}

/-- The number of values that a key has. -/
def countOf (spec : TableSpec Key Value) (map : Multimap Key Value) (key : Key) : Nat :=
  ((spec.valuesOf? map key).map List.length).getD 0

theorem countOf_eq_length
    {values : List Value}
    (present : spec.valuesOf? map key = some values) :
    spec.countOf map key = values.length := by
  rw [countOf, present]
  rfl

theorem countOf_eq_zero (absent : spec.valuesOf? map key = none) : spec.countOf map key = 0 := by
  rw [countOf, absent]
  rfl

/-- A key that is there has the values that are written to it. -/
theorem valuesOf?_write
    {values : List Value}
    (present : spec.valuesOf? map key = some values)
    (others : List Value) :
    spec.valuesOf? (spec.write map key others) key = some others := by
  have same (pair : Key × List Value) : spec.probe key (pair.1, others) = spec.probe key pair :=
    rfl
  obtain ⟨pair, found, _⟩ := Option.map_eq_some_iff.mp present
  rw [valuesOf?, write, Order.lookup?_adjust same, found]
  rfl

/-- A new value is one more under its key. -/
theorem countOf_put
    [Std.TransCmp spec.keys]
    (kind_eq : spec.kind = .duplicates order)
    (ordered : spec.Ordered map)
    (split :
      ∀ values value, spec.valuesOf? map key = some values → Order.Split (order value) values)
    (value : Value) :
    spec.countOf (spec.put map key value).2 key =
      spec.countOf map key + (spec.put map key value).1.toNat := by
  cases valuesOf : spec.valuesOf? map key with
  | none =>
      have isKey : spec.probe key (key, [value]) = .eq := Std.ReflCmp.compare_self
      have placed :=
        (ordered.separates key).split.lookup?_place (Option.map_eq_none_iff.mp valuesOf) isKey
      rw [put_absent valuesOf, countOf_eq_zero valuesOf, countOf, valuesOf?, placed]
      rfl
  | some values =>
      rw [put_duplicates kind_eq valuesOf, countOf_eq_length valuesOf,
        countOf_eq_length (valuesOf?_write valuesOf _)]
      exact (split values value valuesOf).length_place value

/-- A value that is removed is one less under its key. -/
theorem countOf_removeValue
    (kind_eq : spec.kind = .duplicates order)
    (split :
      ∀ values value, spec.valuesOf? map key = some values → Order.Split (order value) values)
    (value : Value) :
    ∃ removed,
      (spec.removeValue map key value).1 = .ok removed ∧
        spec.countOf (spec.removeValue map key value).2 key + removed.toNat =
          spec.countOf map key := by
  have order?_eq : spec.kind.order? = some order := by
    rw [kind_eq]
    rfl
  cases valuesOf : spec.valuesOf? map key with
  | none =>
      rw [removeValue_absent order?_eq valuesOf]
      exact ⟨false, rfl, rfl⟩
  | some values =>
      cases matched : Order.lookup? (order value) values with
      | none =>
          rw [removeValue_unmatched order?_eq valuesOf matched]
          exact ⟨false, rfl, rfl⟩
      | some stored =>
          have lengths := (split values value valuesOf).length_discard
          rw [matched, Option.isSome_some] at lengths
          rw [removeValue_matched order?_eq valuesOf matched, countOf_eq_length valuesOf]
          refine ⟨true, rfl, ?_⟩
          dsimp only
          split
          next nothingLeft =>
            have gone :
                spec.valuesOf? (Order.discard (spec.probe key) map) key = none := by
              rw [valuesOf?, Order.lookup?_discard]
              rfl
            rw [countOf_eq_zero gone, ← lengths, nothingLeft]
            rfl
          next =>
            rw [countOf_eq_length (valuesOf?_write valuesOf _), lengths]

/-- Equal keys have the same number of values. -/
theorem countOf_congr
    [Std.TransCmp spec.keys]
    {other : Key}
    (equal : spec.keys key other = .eq)
    (map : Multimap Key Value) :
    spec.countOf map key = spec.countOf map other := by
  have sameProbe : spec.probe key = spec.probe other :=
    funext fun _ => Std.TransCmp.congr_left equal
  rw [countOf, countOf, valuesOf?, valuesOf?, sameProbe]

end TableSpec

/-- The number of values that a table has under a key. -/
def Table.countUnder (table : Table Key Value) (key : Key) : Nat :=
  table.spec.countOf table.groups key

namespace TableChange

/-! ## Values that come and go -/

/-- Whether a change has added a value under a key, as its answer tells. -/
def gives (order : Order Key) (key : Key) : TableChange Key Value × Except IndexError Bool → Bool
  | (.put other _, .ok true) => order other key == .eq
  | _ => false

/-- Whether a change has removed a value under a key, as its answer tells. -/
def takes (order : Order Key) (key : Key) : TableChange Key Value × Except IndexError Bool → Bool
  | (.removeValue other _, .ok true) => order other key == .eq
  | _ => false

/-- Changes under other keys count for nothing. -/
theorem gives_takes_other
    {order : Order Key}
    {key : Key}
    {change : TableChange Key Value}
    (differs : order change.key key ≠ .eq)
    (answer : Except IndexError Bool) :
    gives order key (change, answer) = false ∧ takes order key (change, answer) = false := by
  cases change <;> rcases answer with cause | ⟨_ | _⟩ <;>
    simp_all [gives, takes, TableChange.key]

/-- A put under the key counts if it answers that the value is new. -/
theorem gives_put
    {order : Order Key}
    {key other : Key}
    (equal : order other key = .eq)
    (value : Value)
    (added : Bool) :
    gives order key (.put other value, .ok added) = added ∧
      takes order key ((.put other value : TableChange Key Value), .ok added) = false := by
  cases added <;> simp [gives, takes, equal]

/-- A removal under the key counts if it answers that the value was there. -/
theorem takes_removeValue
    {order : Order Key}
    {key other : Key}
    (equal : order other key = .eq)
    (value : Value)
    (removed : Bool) :
    takes order key (.removeValue other value, .ok removed) = removed ∧
      gives order key ((.removeValue other value : TableChange Key Value), .ok removed) =
        false := by
  cases removed <;> simp [gives, takes, equal]

/-- A change does not remove a key as a whole. -/
def Spares (order : Order Key) (key : Key) : TableChange Key Value → Prop
  | .remove other => order other key ≠ .eq
  | _ => True

end TableChange

namespace Table.Policed

variable
  {table : Table Key Value}
  {tree : OrderedTree Key (Group Value)}
  {policy : DuplicatePolicy Value}
  {backend : Backend}

theorem countUnder_eq
    (policed : table.Policed tree policy)
    (key : Key) :
    table.countUnder key = ((table.group? key).map fun group => group.toList.length).getD 0 := by
  rw [countUnder, TableSpec.countOf, policed.valuesOf?_eq, policed.group?_eq, Option.map_map]
  rfl

theorem countUnder_congr
    (policed : table.Policed tree policy)
    {key other : Key}
    (equal : table.keyOrder key other = .eq) :
    table.countUnder key = table.countUnder other := by
  have lawful := policed.lawful
  exact TableSpec.countOf_congr equal table.groups

/-- The values of a key are split by any value. -/
theorem split_valuesOf?
    (policed : table.Policed tree policy)
    (key : Key)
    (values : List Value)
    (value : Value)
    (present : table.spec.valuesOf? table.groups key = some values) :
    Order.Split (policy.order value) values := by
  have lawfulValues := policed.lawfulValues
  rw [policed.valuesOf?_eq] at present
  obtain ⟨group, found, rfl⟩ := Option.map_eq_some_iff.mp present
  have sound : group.Sound policy.order := policed.valid_of_get? found
  exact sound.ascending.split value

/-- What a change over a backend that does not fail comes to. -/
theorem made
    (policed : table.Policed tree policy)
    (reliable : backend.Reliable)
    (change : TableChange Key Value) :
    (change.apply table backend).1.1 = (change.applyToMap table.spec table.groups).1 ∧
      (change.apply table backend).1.2.groups =
          (change.applyToMap table.spec table.groups).2 ∧
        (change.apply table backend).1.2.spec = table.spec ∧
          (change.apply table backend).2.Reliable := by
  have ensures : Ensures .reliable (change.apply table) fun _ => True :=
    (policed.performs_apply change).ensures fun _ _ _ => trivial
  obtain ⟨⟨_, spec_eq⟩, ends⟩ := (policed.performs_apply change).post_eventsOf reliable
  cases ends with
  | made answer_eq groups_eq =>
      exact ⟨answer_eq, groups_eq, spec_eq, (ensures backend reliable).2⟩
  | refused mayFail =>
      exact mayFail.elim
  | uncounted mayFail =>
      exact mayFail.elim
  | unreleased mayFail =>
      exact mayFail.elim

/-- The number of values under a key is an account of the changes that tell of one. -/
theorem countUnder_apply
    (policed : table.Policed tree policy)
    (reliable : backend.Reliable)
    {change : TableChange Key Value}
    {key : Key}
    (spares : change.Spares table.keyOrder key) :
    let outcome := (change.apply table backend).1
    outcome.2.countUnder key +
        (TableChange.takes table.keyOrder key (change, outcome.1)).toNat =
      table.countUnder key +
        (TableChange.gives table.keyOrder key (change, outcome.1)).toNat := by
  intro outcome
  have lawful := policed.lawful
  obtain ⟨other, after⟩ := policed.apply change backend
  obtain ⟨answer_eq, groups_eq, spec_eq, _⟩ := policed.made reliable change
  have count_eq (key : Key) :
      outcome.2.countUnder key =
        table.spec.countOf (change.applyToMap table.spec table.groups).2 key := by
    rw [countUnder, groups_eq, spec_eq]
  by_cases equal : table.keyOrder change.key key = .eq
  · -- The account is kept for the key that the change names, which is as good.
    have same : table.spec.keys change.key key = .eq := equal
    rw [count_eq, countUnder, ← TableSpec.countOf_congr same, ← TableSpec.countOf_congr same,
      show outcome.1 = (change.applyToMap table.spec table.groups).1 from answer_eq]
    cases change with
    | put stored value =>
        have isKey : table.keyOrder stored key = .eq := equal
        have counted :=
          TableSpec.countOf_put policed.spec_kind policed.ordered
            (policed.split_valuesOf? stored) value
        obtain ⟨gives_eq, takes_eq⟩ :=
          TableChange.gives_put isKey value (table.spec.put table.groups stored value).1
        simp only [TableChange.applyToMap, TableChange.key, gives_eq, takes_eq]
        exact counted
    | remove stored =>
        exact (spares equal).elim
    | removeValue stored value =>
        have isKey : table.keyOrder stored key = .eq := equal
        obtain ⟨removed, answer, counted⟩ :=
          TableSpec.countOf_removeValue policed.spec_kind (policed.split_valuesOf? stored) value
        obtain ⟨takes_eq, gives_eq⟩ := TableChange.takes_removeValue isKey value removed
        simp only [TableChange.applyToMap, TableChange.key, answer, gives_eq, takes_eq]
        exact counted
  · obtain ⟨gives_eq, takes_eq⟩ := TableChange.gives_takes_other equal outcome.1
    have others := (policed.followsPolicy change backend).others key equal
    rw [gives_eq, takes_eq, policed.countUnder_eq, after.countUnder_eq, others]

/-- Over a whole run, too, the number of values under a key is such an account. -/
theorem countUnder_run
    (policed : table.Policed tree policy)
    (reliable : backend.Reliable)
    {changes : List (TableChange Key Value)}
    {key : Key}
    (spare : ∀ change ∈ changes, change.Spares table.keyOrder key) :
    let outcome := (TableChange.run table changes backend).1
    let told := changes.zip outcome.1
    outcome.2.countUnder key + told.countP (TableChange.takes table.keyOrder key) =
        table.countUnder key + told.countP (TableChange.gives table.keyOrder key) ∧
      (∃ other, outcome.2.Policed other policy) ∧ outcome.2.keyOrder = table.keyOrder := by
  induction changes generalizing table tree backend with
  | nil =>
      exact ⟨rfl, ⟨tree, policed⟩, rfl⟩
  | cons change rest inductionHypothesis =>
      obtain ⟨sparesFirst, spareRest⟩ := List.forall_mem_cons.mp spare
      obtain ⟨_, _, spec_eq, staysReliable⟩ := policed.made reliable change
      obtain ⟨_, after⟩ := policed.apply change backend
      have order_eq : (change.apply table backend).1.2.keyOrder = table.keyOrder :=
        congrArg TableSpec.keys spec_eq
      have first := policed.countUnder_apply reliable sparesFirst
      rw [← order_eq] at spareRest
      obtain ⟨later, laterPoliced, laterOrder⟩ :=
        inductionHypothesis after staysReliable spareRest
      refine ⟨?_, laterPoliced, laterOrder.trans order_eq⟩
      rw [order_eq] at later
      have run_eq :
          (TableChange.run table (change :: rest) backend).1 =
            ((change.apply table backend).1.1 ::
                (TableChange.run (change.apply table backend).1.2 rest
                  (change.apply table backend).2).1.1,
              (TableChange.run (change.apply table backend).1.2 rest
                (change.apply table backend).2).1.2) :=
        rfl
      have counted (condition : Bool) : (if condition then 1 else 0) = condition.toNat := by
        cases condition <;> rfl
      rw [run_eq]
      simp only [List.zip_cons_cons, List.countP_cons, counted]
      dsimp only at first
      omega

end Table.Policed

/-! ## Moves and moves back -/

/-- The move that takes a group back. -/
def Relocation.opposite : Relocation → Relocation
  | .promotion => .demotion
  | .demotion => .promotion

namespace TableChange

/-- A change under a key moves its group, as the counter of such moves shows. -/
def Moves
    (table : Table Key Value)
    (backend : Backend)
    (kind : Relocation)
    (key : Key)
    (change : TableChange Key Value) :
    Prop :=
  table.keyOrder change.key key = .eq ∧
    backend.tally kind < (change.apply table backend).2.tally kind

/-- The changes that bring a group nearer to the move back: removals, or else additions. -/
def undoes (order : Order Key) (key : Key) :
    Relocation → TableChange Key Value × Except IndexError Bool → Bool
  | .promotion => takes order key
  | .demotion => gives order key

/--
A run over a backend that does not fail: its first change moves the group under a
key, its last one moves it back, and none in between removes the key as a whole.
-/
structure Flaps
    (table : Table Key Value)
    (backend : Backend)
    (key : Key)
    (kind : Relocation)
    (first : TableChange Key Value)
    (between : List (TableChange Key Value))
    (last : TableChange Key Value) :
    Prop where
  reliable : backend.Reliable
  moves : first.Moves table backend kind key
  spare : ∀ change ∈ between, change.Spares table.keyOrder key
  movesBack :
    last.Moves (run table (first :: between) backend).1.2
      (run table (first :: between) backend).2 kind.opposite key

/-- The changes after the first one of a run, with their answers. -/
def toldAfter
    (table : Table Key Value)
    (backend : Backend)
    (first : TableChange Key Value)
    (changes : List (TableChange Key Value)) :
    List (TableChange Key Value × Except IndexError Bool) :=
  changes.zip (run (first.apply table backend).1.2 changes (first.apply table backend).2).1.1

/-- A run ends with its last change. -/
theorem run_concat
    (table : Table Key Value)
    (backend : Backend)
    (changes : List (TableChange Key Value))
    (last : TableChange Key Value) :
    (run table (changes ++ [last]) backend).1.2 =
      (last.apply (run table changes backend).1.2 (run table changes backend).2).1.2 := by
  induction changes generalizing table backend with
  | nil =>
      rfl
  | cons change rest inductionHypothesis =>
      exact inductionHypothesis (change.apply table backend).1.2 (change.apply table backend).2

end TableChange

namespace Table.Policed

variable
  {table : Table Key Value}
  {tree : OrderedTree Key (Group Value)}
  {policy : DuplicatePolicy Value}
  {backend : Backend}
  {change : TableChange Key Value}
  {kind : Relocation}
  {key : Key}

/-- Only the move that a change is to make raises a counter. -/
theorem moved?_eq_some
    (policed : table.Policed tree policy)
    (raised : backend.tally kind < (change.apply table backend).2.tally kind) :
    change.moved? policy table (change.apply table backend).1.1 = some kind := by
  rw [(policed.followsPolicy change backend).tally_eq kind] at raised
  cases moved : change.moved? policy table (change.apply table backend).1.1 with
  | none =>
      simp [moved] at raised
  | some made =>
      by_cases same : made = kind
      · rw [same]
      · simp [moved, same] at raised

/-- A change that moves the group under a key does not remove the key. -/
theorem spares_of_moves
    (policed : table.Policed tree policy)
    (moves : change.Moves table backend kind key) :
    change.Spares table.keyOrder key := by
  have moved := policed.moved?_eq_some moves.2
  cases change with
  | put key value =>
      trivial
  | remove other =>
      cases answer : ((TableChange.remove other).apply table backend).1.1 <;>
        simp [TableChange.moved?, TableChange.move?, answer] at moved
  | removeValue key value =>
      trivial

/-- What a change that moves the group under a key does to the number of values there. -/
theorem countUnder_of_moves
    (policed : table.Policed tree policy)
    (moves : change.Moves table backend kind key) :
    match kind with
    | .promotion =>
        (change.apply table backend).1.2.countUnder key = policy.promoteAbove + 1
    | .demotion => (change.apply table backend).1.2.countUnder key < policy.demoteBelow := by
  obtain ⟨other, after⟩ := policed.apply change backend
  obtain ⟨⟨_, spec_eq⟩, _⟩ := policed.toIntact.ends change backend
  have order_eq : (change.apply table backend).1.2.keyOrder = table.keyOrder :=
    congrArg TableSpec.keys spec_eq
  have equal : (change.apply table backend).1.2.keyOrder change.key key = .eq := by
    rw [order_eq]
    exact moves.1
  have rearranged := (policed.followsPolicy change backend).rearranged
  rw [policed.moved?_eq_some moves.2] at rearranged
  rw [← after.countUnder_congr equal, after.countUnder_eq]
  generalize (change.apply table backend).1.2.group? change.key = after? at rearranged ⊢
  generalize table.group? change.key = before? at rearranged
  cases rearranged with
  | promoted _ _ _ grown =>
      exact grown
  | demoted _ _ _ small =>
      exact small
  | demotedAway _ _ small =>
      exact small

end Table.Policed

namespace Table.ReachableSucceeding

variable
  {config : TableConfig}
  {order : Order Value}
  {succeeded : Bool}
  {table : Table Key Value}

/--
Between a promotion of a group and a demotion of it lie the removals of more than
half of the limit's values, the last of them the demotion itself, and between a
demotion and a promotion as many additions.  A group with a limit of one is never
demoted.
-/
theorem no_flapping (reachable : ReachableSucceeding config order succeeded table) :
    (∀ (backend : Backend) (key : Key) (kind : Relocation) (first last : TableChange Key Value)
        (between : List (TableChange Key Value)),
        TableChange.Flaps table backend key kind first between last →
        (config.duplicateLimit + 1) / 2 + 2 ≤
          (TableChange.toldAfter table backend first (between ++ [last])).countP
            (TableChange.undoes table.keyOrder key kind)) ∧
      (config.duplicateLimit = 1 →
        ∀ (change : TableChange Key Value) (backend : Backend),
          (change.apply table backend).2.tally .demotion = backend.tally .demotion) := by
  obtain ⟨tree, policed, _⟩ := reachable.policed
  constructor
  · intro backend key kind first last between flaps
    obtain ⟨_, _, spec_eq, afterReliable⟩ := policed.made flaps.reliable first
    obtain ⟨_, after⟩ := policed.apply first backend
    have order_eq : (first.apply table backend).1.2.keyOrder = table.keyOrder :=
      congrArg TableSpec.keys spec_eq
    have spare :
        ∀ change ∈ between, change.Spares (first.apply table backend).1.2.keyOrder key := by
      rw [order_eq]
      exact flaps.spare
    have movesBack :
        last.Moves
          (TableChange.run (first.apply table backend).1.2 between
            (first.apply table backend).2).1.2
          (TableChange.run (first.apply table backend).1.2 between
            (first.apply table backend).2).2
          kind.opposite key :=
      flaps.movesBack
    obtain ⟨_, ⟨_, met⟩, metOrder⟩ := after.countUnder_run afterReliable spare
    have lastSpares := met.spares_of_moves movesBack
    rw [metOrder] at lastSpares
    have account :=
      (after.countUnder_run afterReliable
        (List.forall_mem_append.mpr ⟨spare, List.forall_mem_singleton.mpr lastSpares⟩)).1
    have moved := policed.countUnder_of_moves flaps.moves
    have movedBack := met.countUnder_of_moves movesBack
    rw [TableChange.run_concat, order_eq] at account
    cases kind with
    | promotion =>
        simp only [Relocation.opposite, TableConfig.policy] at moved movedBack
        simp only [TableChange.toldAfter, TableChange.undoes]
        omega
    | demotion =>
        simp only [Relocation.opposite, TableConfig.policy] at moved movedBack
        simp only [TableChange.toldAfter, TableChange.undoes]
        omega
  · intro single change backend
    have lawful : Std.TransCmp table.keyOrder := policed.lawful
    refine Nat.le_antisymm (Nat.le_of_not_lt ?_) ?_
    · -- A demotion would have to leave fewer values than none.
      intro raised
      have left := policed.countUnder_of_moves ⟨Std.ReflCmp.compare_self, raised⟩
      simp [TableConfig.policy, single] at left
    · rw [(policed.followsPolicy change backend).tally_eq]
      exact Nat.le_add_right _ _

/-- With a limit of two, three removals take a group of three back, and no fewer would do. -/
theorem no_flapping_pair :
    ∃ full : Table Nat Nat,
      ReachableSucceeding ⟨"t", true, 2, none, none⟩ (Order.byRank id) true full ∧
        TableChange.Flaps full (.memory 1 .empty) 1 .promotion (.put 1 30)
            [.removeValue 1 10, .put 2 10, .removeValue 1 20] (.removeValue 1 30) ∧
          3 ≤
            (TableChange.toldAfter full (.memory 1 .empty) (.put 1 30)
                [.removeValue 1 10, .put 2 10, .removeValue 1 20, .removeValue 1 30]).countP
              (TableChange.undoes full.keyOrder 1 .promotion) := by
  have opened :=
    ReachableSucceeding.opened rfl inferInstance inferInstance
      (rfl :
        (new ⟨"t", true, 2, none, none⟩ (Order.byRank (id : Nat → Nat))
            (some (Order.byRank (id : Nat → Nat))) (.memory 1 .empty)).1 =
          .ok _)
  have full := opened.run (.memory 1 .empty) [.put 1 10, .put 1 20] (by decide +kernel)
  refine ⟨_, full, ?flaps, (no_flapping full).1 _ _ _ _ _ _ ?flaps⟩
  exact {
    reliable := .inl rfl
    moves := ⟨by decide +kernel, by decide +kernel⟩
    spare := by simp [TableChange.Spares]
    movesBack := ⟨by decide +kernel, by decide +kernel⟩ }

end Table.ReachableSucceeding

end OrderedIndex

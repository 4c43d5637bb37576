import OrderedIndex.Proofs.Table.Change

namespace OrderedIndex

/-!
# Questions about a table

Over stores that do not fail, everything that can be asked of a sound table is
answered by its map.
-/

variable {Key Value : Type}

/-- The values of every key are as the kind of table has them. -/
def TableKind.Admits (kind : TableKind Value) (values : List Value) : Prop :=
  match kind with
  | .unique _ => values.length = 1
  | .duplicates order => values ≠ [] ∧ Order.Ascending order values

/-- Under every key there are as many values as its kind of table admits, one at least. -/
theorem TableKind.Admits.length_pos
    {kind : TableKind Value}
    {values : List Value}
    (admits : kind.Admits values) :
    0 < values.length := by
  cases kind with
  | unique order? =>
      have single : values.length = 1 := admits
      rw [single]
      exact Nat.one_pos
  | duplicates order =>
      exact List.length_pos_iff.mpr admits.1

/-- All questions about a table are answered by a map of the given kind. -/
structure Table.Presents
    (table : Table Key Value)
    (spec : TableSpec Key Value)
    (map : Multimap Key Value) :
    Prop where
  ordered : spec.Ordered map
  admitted : ∀ pair ∈ map, spec.kind.Admits pair.2
  toList_eq : table.toList = TableSpec.tuples map
  count_eq : table.count = TableSpec.size map
  keyCount_eq : table.keyCount = map.length
  isEmpty_eq : table.isEmpty = map.isEmpty
  has_eq : ∀ key, table.has key = (spec.valuesOf? map key).isSome
  get_eq : ∀ key, table.get key = spec.get map key
  hasAtLeast_eq :
    ∀ key, table.hasAtLeast key = map.any fun pair => spec.probe key pair != .gt
  hasAtMost_eq :
    ∀ key, table.hasAtMost key = map.any fun pair => spec.probe key pair != .lt
  countKey_eq :
    ∀ key,
      Ensures .reliable (table.countKey key) fun answer =>
        answer = .ok (((spec.valuesOf? map key).map List.length).getD 0)
  hasValue_eq :
    ∀ key value,
      Ensures .reliable (table.hasValue key value) fun answer =>
        answer =
          spec.askValues map key value fun probe values =>
            (Order.lookup? probe values).isSome
  hasValueAtLeast_eq :
    ∀ key value,
      Ensures .reliable (table.hasValueAtLeast key value) fun answer =>
        answer =
          spec.askValues map key value fun probe values =>
            values.any fun stored => probe stored != .gt
  hasValueAtMost_eq :
    ∀ key value,
      Ensures .reliable (table.hasValueAtMost key value) fun answer =>
        answer =
          spec.askValues map key value fun probe values =>
            values.any fun stored => probe stored != .lt

namespace Table

variable {table : Table Key Value}

/-! ## Questions about keys -/

/-- The tuples of a table are those of its map. -/
theorem toList_eq_tuples : table.toList = TableSpec.tuples table.groups := by
  unfold toList groups TableSpec.tuples
  cases table.entries with
  | unique tree =>
      rw [Entries.groups, OrderedTree.groupsBy, List.flatMap_map]
      simp
  | duplicates tree policy =>
      rw [Entries.groups, OrderedTree.groupsBy, List.flatMap_map]

namespace Sound

/-- What holds of an answer in whatever form values are stored holds of the table's answer. -/
theorem ask
    (sound : table.Sound)
    {Answer : Type}
    {question : {Stored : Type} → OrderedTree Key Stored → Answer}
    (property : Answer → Prop)
    (answers :
      ∀ {Stored : Type} {tree : OrderedTree Key Stored}
        {wrap : OrderedTree Key Stored → Entries Key Value}
        {values : Stored → List Value} {valid : Stored → Prop},
        StoredAs table tree wrap values valid → property (question tree)) :
    property (table.entries.ask question) := by
  cases entries : table.entries with
  | unique tree =>
      exact answers (storedAs_unique sound entries)
  | duplicates tree policy =>
      exact answers (storedAs_duplicates sound entries)

/-- A table counts the keys of its map. -/
theorem keyCount_eq (sound : table.Sound) : table.keyCount = table.groups.length :=
  sound.ask (· = _) fun stored => stored.size_eq_length

/-- A table has the keys under which its map has values. -/
theorem has_eq
    (sound : table.Sound)
    (key : Key) :
    table.has key = (table.spec.valuesOf? table.groups key).isSome :=
  sound.ask (fun found => Option.isSome found = _) fun stored => stored.find?_isSome key

/-- A table has a key at or above the sought one if its map does. -/
theorem hasAtLeast_eq
    (sound : table.Sound)
    (key : Key) :
    table.hasAtLeast key = table.groups.any fun pair => table.spec.probe key pair != .gt :=
  sound.ask (fun found => Option.isSome found = _)
    fun stored => stored.findAtLeast?_isSome key

/-- A table has a key at or below the sought one if its map does. -/
theorem hasAtMost_eq
    (sound : table.Sound)
    (key : Key) :
    table.hasAtMost key = table.groups.any fun pair => table.spec.probe key pair != .lt :=
  sound.ask (fun found => Option.isSome found = _)
    fun stored => stored.findAtMost?_isSome key

/-- The value under a key is that of the map, and no single one where keys may have several. -/
theorem get_eq
    (sound : table.Sound)
    (key : Key) :
    table.get key = table.spec.get table.groups key := by
  unfold get
  cases entries : table.entries with
  | unique tree =>
      have valuesOf := (storedAs_unique sound entries).valuesOf?_eq key
      simp only [TableSpec.get, kind_unique entries, valuesOf]
      cases tree.get? key <;> rfl
  | duplicates tree policy =>
      obtain ⟨kind_eq, _⟩ := sound.lawfulPolicy entries
      simp only [TableSpec.get, kind_eq]
      rfl

/-- The values under a key are as many as the kind of table admits. -/
theorem admitted
    (sound : table.Sound)
    (pair : Key × List Value)
    (member : pair ∈ table.groups) :
    table.spec.kind.Admits pair.2 := by
  cases entries : table.entries with
  | unique tree =>
      rw [(storedAs_unique sound entries).groups_table] at member
      obtain ⟨stored, _, rfl⟩ := List.mem_map.mp member
      rw [kind_unique entries]
      rfl
  | duplicates tree policy =>
      have stored := storedAs_duplicates sound entries
      have allValid := stored.allValid
      obtain ⟨kind_eq, _⟩ := sound.lawfulPolicy entries
      rw [stored.groups_table] at member
      obtain ⟨inTree, treeMember, rfl⟩ := List.mem_map.mp member
      obtain ⟨groupSound, nonempty⟩ := allValid inTree treeMember
      rw [kind_eq]
      exact ⟨nonempty, groupSound.ascending⟩

/-- No key is without values, so a table without tuples is one without keys. -/
theorem isEmpty_eq (sound : table.Sound) : table.isEmpty = table.groups.isEmpty := by
  rw [isEmpty, sound.counted]
  have admitted := sound.admitted
  cases groups : table.groups with
  | nil =>
      rfl
  | cons pair rest =>
      rw [groups] at admitted
      have someValues := (admitted pair List.mem_cons_self).length_pos
      rw [TableSpec.size_cons, List.isEmpty_cons, beq_eq_false_iff_ne]
      omega

/-! ## Questions about values -/

/-- Without failures the values under a key are counted as they are in the map. -/
theorem countKey_eq
    (sound : table.Sound)
    (key : Key) :
    Ensures .reliable (table.countKey key) fun answer =>
      answer = .ok (((table.spec.valuesOf? table.groups key).map List.length).getD 0) := by
  unfold countKey Entries.ask groupSize
  cases entries : table.entries with
  | unique tree =>
      have stored := storedAs_unique sound entries
      have treeSound := stored.treeSound
      rw [stored.valuesOf?_eq]
      dsimp only
      cases treeSound.sought key with
      | present id value found holds get?_eq =>
          rw [found, get?_eq]
          exact Ensures.pure rfl
      | absent missing get?_eq =>
          rw [missing, get?_eq]
          exact Ensures.pure rfl
  | duplicates tree policy =>
      have stored := storedAs_duplicates sound entries
      have treeSound := stored.treeSound
      rw [stored.valuesOf?_eq]
      dsimp only
      cases treeSound.sought key with
      | present id group found holds get?_eq =>
          obtain ⟨groupSound, _⟩ := stored.valid_of_get? get?_eq
          rw [found, get?_eq]
          dsimp only
          rw [holds]
          exact (Group.ensures_size groupSound).weaken fun _ => Regime.eq_ok_of_reliable
      | absent missing get?_eq =>
          rw [missing, get?_eq]
          exact Ensures.pure rfl

/-- One question, put to a stored value, to a group or to the reference. -/
theorem ensures_askValues
    (sound : table.Sound)
    (key : Key)
    (value : Value)
    {compare : Order Value → Value → Bool}
    {question : Group Value → StoreM (Except IndexError Bool)}
    {asked : (Value → Ordering) → List Value → Bool}
    (ofStored :
      ∀ (order : Order Value) (stored : Value),
        Std.TransCmp order → compare order stored = asked (order value) [stored])
    (ofGroup :
      ∀ (order : Order Value) (group : Group Value),
        Std.TransCmp order →
        group.Sound order →
        Ensures .reliable (question group)
          (Regime.reliable.Tells (asked (order value) group.toList))) :
    Ensures .reliable (table.askValues key compare question) fun answer =>
      answer = table.spec.askValues table.groups key value asked := by
  unfold askValues
  cases entries : table.entries with
  | unique tree =>
      have valuesOf := (storedAs_unique sound entries).valuesOf?_eq key
      have kind_eq := kind_unique entries
      dsimp only
      rw [requireValueOrder]
      simp only [TableSpec.askValues, kind_eq, TableKind.order?, valuesOf]
      cases ordered : table.valueOrder? with
      | none =>
          exact Ensures.pure rfl
      | some order =>
          have lawful : Std.TransCmp order := by
            refine sound.lawfulValues order ?_
            rw [kind_eq]
            exact ordered
          refine Ensures.pure (congrArg _ ?_)
          rw [Option.any_map]
          cases tree.get? key with
          | none =>
              rfl
          | some stored =>
              exact ofStored order stored lawful
  | duplicates tree policy =>
      have stored := storedAs_duplicates sound entries
      have valuesOf := stored.valuesOf?_eq key
      obtain ⟨kind_eq, lawful⟩ := sound.lawfulPolicy entries
      simp only [TableSpec.askValues, kind_eq, TableKind.order?, valuesOf]
      cases get?_eq : tree.get? key with
      | none =>
          exact Ensures.pure rfl
      | some group =>
          obtain ⟨groupSound, _⟩ := stored.valid_of_get? get?_eq
          exact (ofGroup policy.order group lawful groupSound).weaken fun _ =>
            Regime.eq_ok_of_reliable

/-- Without failures a value is found if an equal one is under the key. -/
theorem hasValue_eq
    (sound : table.Sound)
    (key : Key)
    (value : Value) :
    Ensures .reliable (table.hasValue key value) fun answer =>
      answer =
        table.spec.askValues table.groups key value fun probe values =>
          (Order.lookup? probe values).isSome := by
  refine sound.ensures_askValues key value ?_ ?_
  · intro order stored lawful
    have swapped : order stored value = (order value stored).swap := Std.OrientedCmp.eq_swap
    rw [swapped, Order.lookup?]
    cases equal : order value stored <;> simp [equal]
  · intro order group lawful groupSound
    exact Group.ensures_contains groupSound value

/-- Without failures a value at or above the sought one is found as in the map. -/
theorem hasValueAtLeast_eq
    (sound : table.Sound)
    (key : Key)
    (value : Value) :
    Ensures .reliable (table.hasValueAtLeast key value) fun answer =>
      answer =
        table.spec.askValues table.groups key value fun probe values =>
          values.any fun stored => probe stored != .gt := by
  refine sound.ensures_askValues key value ?_ ?_
  · intro order stored lawful
    have swapped : order stored value = (order value stored).swap := Std.OrientedCmp.eq_swap
    simp only [swapped, List.any_cons, List.any_nil, Bool.or_false]
    cases order value stored <;> rfl
  · intro order group lawful groupSound
    exact Group.ensures_hasAtLeast groupSound value

/-- Without failures a value at or below the sought one is found as in the map. -/
theorem hasValueAtMost_eq
    (sound : table.Sound)
    (key : Key)
    (value : Value) :
    Ensures .reliable (table.hasValueAtMost key value) fun answer =>
      answer =
        table.spec.askValues table.groups key value fun probe values =>
          values.any fun stored => probe stored != .lt := by
  refine sound.ensures_askValues key value ?_ ?_
  · intro order stored lawful
    have swapped : order stored value = (order value stored).swap := Std.OrientedCmp.eq_swap
    simp only [swapped, List.any_cons, List.any_nil, Bool.or_false]
    cases order value stored <;> rfl
  · intro order group lawful groupSound
    exact Group.ensures_hasAtMost groupSound value

/-- A sound table presents its own map. -/
theorem presents (sound : table.Sound) : table.Presents table.spec table.groups where
  ordered := sound.ordered
  admitted := sound.admitted
  toList_eq := toList_eq_tuples
  count_eq := sound.counted
  keyCount_eq := sound.keyCount_eq
  isEmpty_eq := sound.isEmpty_eq
  has_eq := sound.has_eq
  get_eq := sound.get_eq
  hasAtLeast_eq := sound.hasAtLeast_eq
  hasAtMost_eq := sound.hasAtMost_eq
  countKey_eq := sound.countKey_eq
  hasValue_eq := sound.hasValue_eq
  hasValueAtLeast_eq := sound.hasValueAtLeast_eq
  hasValueAtMost_eq := sound.hasValueAtMost_eq

end Sound

end Table

end OrderedIndex

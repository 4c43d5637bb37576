import OrderedIndex.Proofs.Table.Counts
import OrderedIndex.Proofs.Table.Navigation

namespace OrderedIndex

/-!
# Duplicate limits are out of sight

Two tables that differ only in their duplicate limits move groups into stores
and back at different moments.  Over stores that do not fail, nothing else
tells them apart: both are read as the same map.
-/

variable {Key Value : Type}

namespace Table

/-- Open a cursor over the values of a key and make moves with it. -/
def runValues (table : Table Key Value) (key : Key) (moves : List (Move Value)) :
    StoreM (Except IndexError (List (Cursor.Observation Value))) := do
  match ← table.valueCursor key with
  | .ok cursor => return .ok (← Cursor.run cursor moves).1
  | .error cause => return .error cause

/-- All questions about two tables, each over its own backend, have the same answers. -/
structure AnswersAlike
    (first second : Table Key Value)
    (firstBackend secondBackend : Backend) :
    Prop where
  name_eq : first.name = second.name
  keyOrder_eq : first.keyOrder = second.keyOrder
  valueOrder?_eq : first.valueOrder? = second.valueOrder?
  allowsDuplicates_eq : first.allowsDuplicates = second.allowsDuplicates
  toList_eq : first.toList = second.toList
  count_eq : first.count = second.count
  keyCount_eq : first.keyCount = second.keyCount
  isEmpty_eq : first.isEmpty = second.isEmpty
  get_eq : ∀ key, first.get key = second.get key
  has_eq : ∀ key, first.has key = second.has key
  hasAtLeast_eq : ∀ key, first.hasAtLeast key = second.hasAtLeast key
  hasAtMost_eq : ∀ key, first.hasAtMost key = second.hasAtMost key
  hasValue_eq :
    ∀ key value,
      (first.hasValue key value firstBackend).1 = (second.hasValue key value secondBackend).1
  hasValueAtLeast_eq :
    ∀ key value,
      (first.hasValueAtLeast key value firstBackend).1 =
        (second.hasValueAtLeast key value secondBackend).1
  hasValueAtMost_eq :
    ∀ key value,
      (first.hasValueAtMost key value firstBackend).1 =
        (second.hasValueAtMost key value secondBackend).1
  countKey_eq :
    ∀ key, (first.countKey key firstBackend).1 = (second.countKey key secondBackend).1
  countAbove_eq :
    ∀ key, (first.countAbove key firstBackend).1 = (second.countAbove key secondBackend).1
  countBelow_eq :
    ∀ key, (first.countBelow key firstBackend).1 = (second.countBelow key secondBackend).1
  isCountExact_eq :
    firstBackend.exact = secondBackend.exact →
    (first.isCountExact firstBackend).1 = (second.isCountExact secondBackend).1
  /-- Cursors over the tuples show the same along every sequence of moves. -/
  cursor_eq :
    ∀ moves,
      (TableMove.run first.cursor moves firstBackend).1.1 =
        (TableMove.run second.cursor moves secondBackend).1.1
  /-- Cursors over the values of a key show the same along every sequence of moves. -/
  valueCursor_eq :
    ∀ key moves,
      (first.runValues key moves firstBackend).1 = (second.runValues key moves secondBackend).1
  close_eq : (first.close firstBackend).1 = (second.close secondBackend).1

variable {table : Table Key Value}

namespace Sound

theorem order?_eq (sound : table.Sound) : table.spec.kind.order? = table.valueOrder? := by
  cases entries : table.entries with
  | unique tree =>
      rw [kind_unique entries]
      rfl
  | duplicates tree policy =>
      obtain ⟨kind_eq, _⟩ := sound.lawfulPolicy entries
      have contents := sound.contents
      rw [entries] at contents
      rw [kind_eq, contents.2.2.1]
      rfl

/-! ## Cursors -/

/-- Table cursors show the positions of a list of tuples. -/
theorem ensures_run_cursor
    (sound : table.Sound)
    (moves : List (TableMove Key Value)) :
    Ensures .reliable (TableMove.run table.cursor moves) fun outcome =>
      outcome.1 =
        (TableMove.runOnList table.spec (table.toList.map Tuple.ofPair) moves).1 := by
  obtain ⟨stops, chain⟩ := sound.chain
  rw [← chain.listing_eq]
  exact TableMove.ensures_run chain sound (TableCursor.stands_cursor stops) moves

/-- A value cursor opens in front of the values of its key. -/
theorem ensures_valueCursor
    (sound : table.Sound)
    (key : Key) :
    Ensures .reliable (table.valueCursor key) fun
      | .ok cursor =>
          ValueCursor.Stands table.spec.valueOrder
            ((table.spec.valuesOf? table.groups key).getD []) cursor (.gap 0)
      | .error _ => False := by
  unfold valueCursor valuesAt Entries.ask
  cases entries : table.entries with
  | unique tree =>
      have stored := storedAs_unique sound entries
      have treeSound := stored.treeSound
      rw [stored.valuesOf?_eq]
      dsimp only
      cases treeSound.sought key with
      | present id value found holds get?_eq =>
          rw [found, get?_eq]
          dsimp only
          rw [holds]
          refine Ensures.pure (.single rfl ?_)
          rw [TableSpec.valueOrder, kind_unique entries]
          rfl
      | absent missing get?_eq =>
          rw [missing, get?_eq]
          exact Ensures.pure (.empty rfl)
  | duplicates tree policy =>
      have stored := storedAs_duplicates sound entries
      have treeSound := stored.treeSound
      obtain ⟨kind_eq, _⟩ := sound.lawfulPolicy entries
      have order_eq : table.spec.valueOrder = policy.order := by
        rw [TableSpec.valueOrder, kind_eq]
        rfl
      rw [stored.valuesOf?_eq]
      dsimp only
      cases treeSound.sought key with
      | present id group found holds get?_eq =>
          obtain ⟨groupSound, _⟩ := stored.valid_of_get? get?_eq
          rw [found, get?_eq, order_eq]
          dsimp only
          rw [holds]
          exact ValueCursor.ensures_ofGroup groupSound
      | absent missing get?_eq =>
          rw [missing, get?_eq]
          exact Ensures.pure (.empty rfl)

/-- Value cursors show the positions of the list of values of their key. -/
theorem ensures_runValues
    (sound : table.Sound)
    (key : Key)
    (moves : List (Move Value)) :
    Ensures .reliable (table.runValues key moves) fun answer =>
      answer =
        .ok
          (Position.run ((table.spec.valuesOf? table.groups key).getD [])
            (Position.perform table.spec.valueOrder
              ((table.spec.valuesOf? table.groups key).getD []))
            (.gap 0) moves).1 := by
  have lawful := sound.lawfulValueOrder
  refine Ensures.bind (sound.ensures_valueCursor key) ?_
  rintro (cause | cursor) opened
  · exact opened.elim
  · refine Ensures.bind (ValueCursor.follows.run opened moves) ?_
    rintro outcome ⟨observed, -⟩
    exact Ensures.pure (congrArg Except.ok observed)

end Sound

/-! ## Closing -/

theorem ensures_closeGroups (name : String) (groups : List (Group Value)) :
    Ensures .reliable (closeGroups name (.ok ()) groups) fun answer => answer = .ok () := by
  induction groups with
  | nil =>
      exact Ensures.pure rfl
  | cons group rest inductionHypothesis =>
      exact Ensures.bind_tells group.ensures_close inductionHypothesis

theorem ensures_close (table : Table Key Value) :
    Ensures .reliable table.close fun answer => answer = .ok () := by
  refine Ensures.bind (ensures_closeGroups table.name _) ?_
  rintro answer rfl
  exact Ensures.bind (Backend.ensures_record _) fun _ _ => Ensures.pure rfl

/-! ## Tables of the same map -/

/-- A group of values or a single one: the kind of a table says which. -/
theorem allowsDuplicates_eq (table : Table Key Value) :
    table.allowsDuplicates =
      match table.spec.kind with
      | .unique _ => false
      | .duplicates _ => true := by
  unfold allowsDuplicates
  cases entries : table.entries <;> simp [spec, entries, Entries.kind]

theorem isCountExact_eq (table : Table Key Value) (backend : Backend) :
    (table.isCountExact backend).1 = (!table.allowsDuplicates || backend.exact) := by
  unfold isCountExact allowsDuplicates
  cases table.entries <;> rfl

/-- What both of two computations are sure to answer is the same answer. -/
theorem answer_eq_of_ensures
    {Answer : Type}
    {first second : StoreM Answer}
    {expected : Answer}
    {firstBackend secondBackend : Backend}
    (firstEnsures : Ensures .reliable first fun answer => answer = expected)
    (secondEnsures : Ensures .reliable second fun answer => answer = expected)
    (firstReliable : firstBackend.Reliable)
    (secondReliable : secondBackend.Reliable) :
    (first firstBackend).1 = (second secondBackend).1 :=
  (firstEnsures firstBackend firstReliable).1.trans
    (secondEnsures secondBackend secondReliable).1.symm

/-- Sound tables that are read as the same map answer alike. -/
theorem Sound.answersAlike
    {first second : Table Key Value}
    (firstSound : first.Sound)
    (secondSound : second.Sound)
    (spec_eq : second.spec = first.spec)
    (groups_eq : second.groups = first.groups)
    {firstBackend secondBackend : Backend}
    (firstReliable : firstBackend.Reliable)
    (secondReliable : secondBackend.Reliable) :
    first.AnswersAlike second firstBackend secondBackend := by
  have presents := firstSound.presents
  have others := secondSound.presents
  rw [spec_eq, groups_eq] at others
  have listed : first.toList = second.toList := by
    rw [presents.toList_eq, others.toList_eq]
  have sameKind : first.allowsDuplicates = second.allowsDuplicates := by
    rw [allowsDuplicates_eq, allowsDuplicates_eq, spec_eq]
  have alike
      {Answer : Type}
      {firstAsks secondAsks : StoreM Answer}
      {expected : Answer}
      (firstEnsures : Ensures .reliable firstAsks fun answer => answer = expected)
      (secondEnsures : Ensures .reliable secondAsks fun answer => answer = expected) :
      (firstAsks firstBackend).1 = (secondAsks secondBackend).1 :=
    answer_eq_of_ensures firstEnsures secondEnsures firstReliable secondReliable
  refine {
    name_eq := congrArg TableSpec.name spec_eq.symm
    keyOrder_eq := congrArg TableSpec.keys spec_eq.symm
    valueOrder?_eq := ?_
    allowsDuplicates_eq := sameKind
    toList_eq := listed
    count_eq := presents.count_eq.trans others.count_eq.symm
    keyCount_eq := presents.keyCount_eq.trans others.keyCount_eq.symm
    isEmpty_eq := presents.isEmpty_eq.trans others.isEmpty_eq.symm
    get_eq := fun key => (presents.get_eq key).trans (others.get_eq key).symm
    has_eq := fun key => (presents.has_eq key).trans (others.has_eq key).symm
    hasAtLeast_eq := fun key => (presents.hasAtLeast_eq key).trans (others.hasAtLeast_eq key).symm
    hasAtMost_eq := fun key => (presents.hasAtMost_eq key).trans (others.hasAtMost_eq key).symm
    hasValue_eq := fun key value =>
      alike (presents.hasValue_eq key value) (others.hasValue_eq key value)
    hasValueAtLeast_eq := fun key value =>
      alike (presents.hasValueAtLeast_eq key value) (others.hasValueAtLeast_eq key value)
    hasValueAtMost_eq := fun key value =>
      alike (presents.hasValueAtMost_eq key value) (others.hasValueAtMost_eq key value)
    countKey_eq := fun key => alike (presents.countKey_eq key) (others.countKey_eq key)
    countAbove_eq := ?_
    countBelow_eq := ?_
    isCountExact_eq := ?_
    cursor_eq := ?_
    valueCursor_eq := ?_
    close_eq := alike first.ensures_close second.ensures_close }
  · rw [← firstSound.order?_eq, ← secondSound.order?_eq, spec_eq]
  · intro key
    have counted := secondSound.countAbove_eq key
    rw [spec_eq, groups_eq] at counted
    exact alike (firstSound.countAbove_eq key) counted
  · intro key
    have counted := secondSound.countBelow_eq key
    rw [spec_eq, groups_eq] at counted
    exact alike (firstSound.countBelow_eq key) counted
  · intro sameExact
    rw [isCountExact_eq, isCountExact_eq, sameKind, sameExact]
  · intro moves
    have seen := secondSound.ensures_run_cursor moves
    rw [spec_eq, ← listed] at seen
    exact (firstSound.ensures_run_cursor moves firstBackend firstReliable).1.trans
      (seen secondBackend secondReliable).1.symm
  · intro key moves
    have seen := secondSound.ensures_runValues key moves
    rw [spec_eq, groups_eq] at seen
    exact alike (firstSound.ensures_runValues key moves) seen

end Table

/--
Tables that differ only in their duplicate limits give the same answers to the
same changes, and after them to all questions.
-/
theorem TableChange.run_answersAlike
    (config : TableConfig)
    (firstLimit secondLimit : Nat)
    (keyOrder : Order Key)
    [Std.TransCmp keyOrder]
    (valueOrder? : Option (Order Value))
    (lawfulValues : ∀ order ∈ valueOrder?, Std.TransCmp order)
    (firstBackend secondBackend : Backend)
    (firstOpens : (config.withDuplicateLimit firstLimit).Opens valueOrder? firstBackend)
    (secondOpens : (config.withDuplicateLimit secondLimit).Opens valueOrder? secondBackend)
    (changes : List (TableChange Key Value)) :
    ∃ (first second : Table Key Value) (firstStarted secondStarted : Backend),
      Table.new (config.withDuplicateLimit firstLimit) keyOrder valueOrder? firstBackend =
          (.ok first, firstStarted) ∧
        Table.new (config.withDuplicateLimit secondLimit) keyOrder valueOrder? secondBackend =
            (.ok second, secondStarted) ∧
          (run first changes firstStarted).1.1 = (run second changes secondStarted).1.1 ∧
            (run first changes firstStarted).2.Reliable ∧
              (run second changes secondStarted).2.Reliable ∧
                ∀ firstLater secondLater : Backend,
                  firstLater.Reliable →
                  secondLater.Reliable →
                  (run first changes firstStarted).1.2.AnswersAlike
                    (run second changes secondStarted).1.2 firstLater secondLater := by
  obtain ⟨first, firstStarted, firstOpened, firstReliable⟩ := firstOpens.new_eq keyOrder
  obtain ⟨second, secondStarted, secondOpened, secondReliable⟩ := secondOpens.new_eq keyOrder
  obtain ⟨firstSound, firstSpec, firstEmpty⟩ :=
    Table.new_sound lawfulValues (congrArg Prod.fst firstOpened)
  obtain ⟨secondSound, secondSpec, secondEmpty⟩ :=
    Table.new_sound lawfulValues (congrArg Prod.fst secondOpened)
  have spec_eq : second.spec = first.spec := secondSpec.trans firstSpec.symm
  obtain ⟨⟨firstEnds, firstStays, firstOutcome⟩, firstReliable⟩ :=
    ensures_run firstSound changes firstStarted firstReliable
  obtain ⟨⟨secondEnds, secondStays, secondOutcome⟩, secondReliable⟩ :=
    ensures_run secondSound changes secondStarted secondReliable
  rw [spec_eq, secondEmpty, ← firstEmpty, ← firstOutcome] at secondOutcome
  obtain ⟨answers_eq, groups_eq⟩ := Prod.mk.inj secondOutcome
  refine ⟨first, second, firstStarted, secondStarted, firstOpened, secondOpened, answers_eq.symm,
    firstReliable, secondReliable, ?_⟩
  intro firstLater secondLater firstLaterReliable secondLaterReliable
  refine firstEnds.answersAlike secondEnds ?_ groups_eq firstLaterReliable secondLaterReliable
  rw [secondStays, firstStays, spec_eq]

/-- With a limit of one a key's second value moves its group to a store, with three it stays. -/
theorem TableChange.run_answersAlike_halves :
    ∃ (first second : Table Nat Char) (firstStarted secondStarted : Backend),
      Table.new ⟨"halves", true, 1, none, none⟩ (Order.byRank (· / 2))
            (some (Order.byRank Char.toNat)) (.memory 1 .empty) =
          (.ok first, firstStarted) ∧
        Table.new ⟨"halves", true, 3, none, none⟩ (Order.byRank (· / 2))
              (some (Order.byRank Char.toNat)) (.memory 1 .empty) =
            (.ok second, secondStarted) ∧
          (run first [.put 5 'c', .put 4 'a', .put 5 'b', .put 9 'z', .removeValue 4 'c']
                firstStarted).1.2.AnswersAlike
            (run second [.put 5 'c', .put 4 'a', .put 5 'b', .put 9 'z', .removeValue 4 'c']
                secondStarted).1.2
            (.memory 1 .empty) (.memory 1 .empty) := by
  have opens (limit : Nat) (positive : 1 ≤ limit) :
      (TableConfig.withDuplicateLimit ⟨"halves", true, 0, none, none⟩ limit).Opens
        (some (Order.byRank Char.toNat)) (.memory 1 .empty) :=
    ⟨positive, fun _ => rfl, Or.inl rfl, Or.inl ⟨rfl, rfl⟩⟩
  have lawfulValues : ∀ order ∈ some (Order.byRank Char.toNat), Std.TransCmp order := by
    intro order isOrder
    cases isOrder
    infer_instance
  obtain ⟨first, second, firstStarted, secondStarted, firstOpened, secondOpened, _, _, _, alike⟩ :=
    run_answersAlike ⟨"halves", true, 0, none, none⟩ 1 3 (Order.byRank fun key : Nat => key / 2)
      (some (Order.byRank Char.toNat)) lawfulValues (.memory 1 .empty) (.memory 1 .empty)
      (opens 1 (by decide)) (opens 3 (by decide))
      [.put 5 'c', .put 4 'a', .put 5 'b', .put 9 'z', .removeValue 4 'c']
  exact ⟨first, second, firstStarted, secondStarted, firstOpened, secondOpened,
    alike (.memory 1 .empty) (.memory 1 .empty) (Or.inl rfl) (Or.inl rfl)⟩

end OrderedIndex

import OrderedIndex.Proofs.Table.Custody
import OrderedIndex.Proofs.Table.Navigation

namespace OrderedIndex

/-!
# Reading borrows stores

Questions about a table and moves of its cursors call the stores of its groups
and leave them open.  A cursor reads from a store of its table, wherever it is.
-/

variable {Key Value : Type} {held : List StoreId}

/-! ## Cursors in general -/

namespace Cursor

variable {State Element : Type} [Cursor State Element]

/-- The placements and steps of a cursor borrow stores while it is valid, and keep it so. -/
structure Borrowing (held : List StoreId) (valid : State → Prop) : Prop where
  beforeFirst :
    ∀ state, valid state → Borrows held (beforeFirst state) fun outcome => valid outcome.2
  afterLast :
    ∀ state, valid state → Borrows held (afterLast state) fun outcome => valid outcome.2
  before :
    ∀ state element,
      valid state → Borrows held (before state element) fun outcome => valid outcome.2
  after :
    ∀ state element,
      valid state → Borrows held (after state element) fun outcome => valid outcome.2
  next : ∀ state, valid state → Borrows held (next state) fun outcome => valid outcome.2
  previous : ∀ state, valid state → Borrows held (previous state) fun outcome => valid outcome.2

namespace Borrowing

variable {valid : State → Prop} {state : State}

/-- Going to the first element keeps a cursor valid. -/
theorem first
    (borrowing : Borrowing held valid)
    (isValid : valid state) :
    Borrows held (Cursor.first state) fun outcome => valid outcome.2 := by
  refine Borrows.bind (borrowing.beforeFirst state isValid) ?_
  rintro ⟨cause | ⟨⟩, placed⟩ placedValid
  · exact Borrows.pure placedValid
  · exact borrowing.next placed placedValid

/-- Going to the last element keeps a cursor valid. -/
theorem last
    (borrowing : Borrowing held valid)
    (isValid : valid state) :
    Borrows held (Cursor.last state) fun outcome => valid outcome.2 := by
  refine Borrows.bind (borrowing.afterLast state isValid) ?_
  rintro ⟨cause | ⟨⟩, placed⟩ placedValid
  · exact Borrows.pure placedValid
  · exact borrowing.previous placed placedValid

/-- Every move keeps a cursor valid and no store is opened or closed by it. -/
theorem perform
    (borrowing : Borrowing held valid)
    (isValid : valid state)
    (move : Move Element) :
    Borrows held (Cursor.perform state move) fun outcome => valid outcome.2 := by
  cases move with
  | next =>
      exact Borrows.bind (borrowing.next state isValid) fun _ stays => Borrows.pure stays
  | previous =>
      exact Borrows.bind (borrowing.previous state isValid) fun _ stays => Borrows.pure stays
  | first =>
      exact Borrows.bind (borrowing.first isValid) fun _ stays => Borrows.pure stays
  | last =>
      exact Borrows.bind (borrowing.last isValid) fun _ stays => Borrows.pure stays
  | beforeFirst =>
      exact Borrows.bind (borrowing.beforeFirst state isValid) fun _ stays => Borrows.pure stays
  | afterLast =>
      exact Borrows.bind (borrowing.afterLast state isValid) fun _ stays => Borrows.pure stays
  | before element =>
      exact Borrows.bind (borrowing.before state element isValid) fun _ stays =>
        Borrows.pure stays
  | after element =>
      exact Borrows.bind (borrowing.after state element isValid) fun _ stays => Borrows.pure stays

end Borrowing

end Cursor

/-! ## Value cursors -/

namespace StoreCursor

/-- Placing a cursor is one call on its store. -/
theorem borrows_reposition
    {cursor : StoreCursor Value}
    (isOpen : cursor.store.id ∈ held)
    (start : BrowseStart Value) :
    Borrows held (cursor.reposition start) fun outcome => outcome.2.store = cursor.store := by
  refine Borrows.bind (Backend.borrows_consult (by decide) isOpen _) ?_
  rintro (cause | browser) _
  · exact Borrows.pure rfl
  · exact Borrows.pure rfl

/-- A step forward of a store cursor stays on its store. -/
theorem borrows_stepForward (cursor : StoreCursor Value) (behind ahead : List Value) :
    Borrows held (cursor.stepForward behind ahead) fun outcome =>
      outcome.2.store = cursor.store := by
  induction ahead generalizing behind with
  | nil =>
      refine Borrows.bind (Backend.borrows_meet .next) ?_
      rintro (cause | ⟨⟩) _
      · exact Borrows.pure rfl
      · exact Borrows.pure rfl
  | cons value ahead inductionHypothesis =>
      refine Borrows.bind (Backend.borrows_meet .next) ?_
      rintro (cause | ⟨⟩) _
      · exact Borrows.pure rfl
      · dsimp only
        split
        · exact inductionHypothesis (value :: behind)
        · exact Borrows.pure rfl

/-- A step backward of a store cursor stays on its store. -/
theorem borrows_stepBackward (cursor : StoreCursor Value) (ahead behind : List Value) :
    Borrows held (cursor.stepBackward ahead behind) fun outcome =>
      outcome.2.store = cursor.store := by
  induction behind generalizing ahead with
  | nil =>
      refine Borrows.bind (Backend.borrows_meet .previous) ?_
      rintro (cause | ⟨⟩) _
      · exact Borrows.pure rfl
      · exact Borrows.pure rfl
  | cons value behind inductionHypothesis =>
      refine Borrows.bind (Backend.borrows_meet .previous) ?_
      rintro (cause | ⟨⟩) _
      · exact Borrows.pure rfl
      · dsimp only
        split
        · exact inductionHypothesis (value :: ahead)
        · exact Borrows.pure rfl

end StoreCursor

namespace ValueCursor

/-- A cursor that reads from open stores only. -/
abbrev Reads (held : List StoreId) (cursor : ValueCursor Value) : Prop := cursor.storeIds ⊆ held

/-- A cursor that was moved still reads from its open store. -/
theorem reads_redirected
    {cursor moved : StoreCursor Value}
    (isOpen : cursor.store.id ∈ held)
    (same : moved.store = cursor.store) :
    Reads held (.redirected moved) := by
  simpa [Reads, storeIds, same] using isOpen

/-- A value cursor of a group reads from the stores of the group. -/
theorem borrows_ofGroup
    {group : Group Value}
    (isOpen : group.storeIds ⊆ held)
    (order : Order Value) :
    Borrows held (ofGroup group order) fun answer =>
      ∀ cursor, answer = .ok cursor → Reads held cursor := by
  cases group with
  | inline tree =>
      refine Borrows.pure ?_
      rintro _ ⟨⟩
      exact List.nil_subset held
  | redirected store =>
      have storeOpen : store.id ∈ held := isOpen List.mem_cons_self
      have opened :
          Borrows held (StoreCursor.new store order) fun answer =>
            ∀ cursor, answer = .ok cursor → cursor.store = store := by
        refine Borrows.bind (Backend.borrows_consult (by decide) storeOpen _) ?_
        rintro (cause | browser) _
        · exact Borrows.pure fun _ failed => by contradiction
        · refine Borrows.pure ?_
          rintro _ ⟨⟩
          rfl
      refine Borrows.bind opened ?_
      rintro (cause | cursor) same
      · exact Borrows.pure fun _ failed => by contradiction
      · refine Borrows.pure ?_
        rintro _ ⟨⟩
        have sameStore := same cursor rfl
        simpa [Reads, storeIds, sameStore] using storeOpen

/-- A placed store cursor reads from its open store. -/
theorem borrows_placed
    {cursor : StoreCursor Value}
    (reads : Reads held (.redirected cursor))
    (start : BrowseStart Value) :
    Borrows held (do return ofStore (← cursor.reposition start)) fun outcome =>
      Reads held outcome.2 := by
  have isOpen : cursor.store.id ∈ held := reads List.mem_cons_self
  exact Borrows.bind (cursor.borrows_reposition isOpen start) fun _ same =>
    Borrows.pure (reads_redirected isOpen same)

/-- A value cursor stays at its store. -/
theorem borrowing : Cursor.Borrowing held (@Reads Value held) where
  beforeFirst cursor reads := by
    cases cursor with
    | empty => exact Borrows.pure reads
    | single => exact Borrows.pure reads
    | inline => exact Borrows.pure reads
    | redirected cursor => exact borrows_placed reads .first
  afterLast cursor reads := by
    cases cursor with
    | empty => exact Borrows.pure reads
    | single => exact Borrows.pure reads
    | inline => exact Borrows.pure reads
    | redirected cursor => exact borrows_placed reads .last
  before cursor element reads := by
    cases cursor with
    | empty => exact Borrows.pure reads
    | single => exact Borrows.pure reads
    | inline => exact Borrows.pure reads
    | redirected cursor => exact borrows_placed reads (.before element)
  after cursor element reads := by
    cases cursor with
    | empty => exact Borrows.pure reads
    | single => exact Borrows.pure reads
    | inline => exact Borrows.pure reads
    | redirected cursor => exact borrows_placed reads (.after element)
  next cursor reads := by
    cases cursor with
    | empty => exact Borrows.pure reads
    | single value order? position => cases position <;> exact Borrows.pure reads
    | inline => exact Borrows.pure reads
    | redirected cursor =>
        have isOpen : cursor.store.id ∈ held := reads List.mem_cons_self
        exact Borrows.bind (cursor.borrows_stepForward _ _) fun _ same =>
          Borrows.pure (reads_redirected isOpen same)
  previous cursor reads := by
    cases cursor with
    | empty => exact Borrows.pure reads
    | single value order? position => cases position <;> exact Borrows.pure reads
    | inline => exact Borrows.pure reads
    | redirected cursor =>
        have isOpen : cursor.store.id ∈ held := reads List.mem_cons_self
        exact Borrows.bind (cursor.borrows_stepBackward _ _) fun _ same =>
          Borrows.pure (reads_redirected isOpen same)

end ValueCursor

/-! ## Table cursors -/

namespace Table

variable
  {table : Table Key Value}
  {tree : OrderedTree Key (Group Value)}
  {policy : DuplicatePolicy Value}

namespace Intact

/-- Whatever node is asked for, the store of its group is open. -/
theorem storeIds_subset
    (intact : table.Intact tree policy)
    {node : NodeId}
    {group : Group Value}
    (holds : tree.value? node = some group) :
    group.storeIds ⊆ table.storeIds := by
  rw [intact.storeIds_eq]
  exact OrderedTree.storeIds_subset (intact.treeSound.mem_values_of_value? holds)

/-- The values at a node are read from stores of the table. -/
theorem borrows_valuesAt
    (intact : table.Intact tree policy)
    (node : NodeId) :
    Borrows table.storeIds (table.valuesAt node) fun answer =>
      ∀ cursor, answer = .ok cursor → cursor.Reads table.storeIds := by
  unfold valuesAt
  rw [intact.entries_eq]
  dsimp only
  cases holds : tree.value? node with
  | none =>
      refine Borrows.pure ?_
      rintro _ ⟨⟩
      exact List.nil_subset _
  | some group =>
      exact ValueCursor.borrows_ofGroup (intact.storeIds_subset holds) policy.order

/-- The values under a key are read from stores of the table. -/
theorem borrows_valueCursor
    (intact : table.Intact tree policy)
    (key : Key) :
    Borrows table.storeIds (table.valueCursor key) fun answer =>
      ∀ cursor, answer = .ok cursor → cursor.Reads table.storeIds := by
  unfold valueCursor
  cases table.entries.ask fun tree => tree.find? key with
  | none =>
      refine Borrows.pure ?_
      rintro _ ⟨⟩
      exact List.nil_subset _
  | some node =>
      exact intact.borrows_valuesAt node

end Intact

end Table

namespace TableCursor

/-- A cursor over a table that reads from the stores of that table only. -/
structure Reads (table : Table Key Value) (cursor : TableCursor Key Value) : Prop where
  table_eq : cursor.table = table
  position :
    ∀ node values, cursor.position = .within node values → values.Reads table.storeIds

variable
  {table : Table Key Value}
  {tree : OrderedTree Key (Group Value)}
  {policy : DuplicatePolicy Value}
  {cursor : TableCursor Key Value}

namespace Reads

/-- A cursor among values that are read from the table's stores reads from them. -/
theorem within
    (reads : Reads table cursor)
    (node : NodeId)
    {values : ValueCursor Value}
    (valuesRead : values.Reads table.storeIds) :
    Reads table { cursor with position := .within node values } where
  table_eq := reads.table_eq
  position := by
    rintro _ _ ⟨⟩
    exact valuesRead

theorem beforeFirst (reads : Reads table cursor) : Reads table cursor.beforeFirst where
  table_eq := reads.table_eq
  position := by
    rintro _ _ ⟨⟩

theorem afterLast (reads : Reads table cursor) : Reads table cursor.afterLast where
  table_eq := reads.table_eq
  position := by
    rintro _ _ ⟨⟩

/-- Copying a tuple leaves the position as it is. -/
theorem load (reads : Reads table cursor) : Reads table cursor.load.2 := by
  unfold TableCursor.load
  split
  · split
    · exact ⟨reads.table_eq, reads.position⟩
    · exact reads
    · exact reads
  · exact reads

/-- The values at a node of a cursor's table are read from the stores of the table. -/
theorem borrows_valuesAt
    (reads : Reads table cursor)
    (intact : table.Intact tree policy)
    (node : NodeId) :
    Borrows table.storeIds (cursor.table.valuesAt node) fun answer =>
      ∀ values, answer = .ok values → values.Reads table.storeIds := by
  rw [reads.table_eq]
  exact intact.borrows_valuesAt node

/-- A cursor that enters a node reads from the table's stores. -/
theorem borrows_enter
    (reads : Reads table cursor)
    (intact : table.Intact tree policy)
    (target : Option NodeId) :
    Borrows table.storeIds (cursor.enter target) fun outcome => Reads table outcome.2 := by
  have gone : Reads table { cursor with available := false } := ⟨reads.table_eq, reads.position⟩
  unfold enter
  cases target with
  | none =>
      exact Borrows.pure reads.afterLast
  | some node =>
      refine Borrows.bind (reads.borrows_valuesAt intact node) ?_
      rintro (cause | values) opened
      · exact Borrows.pure gone
      · exact Borrows.pure (gone.within node (opened values rfl))

/-- A cursor that is placed within a node reads from the table's stores. -/
theorem borrows_placeWithin
    (reads : Reads table cursor)
    (key : Key)
    {place : ValueCursor Value → StoreM (Moved Unit (ValueCursor Value))}
    (placed :
      ∀ values,
        values.Reads table.storeIds →
        Borrows table.storeIds (place values) fun outcome => outcome.2.Reads table.storeIds) :
    Borrows table.storeIds (cursor.placeWithin key place) fun outcome =>
      Reads table outcome.2 := by
  unfold placeWithin
  cases position : cursor.position with
  | beforeFirst =>
      exact Borrows.pure reads
  | afterLast =>
      exact Borrows.pure reads
  | within node values =>
      dsimp only
      split
      · refine Borrows.bind (placed values (reads.position node values position)) ?_
        rintro ⟨answer, moved⟩ movedReads
        exact Borrows.pure (reads.within node movedReads)
      · exact Borrows.pure reads

/-- A search forward for a node with values reads from the table's stores. -/
theorem borrows_seekForward
    (reads : Reads table cursor)
    (intact : table.Intact tree policy)
    (count : Nat)
    (from? : Option NodeId) :
    Borrows table.storeIds (cursor.seekForward count from?) fun outcome =>
      Reads table outcome.2 := by
  induction count generalizing from? with
  | zero =>
      exact Borrows.pure reads.afterLast
  | succ count inductionHypothesis =>
      cases from? with
      | none =>
          exact Borrows.pure reads.afterLast
      | some node =>
          refine Borrows.bind (reads.borrows_valuesAt intact node) ?_
          rintro (cause | values) opened
          · exact Borrows.pure reads
          · refine Borrows.bind (ValueCursor.borrowing.next values (opened values rfl)) ?_
            rintro ⟨cause | found, moved⟩ movedReads
            · exact Borrows.pure reads
            · cases found with
              | true =>
                  exact Borrows.pure (reads.within node movedReads).load
              | false =>
                  exact inductionHypothesis _

/-- A search backward for a node with values reads from the table's stores. -/
theorem borrows_seekBackward
    (reads : Reads table cursor)
    (intact : table.Intact tree policy)
    (count : Nat)
    (from? : Option NodeId) :
    Borrows table.storeIds (cursor.seekBackward count from?) fun outcome =>
      Reads table outcome.2 := by
  induction count generalizing from? with
  | zero =>
      exact Borrows.pure reads.beforeFirst
  | succ count inductionHypothesis =>
      cases from? with
      | none =>
          exact Borrows.pure reads.beforeFirst
      | some node =>
          refine Borrows.bind (reads.borrows_valuesAt intact node) ?_
          rintro (cause | values) opened
          · exact Borrows.pure reads
          · refine Borrows.bind (ValueCursor.borrowing.afterLast values (opened values rfl)) ?_
            rintro ⟨cause | ⟨⟩, placed⟩ placedReads
            · exact Borrows.pure reads
            · refine Borrows.bind (ValueCursor.borrowing.previous placed placedReads) ?_
              rintro ⟨cause | found, moved⟩ movedReads
              · exact Borrows.pure reads
              · cases found with
                | true =>
                    exact Borrows.pure (reads.within node movedReads).load
                | false =>
                    exact inductionHypothesis _

end Reads

/-- A cursor over a table whose parts agree stays at that table and its stores. -/
theorem borrowing (intact : table.Intact tree policy) :
    Cursor.Borrowing table.storeIds (Reads table) where
  beforeFirst _ reads := Borrows.pure reads.beforeFirst
  afterLast _ reads := Borrows.pure reads.afterLast
  before cursor element reads := by
    show Borrows _ (cursor.before element) _
    refine Borrows.bind (reads.borrows_enter intact _) ?_
    rintro ⟨cause | ⟨⟩, entered⟩ enteredReads
    · exact Borrows.pure enteredReads
    · exact enteredReads.borrows_placeWithin element.key fun values valuesRead =>
        ValueCursor.borrowing.before values element.value valuesRead
  after cursor element reads := by
    show Borrows _ (cursor.after element) _
    refine Borrows.bind (reads.borrows_enter intact _) ?_
    rintro ⟨cause | ⟨⟩, entered⟩ enteredReads
    · exact Borrows.pure enteredReads
    · exact enteredReads.borrows_placeWithin element.key fun values valuesRead =>
        ValueCursor.borrowing.after values element.value valuesRead
  next cursor reads := by
    show Borrows _ cursor.next _
    unfold next
    cases position : cursor.position with
    | beforeFirst =>
        exact reads.borrows_seekForward intact _ _
    | afterLast =>
        exact Borrows.pure reads.afterLast
    | within node values =>
        refine Borrows.bind
          (ValueCursor.borrowing.next values (reads.position node values position)) ?_
        rintro ⟨cause | found, moved⟩ movedReads
        · exact Borrows.pure (reads.within node movedReads)
        · cases found with
          | true =>
              exact Borrows.pure (reads.within node movedReads).load
          | false =>
              exact (reads.within node movedReads).borrows_seekForward intact _ _
  previous cursor reads := by
    show Borrows _ cursor.previous _
    unfold previous
    cases position : cursor.position with
    | beforeFirst =>
        exact Borrows.pure reads.beforeFirst
    | afterLast =>
        exact reads.borrows_seekBackward intact _ _
    | within node values =>
        refine Borrows.bind
          (ValueCursor.borrowing.previous values (reads.position node values position)) ?_
        rintro ⟨cause | found, moved⟩ movedReads
        · exact Borrows.pure (reads.within node movedReads)
        · cases found with
          | true =>
              exact Borrows.pure (reads.within node movedReads).load
          | false =>
              exact (reads.within node movedReads).borrows_seekBackward intact _ _

/-- Every move of a cursor reads from the table's stores and leaves all of them open. -/
theorem borrows_move
    (intact : table.Intact tree policy)
    (reads : Reads table cursor)
    (move : TableMove Key Value) :
    Borrows table.storeIds (move.perform cursor) fun outcome => Reads table outcome.2 := by
  cases move with
  | plain move =>
      exact (borrowing intact).perform reads move
  | beforeKey key =>
      exact Borrows.bind (reads.borrows_enter intact _) fun _ stays => Borrows.pure stays
  | afterKey key =>
      exact Borrows.bind (reads.borrows_enter intact _) fun _ stays => Borrows.pure stays

end TableCursor

end OrderedIndex

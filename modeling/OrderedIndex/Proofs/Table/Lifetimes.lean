import OrderedIndex.Proofs.Store.Lifetime
import OrderedIndex.Proofs.Table.Borrowing

namespace OrderedIndex

/-!
# Lifetimes of the stores of a table

A table is opened over a fresh backend, used in every way there is while calls
fail in any pattern, and closed.  Along the way the open stores are those of its
groups, and in the end every store that was created has been asked to close once
and was not called afterwards.
-/

variable {Key Value : Type}

/-! ## Uses of a table that leave it as it is -/

/-- A question about a table that may ask its stores, or a setting of their backend. -/
inductive TableUse (Key Value : Type) where
  | hasValue (key : Key) (value : Value)
  | hasValueAtLeast (key : Key) (value : Value)
  | hasValueAtMost (key : Key) (value : Value)
  | countKey (key : Key)
  | countAbove (key : Key)
  | countBelow (key : Key)
  | setCacheSize (entries : Nat)
  | setWorkingDirectory (path : String)
  deriving Repr, DecidableEq

/-- Use a table, whatever the answer is. -/
def TableUse.perform (table : Table Key Value) : TableUse Key Value → StoreM Unit
  | .hasValue key value => do
      let _ ← table.hasValue key value
  | .hasValueAtLeast key value => do
      let _ ← table.hasValueAtLeast key value
  | .hasValueAtMost key value => do
      let _ ← table.hasValueAtMost key value
  | .countKey key => do
      let _ ← table.countKey key
  | .countAbove key => do
      let _ ← table.countAbove key
  | .countBelow key => do
      let _ ← table.countBelow key
  | .setCacheSize entries => do
      let _ ← table.setCacheSize entries
  | .setWorkingDirectory path => do
      let _ ← table.setWorkingDirectory path

/-- Cursors over the values of a key that are opened and moved over stores that may fail. -/
inductive ValueCursor.Reached (table : Table Key Value) : ValueCursor Value → Prop where
  | opened
      {backend : Backend}
      {key : Key}
      {cursor : ValueCursor Value}
      (opens : (table.valueCursor key backend).1 = .ok cursor) :
      Reached table cursor
  | moved
      {cursor : ValueCursor Value}
      (reached : Reached table cursor)
      (backend : Backend)
      (move : Move Value) :
      Reached table (Cursor.perform cursor move backend).1.2

namespace Table

variable
  {table : Table Key Value}
  {tree : OrderedTree Key (Group Value)}
  {policy : DuplicatePolicy Value}

namespace Intact

theorem borrows_askValues
    (intact : table.Intact tree policy)
    (key : Key)
    (compare : Order Value → Value → Bool)
    {question : Group Value → StoreM (Except IndexError Bool)}
    (asked :
      ∀ group : Group Value,
        group.storeIds ⊆ table.storeIds →
        Borrows table.storeIds (question group) fun _ => True) :
    Borrows table.storeIds (table.askValues key compare question) fun _ => True := by
  unfold askValues
  rw [intact.entries_eq]
  dsimp only
  cases intact.treeSound.sought key with
  | present id group found holds get?_eq =>
      rw [get?_eq]
      exact asked group (intact.storeIds_subset holds)
  | absent _ get?_eq =>
      rw [get?_eq]
      exact Borrows.pure trivial

theorem borrows_groupSize
    (intact : table.Intact tree policy)
    (node : NodeId) :
    Borrows table.storeIds (table.groupSize node) fun _ => True := by
  unfold groupSize
  rw [intact.entries_eq]
  dsimp only
  cases holds : tree.value? node with
  | none =>
      exact Borrows.pure trivial
  | some group =>
      exact Group.borrows_size (intact.storeIds_subset holds)

theorem borrows_groupSizes
    (intact : table.Intact tree policy)
    (total : Nat)
    (nodes : List NodeId) :
    Borrows table.storeIds (table.groupSizes total nodes) fun _ => True := by
  induction nodes generalizing total with
  | nil =>
      exact Borrows.pure trivial
  | cons node rest inductionHypothesis =>
      refine Borrows.bind (intact.borrows_groupSize node) ?_
      rintro (cause | size) _
      · exact Borrows.pure trivial
      · exact inductionHypothesis (total + size)

theorem borrows_use
    (intact : table.Intact tree policy)
    (use : TableUse Key Value) :
    Borrows table.storeIds (use.perform table) fun _ => True := by
  have done {Answer : Type} {computation : StoreM Answer}
      (borrows : Borrows table.storeIds computation fun _ => True) :
      Borrows table.storeIds (do let _ ← computation) fun _ => True :=
    Borrows.bind borrows fun _ _ => Borrows.pure trivial
  cases use with
  | hasValue key value =>
      exact done (intact.borrows_askValues key _ fun _ isOpen =>
        Group.borrows_contains isOpen value)
  | hasValueAtLeast key value =>
      exact done (intact.borrows_askValues key _ fun _ isOpen =>
        Group.borrows_hasAtLeast isOpen value)
  | hasValueAtMost key value =>
      exact done (intact.borrows_askValues key _ fun _ isOpen =>
        Group.borrows_hasAtMost isOpen value)
  | countKey key =>
      refine done ?_
      unfold countKey
      cases table.entries.ask fun tree => tree.find? key with
      | none => exact Borrows.pure trivial
      | some node => exact intact.borrows_groupSize node
  | countAbove key =>
      exact done (intact.borrows_groupSizes 0 _)
  | countBelow key =>
      exact done (intact.borrows_groupSizes 0 _)
  | setCacheSize entries =>
      exact done (done (Backend.borrows_configure _ _ _))
  | setWorkingDirectory path =>
      exact done (done (Backend.borrows_configure _ _ _))

end Intact

end Table

section Cursors

variable
  {table : Table Key Value}
  {tree : OrderedTree Key (Group Value)}
  {policy : DuplicatePolicy Value}

theorem TableCursor.Reached.reads
    {cursor : TableCursor Key Value}
    (reached : cursor.Reached table)
    (intact : table.Intact tree policy) :
    cursor.Reads table := by
  induction reached with
  | opened =>
      refine ⟨rfl, ?_⟩
      rintro _ _ ⟨⟩
  | moved _ backend move reads =>
      exact (borrows_move intact reads move).answered backend

theorem ValueCursor.Reached.reads
    {cursor : ValueCursor Value}
    (reached : cursor.Reached table)
    (intact : table.Intact tree policy) :
    cursor.Reads table.storeIds := by
  induction reached with
  | opened opens =>
      exact (intact.borrows_valueCursor _).answered _ _ opens
  | moved _ backend move reads =>
      exact (borrowing.perform reads move).answered backend

end Cursors

/-! ## Closing -/

/-- The first failure among the answers of some closings. -/
def firstFailure : List (Except StoreError Unit) → Except IndexError Unit
  | [] => .ok ()
  | .ok () :: rest => firstFailure rest
  | .error cause :: _ => .error (.ofStore cause)

/-- Close stores one after the other, whichever of them fail, and collect the answers. -/
def Backend.closeAll : List (OrderedStore Value) → StoreM (List (Except StoreError Unit))
  | [] => return []
  | store :: rest => do
      let (answer, _) ← Backend.close store
      let answers ← closeAll rest
      return answer :: answers

/-- The store that a group is in, if it is in one. -/
def Group.stores : Group Value → List (OrderedStore Value)
  | .inline _ => []
  | .redirected store => [store]

namespace Table

variable
  {table : Table Key Value}
  {tree : OrderedTree Key (Group Value)}
  {policy : DuplicatePolicy Value}

/-- The stores of the groups of a table, in key order. -/
def stores (table : Table Key Value) : List (OrderedStore Value) :=
  match table.entries with
  | .unique _ => []
  | .duplicates tree _ => tree.values.flatMap Group.stores

/-- Closing groups asks all their stores to close and answers with the first failure. -/
theorem closeGroups_eq
    (name : String)
    (answer : Except IndexError Unit)
    (groups : List (Group Value))
    {backend other : Backend}
    (alike : backend.failures? = other.failures?) :
    (closeGroups name answer groups backend).1 =
        answer.bind (fun _ =>
          firstFailure (Backend.closeAll (groups.flatMap Group.stores) other).1) ∧
      (closeGroups name answer groups backend).2.history =
        ((groups.flatMap Group.storeIds).map (StoreEvent.mk .close)).reverse ++
          backend.history := by
  induction groups generalizing answer backend other with
  | nil =>
      refine ⟨?_, rfl⟩
      cases answer <;> rfl
  | cons group rest inductionHypothesis =>
      cases group with
      | inline tree =>
          exact inductionHypothesis answer alike
      | redirected store =>
          obtain ⟨sameAnswer, stillAlike⟩ := Backend.close_alike alike store
          obtain ⟨_, history, rfl, _⟩ :=
            Backend.performs_close store backend (by trivial : Regime.arbitrary.admits _)
          have closed :
              (Group.redirected store).close backend =
                (liftStore (Backend.close store backend).1.1, (Backend.close store backend).2) :=
            rfl
          have all :
              (Backend.closeAll ((Group.redirected store :: rest).flatMap Group.stores) other).1 =
                (Backend.close store other).1.1 ::
                  (Backend.closeAll (rest.flatMap Group.stores) (Backend.close store other).2).1 :=
            rfl
          have closings :
              (((Group.redirected store :: rest).flatMap Group.storeIds).map
                  (StoreEvent.mk .close)).reverse ++ backend.history =
                ((rest.flatMap Group.storeIds).map (StoreEvent.mk .close)).reverse ++
                  (Backend.close store backend).2.history := by
            rw [history]
            simp [Group.storeIds]
          rw [closeGroups, bind_apply, closed, all, closings, ← sameAnswer]
          generalize Backend.close store backend = outcome at stillAlike ⊢
          obtain ⟨⟨cause | ⟨⟩, _⟩, after⟩ := outcome
          · have recorded : (Backend.record
                (·.note (.storeNotClosed name (.ofStore cause))) after).2.failures? =
                (Backend.close store other).2.failures? := stillAlike
            obtain ⟨restAnswer, restHistory⟩ :=
              inductionHypothesis (answer.bind fun _ => .error (.ofStore cause)) recorded
            refine ⟨?_, restHistory⟩
            refine Eq.trans restAnswer ?_
            cases answer <;> rfl
          · exact inductionHypothesis answer stillAlike

/-- What closing a table does to the stores of its groups, and what it answers. -/
theorem close_eq (table : Table Key Value) (backend : Backend) :
    (table.close backend).1 = firstFailure (Backend.closeAll table.stores backend).1 ∧
      (table.close backend).2.history =
        (table.storeIds.map (StoreEvent.mk .close)).reverse ++ backend.history := by
  unfold close stores storeIds OrderedTree.storeIds
  cases table.entries with
  | unique tree =>
      exact ⟨rfl, rfl⟩
  | duplicates tree policy =>
      exact closeGroups_eq table.name (.ok ()) tree.values rfl

theorem manages_closeGroups
    (name : String)
    (answer : Except IndexError Unit)
    (groups : List (Group Value)) :
    Manages (groups.flatMap Group.storeIds) (closeGroups name answer groups) fun _ after =>
      after = [] := by
  induction groups generalizing answer with
  | nil =>
      exact Manages.pure rfl
  | cons group rest inductionHypothesis =>
      rw [List.flatMap_cons]
      refine Manages.bind group.manages_close ?_
      rintro (cause | ⟨⟩) _ rfl
      · exact Borrows.bind (Backend.borrows_record _) fun _ _ => inductionHypothesis _
      · exact inductionHypothesis answer

theorem Intact.manages_close (intact : table.Intact tree policy) :
    Manages table.storeIds table.close fun _ after => after = [] := by
  rw [intact.storeIds_eq]
  unfold close
  rw [intact.entries_eq]
  refine Manages.bind (manages_closeGroups table.name (.ok ()) tree.values) ?_
  rintro answer _ rfl
  exact Borrows.bind (Backend.borrows_record _) fun _ _ => Manages.pure rfl

/-! ## Runs -/

/--
A table with duplicates and its backend in the course of a run: the table is
opened over a backend without stores, other failures are planned at any time, and
the table is changed, used and moved over with any number of cursors.
-/
inductive InUse : Table Key Value → Backend → Prop where
  | opened
      {config : TableConfig}
      {keyOrder : Order Key}
      {valueOrder? : Option (Order Value)}
      {backend started : Backend}
      {table : Table Key Value}
      (duplicates : config.duplicates = true)
      (lawfulKeys : Std.TransCmp keyOrder)
      (lawfulValues : ∀ order ∈ valueOrder?, Std.TransCmp order)
      (fresh : backend.history = [])
      (new_eq : new config keyOrder valueOrder? backend = (.ok table, started)) :
      InUse table started
  | replanned
      {table : Table Key Value}
      {backend : Backend}
      (inUse : InUse table backend)
      (plan : Option FailurePlan) :
      InUse table { backend with failures? := plan }
  | changed
      {table : Table Key Value}
      {backend : Backend}
      (inUse : InUse table backend)
      (change : TableChange Key Value) :
      InUse (change.apply table backend).1.2 (change.apply table backend).2
  | used
      {table : Table Key Value}
      {backend : Backend}
      (inUse : InUse table backend)
      (use : TableUse Key Value) :
      InUse table (use.perform table backend).2
  | moved
      {table : Table Key Value}
      {backend : Backend}
      {cursor : TableCursor Key Value}
      (inUse : InUse table backend)
      (reached : cursor.Reached table)
      (move : TableMove Key Value) :
      InUse table (move.perform cursor backend).2
  | valuesOpened
      {table : Table Key Value}
      {backend : Backend}
      (inUse : InUse table backend)
      (key : Key) :
      InUse table (table.valueCursor key backend).2
  | valuesMoved
      {table : Table Key Value}
      {backend : Backend}
      {cursor : ValueCursor Value}
      (inUse : InUse table backend)
      (reached : cursor.Reached table)
      (move : Move Value) :
      InUse table (Cursor.perform cursor move backend).2

/-- Opening a table creates no store. -/
theorem borrows_new
    (config : TableConfig)
    (keyOrder : Order Key)
    (valueOrder? : Option (Order Value))
    (held : List StoreId) :
    Borrows held (new config keyOrder valueOrder?) fun _ => True := by
  have configured : Borrows held (configureBackend config) fun _ => True := by
    unfold configureBackend
    cases config.cacheSize? with
    | none =>
        have unsized :
            Borrows held (pure (.ok ()) : StoreM (Except StoreError Unit)) fun _ => True :=
          Borrows.pure trivial
        refine Borrows.bind unsized ?_
        intro sized _
        dsimp only
        split
        · exact Backend.borrows_configure _ _ _
        · exact Borrows.pure trivial
    | some entries =>
        refine Borrows.bind (Backend.borrows_configure _ _ _) ?_
        intro sized _
        dsimp only
        split
        · exact Backend.borrows_configure _ _ _
        · exact Borrows.pure trivial
  refine Borrows.bind (Backend.borrows_record _) ?_
  intro _ _
  split
  · exact Borrows.pure trivial
  · refine Borrows.bind configured ?_
    rintro (cause | ⟨⟩) _
    · exact Borrows.pure trivial
    · cases initialEntries config keyOrder valueOrder? with
      | error cause =>
          exact Borrows.pure trivial
      | ok entries =>
          refine Borrows.bind Backend.borrows_get ?_
          intro _ _
          exact Borrows.bind (Backend.borrows_record _) fun _ _ => Borrows.pure trivial

/-- A new table has no stores. -/
theorem storeIds_new
    {config : TableConfig}
    {keyOrder : Order Key}
    {valueOrder? : Option (Order Value)}
    {backend : Backend}
    (opened : (new config keyOrder valueOrder? backend).1 = .ok table) :
    table.storeIds = [] := by
  obtain ⟨entries, initial, rfl⟩ := new_eq_ok opened
  unfold initialEntries at initial
  split at initial
  · split at initial
    · contradiction
    · cases initial
      rfl
  · cases initial
    rfl

/-- The parts of a table in use agree, and the stores of its groups are the open ones. -/
theorem InUse.custody
    {backend : Backend}
    (inUse : InUse table backend) :
    (∃ tree policy, table.Intact tree policy) ∧
      ∃ first, Custody first [] backend.history backend.nextId table.storeIds := by
  induction inUse with
  | @opened config keyOrder valueOrder? backend started table duplicates _ lawfulValues fresh
      new_eq =>
      have opened : (new config keyOrder valueOrder? backend).1 = .ok table := by rw [new_eq]
      have reachable : table.ReachableWithFailures :=
        .opened duplicates inferInstance lawfulValues opened
      refine ⟨reachable.intact, backend.nextId, ?_⟩
      have empty : Custody backend.nextId [] backend.history backend.nextId [] := by
        rw [fresh]
        exact .start
      have custody := (borrows_new config keyOrder valueOrder? []).custody empty
      rw [new_eq] at custody
      rw [storeIds_new opened]
      exact custody
  | replanned _ plan inductionHypothesis =>
      exact inductionHypothesis
  | @changed table backend _ change inductionHypothesis =>
      obtain ⟨⟨tree, policy, intact⟩, first, custody⟩ := inductionHypothesis
      obtain ⟨⟨after, _⟩, _⟩ := intact.ends change backend
      obtain ⟨held, same, continued⟩ := (intact.manages_apply change).custody custody
      exact ⟨after.imp fun _ afterIntact => ⟨policy, afterIntact⟩, first, continued.reordered same⟩
  | used _ use inductionHypothesis =>
      obtain ⟨⟨tree, policy, intact⟩, first, custody⟩ := inductionHypothesis
      exact ⟨⟨tree, policy, intact⟩, first, (intact.borrows_use use).custody custody⟩
  | moved _ reached move inductionHypothesis =>
      obtain ⟨⟨tree, policy, intact⟩, first, custody⟩ := inductionHypothesis
      have reads := reached.reads intact
      exact ⟨⟨tree, policy, intact⟩, first,
        (TableCursor.borrows_move intact reads move).custody custody⟩
  | valuesOpened _ key inductionHypothesis =>
      obtain ⟨⟨tree, policy, intact⟩, first, custody⟩ := inductionHypothesis
      exact ⟨⟨tree, policy, intact⟩, first, (intact.borrows_valueCursor key).custody custody⟩
  | valuesMoved _ reached move inductionHypothesis =>
      obtain ⟨⟨tree, policy, intact⟩, first, custody⟩ := inductionHypothesis
      have reads := reached.reads intact
      exact ⟨⟨tree, policy, intact⟩, first,
        (ValueCursor.borrowing.perform reads move).custody custody⟩

/-- What becomes of the stores of a table in use, up to now and if it is closed next. -/
structure AccountsFor (table : Table Key Value) (backend : Backend) : Prop where
  /-- The stores that were not asked to close are those of the groups. -/
  orderly : Orderly backend.history table.storeIds
  /-- Closing asks the stores of all groups to close, in key order. -/
  closes :
    (table.close backend).2.history =
      (table.storeIds.map (StoreEvent.mk .close)).reverse ++ backend.history
  answers : (table.close backend).1 = firstFailure (Backend.closeAll table.stores backend).1
  closed : Orderly (table.close backend).2.history []
  /-- Unless the numbers of stores start over, each store is closed once and left alone. -/
  closedOnce :
    creations backend.history ≤ UInt64.size →
    ∀ id, ⟨.create, id⟩ ∈ backend.history → ClosedOnce (table.close backend).2.history id

/--
However a table with duplicates is used and whatever calls fail, no store is
leaked, closed twice or called after it was closed.
-/
theorem InUse.accountsFor
    {backend : Backend}
    (inUse : InUse table backend) :
    table.AccountsFor backend := by
  obtain ⟨⟨tree, policy, intact⟩, first, custody⟩ := inUse.custody
  obtain ⟨answers, closes⟩ := table.close_eq backend
  obtain ⟨_, rfl, finished⟩ := intact.manages_close.custody custody
  refine ⟨custody.orderly, closes, answers, finished.orderly, ?_⟩
  intro notMany id created
  refine finished.orderly.closedOnce ?_
  have onlyClosings :
      (table.close backend).2.history.count ⟨.create, id⟩ =
        backend.history.count ⟨.create, id⟩ := by
    have none : (table.storeIds.map (StoreEvent.mk .close)).reverse.count ⟨.create, id⟩ = 0 :=
      List.count_eq_zero.mpr (by simp)
    rw [closes, List.count_append, none, Nat.zero_add]
  rw [onlyClosings]
  exact Nat.le_antisymm (custody.orderly.numbered notMany id) (List.count_pos_iff.mpr created)

/-- A store holds a group, another could not be filled; in the end both are closed. -/
theorem InUse.accountsFor_abandoned :
    ∃ (table : Table Nat Nat) (backend : Backend),
      InUse table backend ∧
        table.storeIds = [1] ∧
          backend.history.map (·.call) =
              [.close, .insert, .insert, .create, .insert, .insert, .create] ∧
            ClosedOnce (table.close backend).2.history 1 ∧
              ClosedOnce (table.close backend).2.history 2 := by
  have lawfulValues : ∀ order ∈ some (Order.byRank (id : Nat → Nat)), Std.TransCmp order := by
    intro order isOrder
    cases isOrder
    infer_instance
  have opened :=
    InUse.opened rfl inferInstance lawfulValues rfl
      (rfl :
        Table.new ⟨"t", true, 1, none, none⟩ (Order.byRank (id : Nat → Nat))
            (some (Order.byRank (id : Nat → Nat))) (.memory 1 .empty) =
          (.ok _, _))
  have filled := (opened.changed (.put 1 10)).changed (.put 1 20)
  have failing :=
    filled.replanned (some ⟨none, [(.insert, .plan (.io .timedOut) 1 (some 1) none)]⟩)
  have abandoned := (failing.changed (.put 2 30)).changed (.put 2 40)
  have closedOnce := (accountsFor abandoned).closedOnce (by decide)
  exact ⟨_, _, abandoned, rfl, rfl, closedOnce 1 (by decide), closedOnce 2 (by decide)⟩

end Table

end OrderedIndex

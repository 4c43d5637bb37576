import OrderedIndex.Proofs.Table.Cursor
import OrderedIndex.Proofs.Table.Refinement
import OrderedIndex.Proofs.Tree.Decoding

namespace OrderedIndex

/-!
# Moving over a table

Over stores that do not fail, a cursor of any table that can come about shows
the tuples of the table in order, and every sequence of moves is one of a
position in their list.
-/

variable {Key Value : Type}

/-! ## Reachable tables -/

/-- Tables that are opened, changed and loaded over stores that do not fail. -/
inductive Table.Reachable : Table Key Value → Prop where
  | opened
      {config : TableConfig}
      {keyOrder : Order Key}
      {valueOrder? : Option (Order Value)}
      {backend : Backend}
      {table : Table Key Value}
      (lawfulKeys : Std.TransCmp keyOrder)
      (lawfulValues : ∀ order ∈ valueOrder?, Std.TransCmp order)
      (new_eq : (Table.new config keyOrder valueOrder? backend).1 = .ok table) :
      Reachable table
  | changed
      {table : Table Key Value}
      {backend : Backend}
      (reachable : Reachable table)
      (reliable : backend.Reliable)
      (change : TableChange Key Value) :
      Reachable (change.apply table backend).1.2
  /-- A table without duplicates may take over a tree that was stored. -/
  | loaded
      {table result : Table Key Value}
      {format : TreeFormat Key Value}
      {bytes : Bytes}
      {tree : OrderedTree Key Value}
      (reachable : Reachable table)
      (order_eq : format.order = table.keyOrder)
      (decoded : format.decode bytes = .ok tree)
      (load_eq : table.loadUnique tree = .ok result) :
      Reachable result

namespace Table

variable {table : Table Key Value}

theorem Sound.loadUnique
    (sound : table.Sound)
    {tree : OrderedTree Key Value}
    (treeSound : tree.Sound)
    (order_eq : tree.order = table.keyOrder)
    {result : Table Key Value}
    (load_eq : table.loadUnique tree = .ok result) :
    result.Sound := by
  unfold Table.loadUnique at load_eq
  cases entries : table.entries with
  | unique old =>
      rw [entries] at load_eq
      cases load_eq
      refine ⟨?_, ⟨order_eq, treeSound⟩, ?_⟩
      · intro order isOrder
        refine sound.lawfulValues order ?_
        rw [kind_unique entries]
        exact isOrder
      · have counted := OrderedTree.size_groupsBy_single tree
        rw [← treeSound.size_eq] at counted
        exact counted.symm
  | duplicates old policy =>
      rw [entries] at load_eq
      contradiction

theorem Reachable.sound (reachable : table.Reachable) : table.Sound := by
  induction reachable with
  | opened lawfulKeys lawfulValues new_eq =>
      exact (new_sound lawfulValues new_eq).1
  | changed _ reliable change tableSound =>
      exact (TableChange.ensures_apply tableSound change _ reliable).1.sound
  | @loaded table result format bytes tree _ order_eq decoded load_eq tableSound =>
      have lawful : Std.TransCmp format.order := by
        rw [order_eq]
        exact tableSound.lawfulKeys
      obtain ⟨treeOrder, nodes, represents⟩ := TreeFormat.decode_represents decoded
      have treeSound : tree.Sound := ⟨treeOrder ▸ lawful, nodes, represents⟩
      exact tableSound.loadUnique treeSound (treeOrder.trans order_eq) load_eq

/-- A run of changes leads from one reachable table to another. -/
theorem Reachable.run
    (reachable : table.Reachable)
    {backend : Backend}
    (reliable : backend.Reliable)
    (changes : List (TableChange Key Value)) :
    (TableChange.run table changes backend).1.2.Reachable := by
  induction changes generalizing table backend with
  | nil =>
      exact reachable
  | cons change rest inductionHypothesis =>
      have stays := (TableChange.ensures_apply reachable.sound change backend reliable).2
      exact inductionHypothesis (reachable.changed reliable change) stays

end Table

/-! ## Moves -/

/-- The moves of a table cursor. -/
inductive TableMove (Key Value : Type) where
  | plain (move : Move (Tuple Key Value))
  /-- Into the gap before the least tuple with a key at or above the given one. -/
  | beforeKey (key : Key)
  /-- Into the gap after the greatest tuple with a key at or below the given one. -/
  | afterKey (key : Key)
  deriving Repr, DecidableEq

namespace TableMove

/-- Make a move. -/
def perform (cursor : TableCursor Key Value) :
    TableMove Key Value → StoreM (Moved Report (TableCursor Key Value))
  | .plain move => Cursor.perform cursor move
  | .beforeKey key => return Cursor.reportPlaced (← cursor.beforeKey key)
  | .afterKey key => return Cursor.reportPlaced (← cursor.afterKey key)

/-- Make moves one after the other and see each. -/
def run (cursor : TableCursor Key Value) (moves : List (TableMove Key Value)) :
    StoreM (List (Cursor.Observation (Tuple Key Value)) × TableCursor Key Value) :=
  Cursor.runBy perform cursor moves

/-- Make a move over ordered tuples. -/
def performOnList
    (spec : TableSpec Key Value)
    (tuples : List (Tuple Key Value))
    (position : Position) :
    TableMove Key Value → Report × Position
  | .plain move => position.perform spec.order tuples move
  | .beforeKey key => (.placed, .before (spec.probeTuple key) tuples)
  | .afterKey key => (.placed, .after (spec.probeTuple key) tuples)

/-- Make moves over ordered tuples one after the other, from the gap in front. -/
def runOnList
    (spec : TableSpec Key Value)
    (tuples : List (Tuple Key Value))
    (moves : List (TableMove Key Value)) :
    List (Cursor.Observation (Tuple Key Value)) × Position :=
  Position.run tuples (performOnList spec tuples) (.gap 0) moves

theorem within_performOnList
    {spec : TableSpec Key Value}
    {tuples : List (Tuple Key Value)}
    {position : Position}
    (move : TableMove Key Value)
    (within : position.Within tuples.length) :
    (performOnList spec tuples position move).2.Within tuples.length := by
  cases move with
  | plain move =>
      exact Position.within_perform spec.order within move
  | beforeKey key =>
      exact Position.within_before (spec.probeTuple key) tuples
  | afterKey key =>
      exact Position.within_after (spec.probeTuple key) tuples

variable
  {table : Table Key Value}
  {stops : List (Stop Key Value)}
  {cursor : TableCursor Key Value}
  {position : Position}

theorem arrives
    (chain : table.Stops stops)
    (sound : table.Sound)
    (stands : TableCursor.Stands table stops cursor position)
    (move : TableMove Key Value) :
    Ensures .reliable (perform cursor move)
      (Cursor.Arrives (TableCursor.Stands table stops)
        (performOnList table.spec (listing stops) position move)) := by
  cases move with
  | plain move =>
      exact (TableCursor.follows chain sound).perform stands move
  | beforeKey key =>
      exact Cursor.arrives_placed (stands.ensures_beforeKey chain sound key)
  | afterKey key =>
      exact Cursor.arrives_placed (stands.ensures_afterKey chain sound key)

/-- From wherever a cursor stands, it shows the positions of a list of tuples. -/
theorem ensures_run
    (chain : table.Stops stops)
    (sound : table.Sound)
    (stands : TableCursor.Stands table stops cursor position)
    (moves : List (TableMove Key Value)) :
    Ensures .reliable (run cursor moves) fun outcome =>
      outcome.1 =
        (Position.run (listing stops) (performOnList table.spec (listing stops)) position
          moves).1 := by
  have followed :=
    (TableCursor.follows chain sound).runBy
      (fun move standsThere => arrives chain sound standsThere move) stands moves
  exact followed.weaken fun _ => And.left

end TableMove

/-- Cursors of a table that are opened and moved over stores that may fail at any call. -/
inductive TableCursor.Reached (table : Table Key Value) : TableCursor Key Value → Prop where
  | opened : Reached table table.cursor
  | moved
      {cursor : TableCursor Key Value}
      (reached : Reached table cursor)
      (backend : Backend)
      (move : TableMove Key Value) :
      Reached table (move.perform cursor backend).1.2

namespace Table

/-- What the cursors of a table show of it, as a list of tuples. -/
structure SeenAs
    (table : Table Key Value)
    (tuples : List (Tuple Key Value))
    (backend : Backend) :
    Prop where
  ascending : Order.Ascending table.spec.order tuples
  run_eq :
    ∀ moves,
      (TableMove.run table.cursor moves backend).1.1 =
        (TableMove.runOnList table.spec tuples moves).1
  /-- No tuple is shown exactly in gaps. -/
  gaps :
    ∀ moves,
      ∀ seen ∈ (TableMove.run table.cursor moves backend).1.1,
        seen.element = .error .invalidPosition ↔ seen.available = false
  forward :
    (TableMove.run table.cursor
          (List.replicate (tuples.length + 1) (.plain .next)) backend).1.1.map (·.element) =
      tuples.map .ok ++ [.error .invalidPosition]
  backward :
    (TableMove.run table.cursor
          (.plain .afterLast :: List.replicate (tuples.length + 1) (.plain .previous))
          backend).1.1.map (·.element) =
      .error .invalidPosition :: (tuples.reverse.map .ok ++ [.error .invalidPosition])

end Table

namespace TableCursor

variable {table : Table Key Value}

theorem stands_cursor (stops : List (Stop Key Value)) :
    Stands table stops table.cursor (.gap 0) :=
  @Stands.of_gap _ _ _ _ table.cursor _ rfl .beforeFirst rfl rfl

/-- Over stores that do not fail, every reachable table is seen as the list of its tuples. -/
theorem run_follows_tuples
    (reachable : table.Reachable)
    {backend : Backend}
    (reliable : backend.Reliable) :
    table.SeenAs (table.toList.map Tuple.ofPair) backend := by
  have sound := reachable.sound
  obtain ⟨stops, chain⟩ := sound.chain
  have run_eq (moves : List (TableMove Key Value)) :
      (TableMove.run table.cursor moves backend).1.1 =
        (TableMove.runOnList table.spec (listing stops) moves).1 := by
    have followed :=
      (follows chain sound).runBy
        (fun move stands => TableMove.arrives chain sound stands move) (stands_cursor stops) moves
    exact (followed backend reliable).1.1
  rw [← chain.listing_eq]
  refine ⟨chain.ascending_listing sound, run_eq, ?_, ?_, ?_⟩
  · intro moves
    rw [run_eq]
    exact Position.run_element_eq_error_iff TableMove.within_performOnList (Nat.zero_le _) moves
  · rw [run_eq]
    exact Position.run_forward (fun _ => rfl) (List.nil_append _).symm rfl
  · have elements_eq : listing stops = (listing stops).reverse.reverse ++ [] := by
      simp
    have back :
        (Position.run (listing stops) (TableMove.performOnList table.spec (listing stops))
              (.gap (listing stops).length)
              (List.replicate ((listing stops).length + 1) (.plain .previous))).1.map
            (·.element) =
          (listing stops).reverse.map .ok ++ [.error .invalidPosition] := by
      rw [← List.length_reverse]
      exact Position.run_backward (fun _ => rfl) elements_eq rfl
    rw [run_eq, TableMove.runOnList, Position.run_cons, List.map_cons]
    exact congrArg _ back

/-- Two groups, one of them in a store, whose keys `4` and `5` are one. -/
theorem run_follows_tuples_halves :
    ∃ table : Table Nat Char,
      (Table.new ⟨"halves", true, 2, none, none⟩ (Order.byRank (· / 2))
            (some (Order.byRank Char.toNat)) (.memory 1 .empty)).1 =
          .ok table ∧
        (TableMove.run
              (TableChange.run table [.put 5 'c', .put 4 'a', .put 5 'b', .put 9 'z']
                (.memory 1 .empty)).1.2.cursor
              (.replicate 5 (.plain .next)) (.memory 1 .empty)).1.1.map (·.element) =
          [.ok ⟨5, 'a'⟩, .ok ⟨5, 'b'⟩, .ok ⟨5, 'c'⟩, .ok ⟨9, 'z'⟩, .error .invalidPosition] := by
  have lawfulValues : ∀ order ∈ some (Order.byRank Char.toNat), Std.TransCmp order := by
    intro order isOrder
    cases isOrder
    infer_instance
  have opened :=
    Table.Reachable.opened inferInstance lawfulValues
      (rfl :
        (Table.new ⟨"halves", true, 2, none, none⟩ (Order.byRank fun key : Nat => key / 2)
            (some (Order.byRank Char.toNat)) (.memory 1 .empty)).1 =
          .ok _)
  have reliable : Backend.Reliable (.memory 1 .empty) := Or.inl rfl
  exact ⟨_, rfl,
    (run_follows_tuples
      (opened.run reliable [.put 5 'c', .put 4 'a', .put 5 'b', .put 9 'z']) reliable).forward⟩

end TableCursor

end OrderedIndex

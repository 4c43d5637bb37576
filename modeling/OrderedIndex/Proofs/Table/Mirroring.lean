import OrderedIndex.Proofs.Cursor.Mirroring
import OrderedIndex.Proofs.Table.MirroredMaps
import OrderedIndex.Proofs.Table.Transparency

namespace OrderedIndex

/-!
# Reversed comparators mirror a table

A table with the opposite orders of keys and of values goes through the same
changes with the same answers, though its trees and stores take other shapes.
What is asked about one side of a key or a value, the other table answers about
the opposite side, and a cursor from the one end shows along any moves what a
cursor from the other end shows along the turned ones.
-/

variable {Key Value : Type}

/-! ## Tuples in the opposite order -/

namespace TableSpec

variable {spec : TableSpec Key Value} {tuples : List (Tuple Key Value)}

/-- A reversed specification compares values the other way around. -/
theorem valueOrder_reversed (spec : TableSpec Key Value) :
    spec.reversed.valueOrder = spec.valueOrder.reversed := by
  have orderThere : spec.reversed.kind.order? = spec.kind.order?.map Order.reversed :=
    spec.kind.order?_reversed
  rw [valueOrder, valueOrder, orderThere]
  cases spec.kind.order? <;> rfl

/-- A reversed specification compares tuples the other way around. -/
theorem order_reversed (spec : TableSpec Key Value) :
    spec.reversed.order = spec.order.reversed := by
  rw [order, valueOrder_reversed]
  rfl

/-- The keys of ascending tuples do not descend, so every key parts the tuples. -/
theorem parts_probeTuple
    [Std.TransCmp spec.keys]
    (ascending : Order.Ascending spec.order tuples)
    (key : Key) :
    Order.Parts (spec.probeTuple key) tuples := by
  -- All tuples of one key are equal to it, so a key parts them but need not separate them.
  refine Order.Parts.of_isLE (ascending.imp ?_) key
  intro earlier later before
  cases compared : spec.keys earlier.key later.key with
  | lt =>
      rfl
  | eq =>
      rfl
  | gt =>
      rw [order_of_gt earlier later compared] at before
      contradiction

end TableSpec

namespace TableMove

/-- The same move over the tuples in the opposite order. -/
def reversed : TableMove Key Value → TableMove Key Value
  | .plain move => .plain move.reversed
  | .beforeKey key => .afterKey key
  | .afterKey key => .beforeKey key

variable
  {spec : TableSpec Key Value}
  [Std.TransCmp spec.keys]
  [Std.TransCmp spec.valueOrder]
  {tuples : List (Tuple Key Value)}
  {position : Position}

/-- A mirrored move over the reversed tuples leads to the mirrored position. -/
theorem performOnList_mirrored
    (ascending : Order.Ascending spec.order tuples)
    (move : TableMove Key Value)
    (within : position.Within tuples.length) :
    performOnList spec.reversed tuples.reverse (position.mirrored tuples.length) move.reversed =
      ((performOnList spec tuples position move).1,
        (performOnList spec tuples position move).2.mirrored tuples.length) := by
  have lawful : Std.TransCmp spec.order := Tuple.order_transCmp
  have probe_eq (key : Key) : spec.reversed.probeTuple key = Order.swapped (spec.probeTuple key) :=
    funext fun tuple => congrFun (Order.reversed_eq_swapped spec.keys key) tuple.key
  cases move with
  | plain move =>
      rw [reversed, performOnList, TableSpec.order_reversed]
      exact Position.perform_mirrored ascending within move
  | beforeKey key =>
      have parts := TableSpec.parts_probeTuple ascending key
      have turned := Position.after_reverse parts
      rw [← probe_eq] at turned
      exact congrArg (Report.placed, ·) turned
  | afterKey key =>
      have parts := TableSpec.parts_probeTuple ascending key
      have turned := Position.before_reverse parts
      rw [← probe_eq] at turned
      exact congrArg (Report.placed, ·) turned

/-- Turned moves from behind all tuples show what the moves show from in front of them. -/
theorem runOnList_mirrored
    (ascending : Order.Ascending spec.order tuples)
    (moves : List (TableMove Key Value)) :
    (Position.run tuples.reverse (performOnList spec.reversed tuples.reverse)
          (.gap tuples.reverse.length) (moves.map reversed)).1 =
      (runOnList spec tuples moves).1 := by
  have atFront : (Position.gap 0).Within tuples.length := Nat.zero_le tuples.length
  rw [List.length_reverse]
  exact Position.run_mirrored within_performOnList (performOnList_mirrored ascending) atFront moves

end TableMove

namespace Table

/--
Two tables, each over its own backend, answer alike once one of them is looked
at from the other end.
-/
structure Mirrors
    (first second : Table Key Value)
    (firstBackend secondBackend : Backend) :
    Prop where
  name_eq : second.name = first.name
  keyOrder_eq : second.keyOrder = first.keyOrder.reversed
  valueOrder?_eq : second.valueOrder? = first.valueOrder?.map Order.reversed
  allowsDuplicates_eq : second.allowsDuplicates = first.allowsDuplicates
  toList_eq : second.toList = first.toList.reverse
  count_eq : second.count = first.count
  keyCount_eq : second.keyCount = first.keyCount
  isEmpty_eq : second.isEmpty = first.isEmpty
  get_eq : ∀ key, second.get key = first.get key
  has_eq : ∀ key, second.has key = first.has key
  hasAtLeast_eq : ∀ key, second.hasAtLeast key = first.hasAtMost key
  hasAtMost_eq : ∀ key, second.hasAtMost key = first.hasAtLeast key
  hasValue_eq :
    ∀ key value,
      (second.hasValue key value secondBackend).1 = (first.hasValue key value firstBackend).1
  hasValueAtLeast_eq :
    ∀ key value,
      (second.hasValueAtLeast key value secondBackend).1 =
        (first.hasValueAtMost key value firstBackend).1
  hasValueAtMost_eq :
    ∀ key value,
      (second.hasValueAtMost key value secondBackend).1 =
        (first.hasValueAtLeast key value firstBackend).1
  countKey_eq :
    ∀ key, (second.countKey key secondBackend).1 = (first.countKey key firstBackend).1
  countAbove_eq :
    ∀ key, (second.countAbove key secondBackend).1 = (first.countBelow key firstBackend).1
  countBelow_eq :
    ∀ key, (second.countBelow key secondBackend).1 = (first.countAbove key firstBackend).1
  /-- A cursor behind all tuples shows along the turned moves what one in front of them shows. -/
  cursor_eq :
    ∀ moves,
      (TableMove.run second.cursor.afterLast (moves.map TableMove.reversed) secondBackend).1.1 =
        (TableMove.run first.cursor moves firstBackend).1.1
  /-- The scan from the front of the one table shows its tuples in order. -/
  forward :
    (TableMove.run first.cursor
          (List.replicate (first.toList.length + 1) (.plain .next)) firstBackend).1.1.map
        (·.element) =
      (first.toList.map Tuple.ofPair).map .ok ++ [.error .invalidPosition]
  /-- The scan from the end of the other shows the same. -/
  backward :
    (TableMove.run second.cursor.afterLast
          (List.replicate (first.toList.length + 1) (.plain .previous)) secondBackend).1.1.map
        (·.element) =
      (first.toList.map Tuple.ofPair).map .ok ++ [.error .invalidPosition]
  /-- Cursors over the values of a key show the same from the two ends. -/
  valueCursor_eq :
    ∀ key moves,
      (second.runValues key (.afterLast :: moves.map Move.reversed) secondBackend).1 =
        (first.runValues key (.beforeFirst :: moves) firstBackend).1

variable {table : Table Key Value}

namespace Sound

/-- The map of a sound table is sorted. -/
theorem sorted (sound : table.Sound) : table.spec.Sorted table.groups := by
  refine ⟨sound.ordered, ?_⟩
  intro order isOrder pair member
  have ascending := (sound.admitted pair member).ascending
  rw [Option.mem_def.mp isOrder] at ascending
  exact ascending

/-- A cursor behind all tuples shows the positions of a list of tuples. -/
theorem ensures_run_afterLast
    (sound : table.Sound)
    (moves : List (TableMove Key Value)) :
    Ensures .reliable (TableMove.run table.cursor.afterLast moves) fun outcome =>
      outcome.1 =
        (Position.run (table.toList.map Tuple.ofPair)
          (TableMove.performOnList table.spec (table.toList.map Tuple.ofPair))
          (.gap (table.toList.map Tuple.ofPair).length) moves).1 := by
  obtain ⟨stops, chain⟩ := sound.chain
  rw [← chain.listing_eq]
  exact TableMove.ensures_run chain sound (TableCursor.Stands.to_afterLast rfl) moves

/-- The values of a key are in order, and there are none under other keys. -/
theorem ascending_valuesOf
    (sound : table.Sound)
    (key : Key) :
    Order.Ascending table.spec.valueOrder
      ((table.spec.valuesOf? table.groups key).getD []) := by
  cases valuesOf : table.spec.valuesOf? table.groups key with
  | none =>
      exact List.Pairwise.nil
  | some values =>
      obtain ⟨pair, member, rfl⟩ := TableSpec.exists_pair_of_valuesOf? valuesOf
      exact (sound.admitted pair member).ascending

end Sound

/-- Sound tables of one map, which one of them has read from the end. -/
structure Opposed (first second : Table Key Value) : Prop where
  firstSound : first.Sound
  secondSound : second.Sound
  spec_eq : second.spec = first.spec.reversed
  groups_eq : second.groups = TableSpec.mirrored first.groups

namespace Opposed

variable {first second : Table Key Value}

/-- Tables that are opposed are so from either side. -/
theorem symm (opposed : first.Opposed second) : second.Opposed first where
  firstSound := opposed.secondSound
  secondSound := opposed.firstSound
  spec_eq := by rw [opposed.spec_eq, TableSpec.reversed_reversed]
  groups_eq := by rw [opposed.groups_eq, TableSpec.mirrored_mirrored]

/-- The second table presents the map of the first one read from the end. -/
theorem presents (opposed : first.Opposed second) :
    second.Presents first.spec.reversed (TableSpec.mirrored first.groups) := by
  have presents := opposed.secondSound.presents
  rw [opposed.spec_eq, opposed.groups_eq] at presents
  exact presents

/-! ## Questions about keys -/

/-- The tuples of opposed tables are each other's, read from the end. -/
theorem toList_eq (opposed : first.Opposed second) : second.toList = first.toList.reverse := by
  rw [opposed.presents.toList_eq, TableSpec.tuples_mirrored, toList_eq_tuples]

/-- Opposed tables have the same value under a key. -/
theorem get_eq
    (opposed : first.Opposed second)
    (key : Key) :
    second.get key = first.get key := by
  have lawful := opposed.firstSound.lawfulKeys
  have presents := opposed.firstSound.presents
  rw [opposed.presents.get_eq, presents.get_eq,
    TableSpec.get_mirrored presents.ordered presents.admitted]

/-- Opposed tables have the same keys. -/
theorem has_eq
    (opposed : first.Opposed second)
    (key : Key) :
    second.has key = first.has key := by
  have lawful := opposed.firstSound.lawfulKeys
  have presents := opposed.firstSound.presents
  rw [opposed.presents.has_eq, presents.has_eq, TableSpec.valuesOf?_mirrored presents.ordered,
    Option.isSome_map]

/-- A key at or above the sought one is at or below it in the opposed table. -/
theorem hasAtLeast_eq
    (opposed : first.Opposed second)
    (key : Key) :
    second.hasAtLeast key = first.hasAtMost key := by
  have lawful := opposed.firstSound.lawfulKeys
  rw [opposed.presents.hasAtLeast_eq, opposed.firstSound.hasAtMost_eq, TableSpec.any_mirrored]

/-! ## Questions to the backends -/

section Backends

variable
  {firstBackend secondBackend : Backend}
  (firstReliable : firstBackend.Reliable)
  (secondReliable : secondBackend.Reliable)

include firstReliable secondReliable

/-- A question about values has the answer of the question that is turned with them. -/
theorem askValues_eq
    (opposed : first.Opposed second)
    {asked turned : StoreM (Except IndexError Bool)}
    {question opposite : (Value → Ordering) → List Value → Bool}
    (turns :
      ∀ {probe : Value → Ordering} {values : List Value},
        Order.Separates probe values →
        opposite (Order.swapped probe) values.reverse = question probe values)
    {key : Key}
    {value : Value}
    (firstAnswers :
      Ensures .reliable asked fun answer =>
        answer = first.spec.askValues first.groups key value question)
    (secondAnswers :
      Ensures .reliable turned fun answer =>
        answer =
          first.spec.reversed.askValues (TableSpec.mirrored first.groups) key value opposite) :
    (turned secondBackend).1 = (asked firstBackend).1 := by
  have lawful := opposed.firstSound.lawfulKeys
  rw [TableSpec.askValues_mirrored turns opposed.firstSound.lawfulValues
    opposed.firstSound.sorted] at secondAnswers
  exact answer_eq_of_ensures secondAnswers firstAnswers secondReliable firstReliable

/-- Opposed tables have the same values under a key. -/
theorem hasValue_eq
    (opposed : first.Opposed second)
    (key : Key)
    (value : Value) :
    (second.hasValue key value secondBackend).1 = (first.hasValue key value firstBackend).1 :=
  opposed.askValues_eq firstReliable secondReliable
    (fun separates => congrArg Option.isSome separates.split.lookup?_reverse)
    (opposed.firstSound.hasValue_eq key value) (opposed.presents.hasValue_eq key value)

/-- A value at or above the sought one is at or below it in the opposed table. -/
theorem hasValueAtLeast_eq
    (opposed : first.Opposed second)
    (key : Key)
    (value : Value) :
    (second.hasValueAtLeast key value secondBackend).1 =
      (first.hasValueAtMost key value firstBackend).1 := by
  refine opposed.askValues_eq firstReliable secondReliable ?_
    (opposed.firstSound.hasValueAtMost_eq key value)
    (opposed.presents.hasValueAtLeast_eq key value)
  intro probe values _
  rw [List.any_reverse]
  exact congrArg values.any (funext Order.swapped_bne_gt)

/-- Opposed tables count the same values under a key. -/
theorem countKey_eq
    (opposed : first.Opposed second)
    (key : Key) :
    (second.countKey key secondBackend).1 = (first.countKey key firstBackend).1 := by
  have lawful := opposed.firstSound.lawfulKeys
  have presents := opposed.firstSound.presents
  have counted := opposed.presents.countKey_eq key
  have sameLength : (List.length ∘ List.reverse : List Value → Nat) = List.length :=
    funext fun _ => List.length_reverse
  rw [TableSpec.valuesOf?_mirrored presents.ordered, Option.map_map, sameLength] at counted
  exact answer_eq_of_ensures counted (presents.countKey_eq key) secondReliable firstReliable

/-- What is above a key in the one table is below it in the opposed one. -/
theorem countAbove_eq
    (opposed : first.Opposed second)
    (key : Key) :
    (second.countAbove key secondBackend).1 = (first.countBelow key firstBackend).1 := by
  have lawful := opposed.firstSound.lawfulKeys
  have counted := opposed.secondSound.countAbove_eq key
  rw [opposed.spec_eq, opposed.groups_eq,
    TableSpec.upper_mirrored opposed.firstSound.ordered, TableSpec.size_mirrored] at counted
  exact answer_eq_of_ensures counted (opposed.firstSound.countBelow_eq key) secondReliable
    firstReliable

/-! ## Cursors -/

/-- A run from the one end shows what the mirrored run shows from the other end. -/
theorem cursor_eq
    (opposed : first.Opposed second)
    (moves : List (TableMove Key Value)) :
    (TableMove.run second.cursor.afterLast (moves.map TableMove.reversed) secondBackend).1.1 =
      (TableMove.run first.cursor moves firstBackend).1.1 := by
  have lawful := opposed.firstSound.lawfulKeys
  have lawfulValues := opposed.firstSound.lawfulValueOrder
  have ascending : Order.Ascending first.spec.order (first.toList.map Tuple.ofPair) := by
    obtain ⟨stops, chain⟩ := opposed.firstSound.chain
    rw [← chain.listing_eq]
    exact chain.ascending_listing opposed.firstSound
  have seen := opposed.secondSound.ensures_run_afterLast (moves.map TableMove.reversed)
  rw [opposed.spec_eq, opposed.toList_eq, List.map_reverse,
    TableMove.runOnList_mirrored ascending] at seen
  exact (seen secondBackend secondReliable).1.trans
    (opposed.firstSound.ensures_run_cursor moves firstBackend firstReliable).1.symm

/-- The values under a key show the same to a run from the one end and to its mirror. -/
theorem valueCursor_eq
    (opposed : first.Opposed second)
    (key : Key)
    (moves : List (Move Value)) :
    (second.runValues key (.afterLast :: moves.map Move.reversed) secondBackend).1 =
      (first.runValues key (.beforeFirst :: moves) firstBackend).1 := by
  have lawful := opposed.firstSound.lawfulKeys
  have lawfulValues := opposed.firstSound.lawfulValueOrder
  have ascending := opposed.firstSound.ascending_valuesOf key
  have seen := opposed.secondSound.ensures_runValues key (.afterLast :: moves.map Move.reversed)
  have valuesThere :
      (second.spec.valuesOf? second.groups key).getD [] =
        ((first.spec.valuesOf? first.groups key).getD []).reverse := by
    rw [opposed.spec_eq, opposed.groups_eq, TableSpec.valuesOf?_mirrored opposed.firstSound.ordered]
    cases first.spec.valuesOf? first.groups key <;> rfl
  have atFront :
      (Position.gap 0).Within ((first.spec.valuesOf? first.groups key).getD []).length :=
    Nat.zero_le _
  have turned := Position.run_perform_mirrored ascending atFront (.beforeFirst :: moves)
  rw [valuesThere, opposed.spec_eq, TableSpec.valueOrder_reversed] at seen
  -- The first move is a placement, so it does not matter where the cursors start.
  exact ((seen secondBackend secondReliable).1.trans (congrArg Except.ok turned)).trans
    (opposed.firstSound.ensures_runValues key (.beforeFirst :: moves) firstBackend
      firstReliable).1.symm

/-- Tables of the two sides of a map mirror each other. -/
theorem mirrors (opposed : first.Opposed second) :
    first.Mirrors second firstBackend secondBackend := by
  have presents := opposed.firstSound.presents
  have others := opposed.presents
  have forward :
      (TableMove.run first.cursor
            (List.replicate (first.toList.length + 1) (.plain .next)) firstBackend).1.1.map
          (·.element) =
        (first.toList.map Tuple.ofPair).map .ok ++ [.error .invalidPosition] := by
    rw [(opposed.firstSound.ensures_run_cursor _ firstBackend firstReliable).1,
      ← List.length_map Tuple.ofPair]
    exact Position.run_forward (fun _ => rfl) (List.nil_append _).symm rfl
  refine {
    name_eq := congrArg TableSpec.name opposed.spec_eq
    keyOrder_eq := congrArg TableSpec.keys opposed.spec_eq
    valueOrder?_eq := ?_
    allowsDuplicates_eq := ?_
    toList_eq := opposed.toList_eq
    count_eq := ?_
    keyCount_eq := ?_
    isEmpty_eq := ?_
    get_eq := opposed.get_eq
    has_eq := opposed.has_eq
    hasAtLeast_eq := opposed.hasAtLeast_eq
    hasAtMost_eq := fun key => (opposed.symm.hasAtLeast_eq key).symm
    hasValue_eq := opposed.hasValue_eq firstReliable secondReliable
    hasValueAtLeast_eq := opposed.hasValueAtLeast_eq firstReliable secondReliable
    hasValueAtMost_eq := fun key value =>
      (opposed.symm.hasValueAtLeast_eq secondReliable firstReliable key value).symm
    countKey_eq := opposed.countKey_eq firstReliable secondReliable
    countAbove_eq := opposed.countAbove_eq firstReliable secondReliable
    countBelow_eq := fun key =>
      (opposed.symm.countAbove_eq secondReliable firstReliable key).symm
    cursor_eq := opposed.cursor_eq firstReliable secondReliable
    forward := forward
    backward := ?_
    valueCursor_eq := opposed.valueCursor_eq firstReliable secondReliable }
  · rw [← opposed.firstSound.order?_eq, ← opposed.secondSound.order?_eq, opposed.spec_eq]
    exact first.spec.kind.order?_reversed
  · have kind_eq : second.spec.kind = first.spec.kind.reversed :=
      congrArg TableSpec.kind opposed.spec_eq
    rw [Table.allowsDuplicates_eq, Table.allowsDuplicates_eq, kind_eq]
    cases first.spec.kind <;> rfl
  · rw [others.count_eq, presents.count_eq, TableSpec.size_mirrored]
  · rw [others.keyCount_eq, presents.keyCount_eq, TableSpec.mirrored, List.length_map,
      List.length_reverse]
  · rw [others.isEmpty_eq, presents.isEmpty_eq, TableSpec.mirrored, List.isEmpty_map,
      List.isEmpty_reverse]
  · have back :=
      opposed.cursor_eq firstReliable secondReliable
        (List.replicate (first.toList.length + 1) (.plain .next))
    rw [List.map_replicate] at back
    exact (congrArg (List.map (·.element)) back).trans forward

end Backends

end Opposed

end Table

/-- Settings open a table with the opposite orders as well. -/
theorem TableConfig.Opens.reversed
    {config : TableConfig}
    {valueOrder? : Option (Order Value)}
    {backend : Backend}
    (opens : config.Opens valueOrder? backend) :
    config.Opens (valueOrder?.map Order.reversed) backend where
  limited := opens.limited
  distinguishes isOn := by
    rw [Option.isSome_map]
    exact opens.distinguishes isOn
  reliable := opens.reliable
  suits := opens.suits

/-- New tables with opposite orders are those of the empty map. -/
theorem Table.exists_opposed
    {config : TableConfig}
    (keyOrder : Order Key)
    [Std.TransCmp keyOrder]
    {valueOrder? : Option (Order Value)}
    (lawfulValues : ∀ order ∈ valueOrder?, Std.TransCmp order)
    {firstBackend secondBackend : Backend}
    (firstOpens : config.Opens valueOrder? firstBackend)
    (secondOpens : config.Opens valueOrder? secondBackend) :
    ∃ (first second : Table Key Value) (firstStarted secondStarted : Backend),
      Table.new config keyOrder valueOrder? firstBackend = (.ok first, firstStarted) ∧
        Table.new config keyOrder.reversed (valueOrder?.map Order.reversed) secondBackend =
            (.ok second, secondStarted) ∧
          first.Opposed second ∧ firstStarted.Reliable ∧ secondStarted.Reliable := by
  have lawfulReversed : ∀ order ∈ valueOrder?.map Order.reversed, Std.TransCmp order := by
    intro order isOrder
    obtain ⟨original, isOriginal, rfl⟩ := Option.map_eq_some_iff.mp isOrder
    have lawful := lawfulValues original isOriginal
    exact Order.reversed_transCmp original
  obtain ⟨first, firstStarted, firstOpened, firstReliable⟩ := firstOpens.new_eq keyOrder
  obtain ⟨second, secondStarted, secondOpened, secondReliable⟩ :=
    secondOpens.reversed.new_eq keyOrder.reversed
  obtain ⟨firstSound, firstSpec, firstEmpty⟩ :=
    Table.new_sound lawfulValues (congrArg Prod.fst firstOpened)
  obtain ⟨secondSound, secondSpec, secondEmpty⟩ :=
    Table.new_sound lawfulReversed (congrArg Prod.fst secondOpened)
  refine ⟨first, second, firstStarted, secondStarted, firstOpened, secondOpened,
    ⟨firstSound, secondSound, ?_, ?_⟩, firstReliable, secondReliable⟩
  · rw [secondSpec, firstSpec, TableSpec.ofSettings_reversed]
  · rw [secondEmpty, firstEmpty]
    rfl

/-- The same changes have the same answers and lead again to tables of one map. -/
theorem TableChange.run_opposed
    {first second : Table Key Value}
    (opposed : first.Opposed second)
    {firstBackend secondBackend : Backend}
    (firstReliable : firstBackend.Reliable)
    (secondReliable : secondBackend.Reliable)
    (changes : List (TableChange Key Value)) :
    (run second changes secondBackend).1.1 = (run first changes firstBackend).1.1 ∧
      (run first changes firstBackend).1.2.Opposed (run second changes secondBackend).1.2 := by
  have lawfulKeys := opposed.firstSound.lawfulKeys
  have sorted := opposed.firstSound.sorted
  obtain ⟨firstEnds, firstStays, firstOutcome⟩ :=
    (ensures_run opposed.firstSound changes firstBackend firstReliable).1
  obtain ⟨secondEnds, secondStays, secondOutcome⟩ :=
    (ensures_run opposed.secondSound changes secondBackend secondReliable).1
  rw [opposed.spec_eq, opposed.groups_eq,
    runOnMap_mirrored opposed.firstSound.lawfulValues sorted, ← firstOutcome] at secondOutcome
  obtain ⟨answers_eq, groups_eq⟩ := Prod.mk.inj secondOutcome
  exact ⟨answers_eq, firstEnds, secondEnds, by rw [secondStays, firstStays, opposed.spec_eq],
    groups_eq⟩

/--
A table with the opposite orders gives the same answers to the same changes, and
then each of the two tables is the mirror image of the other.
-/
theorem TableChange.run_mirrors
    (config : TableConfig)
    (keyOrder : Order Key)
    [Std.TransCmp keyOrder]
    (valueOrder? : Option (Order Value))
    (lawfulValues : ∀ order ∈ valueOrder?, Std.TransCmp order)
    (firstBackend secondBackend : Backend)
    (firstOpens : config.Opens valueOrder? firstBackend)
    (secondOpens : config.Opens valueOrder? secondBackend)
    (changes : List (TableChange Key Value)) :
    ∃ (first second : Table Key Value) (firstStarted secondStarted : Backend),
      Table.new config keyOrder valueOrder? firstBackend = (.ok first, firstStarted) ∧
        Table.new config keyOrder.reversed (valueOrder?.map Order.reversed) secondBackend =
            (.ok second, secondStarted) ∧
          (run second changes secondStarted).1.1 = (run first changes firstStarted).1.1 ∧
            (run first changes firstStarted).2.Reliable ∧
              (run second changes secondStarted).2.Reliable ∧
                ∀ firstLater secondLater : Backend,
                  firstLater.Reliable →
                  secondLater.Reliable →
                  (run first changes firstStarted).1.2.Mirrors
                      (run second changes secondStarted).1.2 firstLater secondLater ∧
                    (run second changes secondStarted).1.2.Mirrors
                      (run first changes firstStarted).1.2 secondLater firstLater := by
  obtain ⟨first, second, firstStarted, secondStarted, firstOpened, secondOpened, opposed,
    firstReliable, secondReliable⟩ :=
    Table.exists_opposed keyOrder lawfulValues firstOpens secondOpens
  obtain ⟨answers_eq, stillOpposed⟩ := run_opposed opposed firstReliable secondReliable changes
  refine ⟨first, second, firstStarted, secondStarted, firstOpened, secondOpened, answers_eq,
    (ensures_run opposed.firstSound changes firstStarted firstReliable).2,
    (ensures_run opposed.secondSound changes secondStarted secondReliable).2, ?_⟩
  intro firstLater secondLater firstLaterReliable secondLaterReliable
  exact ⟨stillOpposed.mirrors firstLaterReliable secondLaterReliable,
    stillOpposed.symm.mirrors secondLaterReliable firstLaterReliable⟩

/-- The keys `4` and `5` are one from either side, and their values come in the opposite order. -/
theorem TableChange.run_mirrors_halves :
    ∃ (first second : Table Nat Char) (firstStarted secondStarted : Backend),
      Table.new ⟨"halves", true, 2, none, none⟩ (Order.byRank (· / 2))
            (some (Order.byRank Char.toNat)) (.memory 1 .empty) =
          (.ok first, firstStarted) ∧
        Table.new ⟨"halves", true, 2, none, none⟩ (Order.byRank (· / 2)).reversed
              (some (Order.byRank Char.toNat).reversed) (.memory 1 .empty) =
            (.ok second, secondStarted) ∧
          (run first [.put 5 'c', .put 4 'a', .put 5 'b', .put 9 'z', .removeValue 4 'c']
                firstStarted).1.2.Mirrors
            (run second [.put 5 'c', .put 4 'a', .put 5 'b', .put 9 'z', .removeValue 4 'c']
                secondStarted).1.2
            (.memory 1 .empty) (.memory 1 .empty) ∧
          (run second [.put 5 'c', .put 4 'a', .put 5 'b', .put 9 'z', .removeValue 4 'c']
                secondStarted).1.2.toList =
            [(9, 'z'), (5, 'b'), (5, 'a')] := by
  have opens :
      TableConfig.Opens ⟨"halves", true, 2, none, none⟩ (some (Order.byRank Char.toNat))
        (.memory 1 .empty) :=
    ⟨by decide, fun _ => rfl, Or.inl rfl, Or.inl ⟨rfl, rfl⟩⟩
  have lawfulValues : ∀ order ∈ some (Order.byRank Char.toNat), Std.TransCmp order := by
    intro order isOrder
    cases isOrder
    infer_instance
  obtain
      ⟨first, second, firstStarted, secondStarted, firstOpened, secondOpened, _, _, _, mirrors⟩ :=
    run_mirrors ⟨"halves", true, 2, none, none⟩ (Order.byRank fun key : Nat => key / 2)
      (some (Order.byRank Char.toNat)) lawfulValues (.memory 1 .empty) (.memory 1 .empty) opens
      opens [.put 5 'c', .put 4 'a', .put 5 'b', .put 9 'z', .removeValue 4 'c']
  have mirror := (mirrors (.memory 1 .empty) (.memory 1 .empty) (Or.inl rfl) (Or.inl rfl)).1
  refine ⟨first, second, firstStarted, secondStarted, firstOpened, secondOpened, mirror, ?_⟩
  rw [mirror.toList_eq]
  cases firstOpened
  rfl

end OrderedIndex

import OrderedIndex.Proofs.Table.CursorCalls
import OrderedIndex.Proofs.Table.Stops
import OrderedIndex.Table.Cursor

namespace OrderedIndex.TableCursor

/-!
# Table cursors as positions among the tuples

A table cursor is at an end or among the values of a stop, and there a position
among the values is one among all tuples, behind those of the earlier stops.
The gap between two stops has two forms: behind the values of one and in front
of those of the next.

Where calls may fail, a failed move can leave a cursor at a place that it does
not show: the place among the tuples is one thing, what the cursor shows another.
-/

open TreeNode

variable
  {regime : Regime}
  {Key Value : Type}
  {table : Table Key Value}
  {stops below above : List (Stop Key Value)}
  {stop : Stop Key Value}
  {cursor : TableCursor Key Value}
  {position : Position}

/-- Where among all tuples a table cursor is. -/
inductive Place (table : Table Key Value) (stops : List (Stop Key Value)) :
    TablePosition Value → Position → Prop where
  | beforeFirst : Place table stops .beforeFirst (.gap 0)
  | afterLast : Place table stops .afterLast (.gap (listing stops).length)
  | within
      {below above : List (Stop Key Value)}
      {stop : Stop Key Value}
      {values : ValueCursor Value}
      {inner : Position}
      (stops_eq : stops = below ++ stop :: above)
      (stands : ValueCursor.Stands table.spec.valueOrder stop.value values inner) :
      Place table stops (.within stop.id values) (inner.shift (listing below).length)

/-- The position of a cursor among all tuples, whatever it shows. -/
structure Positioned
    (table : Table Key Value)
    (stops : List (Stop Key Value))
    (cursor : TableCursor Key Value)
    (position : Position) :
    Prop where
  table_eq : cursor.table = table
  place : Place table stops cursor.position position

/-- The position of a cursor among all tuples, with its copy of the tuple it is on. -/
structure Stands
    (table : Table Key Value)
    (stops : List (Stop Key Value))
    (cursor : TableCursor Key Value)
    (position : Position) :
    Prop where
  table_eq : cursor.table = table
  place : Place table stops cursor.position position
  available_eq : cursor.available = position.isOn
  tuple_eq : ∀ tuple, position.get (listing stops) = .ok tuple → cursor.tuple = some tuple

/-- The tuples of a stop among those of all. -/
theorem listing_split (stops_eq : stops = below ++ stop :: above) :
    listing stops = listing below ++ (stop.tuples ++ listing above) := by
  rw [stops_eq, listing_append, listing_cons]

/-- A stop in the middle is the last one of those up to it. -/
theorem regroup (stops_eq : stops = below ++ stop :: above) :
    stops = (below ++ [stop]) ++ above := by
  rw [stops_eq, List.append_assoc, List.singleton_append]

/-- Another stop adds its values to the listing. -/
theorem length_listing_concat (below : List (Stop Key Value)) (stop : Stop Key Value) :
    (listing (below ++ [stop])).length = (listing below).length + stop.value.length := by
  rw [listing_append, listing_cons, listing_nil, List.append_nil, List.length_append,
    Stop.length_tuples]

/-- The values of a stop and those in front are part of the listing. -/
theorem fits (stops_eq : stops = below ++ stop :: above) :
    (listing below).length + stop.value.length ≤ (listing stops).length := by
  rw [listing_split stops_eq, List.length_append, List.length_append, Stop.length_tuples]
  exact Nat.add_le_add_left (Nat.le_add_right _ _) _

/-- A place among the stops is a place in the listing. -/
theorem Place.within_listing
    {place : TablePosition Value}
    (placed : Place table stops place position) :
    position.Within (listing stops).length := by
  cases placed with
  | beforeFirst =>
      exact Nat.zero_le _
  | afterLast =>
      exact Nat.le_refl _
  | within stops_eq stands =>
      exact Position.within_shift stands.within (fits stops_eq)

/--
A cursor after a move that has failed: it is at some place, and shows the tuple
that it has shown before, or none.
-/
structure Interrupted
    (table : Table Key Value)
    (stops : List (Stop Key Value))
    (before : TableCursor Key Value)
    (available : Bool)
    (position : Position)
    (after : TableCursor Key Value) :
    Prop where
  positioned : Positioned table stops after position
  available_eq : after.available = available
  tuple_eq : after.tuple = before.tuple

namespace Stands

/-- A cursor that stands at a position is positioned there. -/
theorem positioned (stands : Stands table stops cursor position) :
    Positioned table stops cursor position :=
  ⟨stands.table_eq, stands.place⟩

/-- A cursor in a gap needs no tuple. -/
theorem of_gap
    (table_eq : cursor.table = table)
    (place : Place table stops cursor.position position)
    (available_eq : cursor.available = false)
    (isGap : position.isOn = false) :
    Stands table stops cursor position := by
  refine ⟨table_eq, place, available_eq.trans isGap.symm, ?_⟩
  intro tuple shown
  have noTuple := (Position.get_eq_error_iff place.within_listing).mpr isGap
  rw [noTuple] at shown
  contradiction

/-- A cursor shows the tuple at its position. -/
theorem get_eq (stands : Stands table stops cursor position) :
    cursor.get = position.get (listing stops) := by
  unfold get
  rw [stands.available_eq]
  cases position with
  | on place =>
      have inside : place < (listing stops).length := stands.place.within_listing
      have shown : (Position.on place).get (listing stops) = .ok (listing stops)[place] := by
        rw [Position.get, List.getElem?_eq_getElem inside]
      rw [stands.tuple_eq _ shown, shown]
      rfl
  | gap place =>
      cases cursor.tuple <;> rfl

/-- Before the first tuple there are none in front. -/
theorem to_beforeFirst (table_eq : cursor.table = table) :
    Stands table stops cursor.beforeFirst (.gap 0) :=
  @of_gap _ _ _ _ cursor.beforeFirst _ table_eq .beforeFirst rfl rfl

/-- After the last tuple all are in front. -/
theorem to_afterLast (table_eq : cursor.table = table) :
    Stands table stops cursor.afterLast (.gap (listing stops).length) :=
  @of_gap _ _ _ _ cursor.afterLast _ table_eq .afterLast rfl rfl

end Stands

/-! ## Steps -/

/-- Opening a cursor over the values of a stop browses their store, if they have one. -/
theorem performs_valuesAt
    (chain : table.Stops stops)
    (stops_eq : stops = below ++ stop :: above) :
    Performs regime (table.valuesAt stop.id) fun
      | .ok values, events =>
          ValueCursor.Stands table.spec.valueOrder stop.value values (.gap 0) ∧
            events = values.browses
      | .error _, events => regime.mayFail ∧ events.length = 1 := by
  refine
    ((table.performs_valuesAt stop.id).and_ensures (chain.ensures_valuesAt stops_eq)).weaken ?_
  rintro (cause | values) events opened
  · exact opened
  · exact opened

/-- A cursor that has found a value loads its tuple. -/
theorem reaches_load
    (chain : table.Stops stops)
    (stops_eq : stops = below ++ stop :: above)
    {values : ValueCursor Value}
    {inner : Position}
    (stands : ValueCursor.Stands table.spec.valueOrder stop.value values inner)
    (isOn : inner.isOn = true)
    {tuple : Option (Tuple Key Value)}
    {available : Bool}
    {failed : TableCursor Key Value → List StoreEvent → Prop}
    {events : List StoreEvent} :
    regime.Reaches (Stands table stops) (true, inner.shift (listing below).length) failed
      (load ⟨table, .within stop.id values, tuple, available⟩) events := by
  have shown :
      (inner.shift (listing below).length).get (listing stops) =
        inner.get stop.tuples := by
    rw [listing_split stops_eq]
    refine Position.get_shift ?_ _ _
    rw [Stop.length_tuples]
    exact stands.within
  cases inner with
  | gap place =>
      contradiction
  | on place =>
      have inside : place < stop.value.length := stands.within
      have reached : values.get = .ok stop.value[place] := by
        rw [stands.get_eq, Position.get, List.getElem?_eq_getElem inside]
      simp only [load, chain.key?_eq stops_eq, reached]
      refine ⟨rfl, rfl, .within stops_eq stands, rfl, ?_⟩
      intro tuple isShown
      rw [shown, Position.get, Stop.tuples, List.getElem?_map,
        List.getElem?_eq_getElem inside] at isShown
      cases isShown
      rfl

/-- A step that stays among the values of a stop loads the tuple it has found. -/
theorem reaches_load_next
    (chain : table.Stops stops)
    (stops_eq : stops = below ++ stop :: above)
    {values : ValueCursor Value}
    {inner : Position}
    (stands :
      ValueCursor.Stands table.spec.valueOrder stop.value values
        (inner.next stop.value.length).2)
    (stepped : (inner.next stop.value.length).1 = true)
    {tuple : Option (Tuple Key Value)}
    {available : Bool}
    {failed : TableCursor Key Value → List StoreEvent → Prop}
    {events : List StoreEvent} :
    regime.Reaches (Stands table stops)
      ((inner.shift (listing below).length).next (listing stops).length) failed
      (load ⟨table, .within stop.id values, tuple, available⟩) events := by
  have isOn : (inner.next stop.value.length).2.isOn = true := by
    rw [Position.isOn_next, stepped]
  rw [Position.next_shift stepped (fits stops_eq)]
  exact reaches_load chain stops_eq stands isOn

/-- A step backward within the values of a node is one within the listing. -/
theorem reaches_load_previous
    (chain : table.Stops stops)
    (stops_eq : stops = below ++ stop :: above)
    {values : ValueCursor Value}
    {inner : Position}
    (stands :
      ValueCursor.Stands table.spec.valueOrder stop.value values inner.previous.2)
    (stepped : inner.previous.1 = true)
    {tuple : Option (Tuple Key Value)}
    {available : Bool}
    {failed : TableCursor Key Value → List StoreEvent → Prop}
    {events : List StoreEvent} :
    regime.Reaches (Stands table stops) (inner.shift (listing below).length).previous failed
      (load ⟨table, .within stop.id values, tuple, available⟩) events := by
  have isOn : inner.previous.2.isOn = true := by
    rw [Position.isOn_previous, stepped]
  rw [Position.previous_shift stepped]
  exact reaches_load chain stops_eq stands isOn

/-- Seeking forward finds the first tuple of the stops ahead; a failed search goes nowhere. -/
theorem performs_seekForward
    (ordered : table.OrderedStops stops)
    (table_eq : cursor.table = table)
    (stops_eq : stops = below ++ above)
    (ahead : position.ahead = (listing below).length)
    {count : Nat}
    (enough : above.length ≤ count) :
    Performs regime (cursor.seekForward count (firstOr none above))
      (regime.Reaches (Stands table stops) (position.next (listing stops).length)
        fun failed events => failed = cursor ∧ events ≠ []) := by
  -- A stop without values is passed over, so the induction is on the stops that are left.
  induction above generalizing below count with
  | nil =>
      have atEnd : position.next (listing stops).length = (false, .gap (listing stops).length) := by
        rw [Position.next, ahead, stops_eq, List.append_nil, if_neg (Nat.lt_irrefl _)]
      rw [atEnd]
      cases count with
      | zero =>
          exact .pure ⟨rfl, .to_afterLast table_eq⟩
      | succ count =>
          exact .pure ⟨rfl, .to_afterLast table_eq⟩
  | cons stop above inductionHypothesis =>
      cases count with
      | zero =>
          contradiction
      | succ count =>
          have lawful := ordered.lawfulValues
          rw [firstOr_cons, seekForward, table_eq]
          refine (performs_valuesAt ordered.toStops stops_eq).bind ?_
          rintro (cause | values) opening opened
          · exact .pure ⟨opened.1, rfl, List.ne_nil_of_length_pos (by simp [opened.2])⟩
          · obtain ⟨stands, rfl⟩ := opened
            refine (values.performs_next.and_ensures stands.ensures_next).bind ?_
            rintro ⟨cause | found, moved⟩ _ ⟨led, rfl, _, reads⟩
            · -- Only a cursor over a store fails, and opening it was a call.
              refine .pure ⟨led.1, rfl, List.ne_nil_of_length_pos ?_⟩
              simp [reads cause rfl]
            · obtain ⟨found_eq, standsMoved⟩ := led
              have ahead_eq :
                  position.ahead = ((Position.gap 0).shift (listing below).length).ahead := by
                rw [ahead, Position.ahead_shift]
                rfl
              rw [found_eq]
              cases stepped : ((Position.gap 0).next stop.value.length).1 with
              | true =>
                  rw [Position.next_congr ahead_eq]
                  exact .pure (reaches_load_next ordered.toStops stops_eq standsMoved stepped)
              | false =>
                  have within : (Position.gap 0).Within stop.value.length := Nat.zero_le _
                  have leaves := Position.ahead_of_next_false within stepped
                  have passed : position.ahead = (listing (below ++ [stop])).length := by
                    rw [ahead, length_listing_concat, ← leaves]
                    rfl
                  dsimp only
                  rw [ordered.next?_eq stops_eq]
                  refine
                    (inductionHypothesis (regroup stops_eq) passed
                      (Nat.le_of_succ_le_succ enough)).weaken ?_
                  rintro ⟨cause | answer, after⟩ later reached
                  · refine ⟨reached.1, reached.2.1, ?_⟩
                    simp [reached.2.2]
                  · exact reached

/-- Seeking backward finds the last tuple of the stops behind; a failed search goes nowhere. -/
theorem performs_seekBackward
    (ordered : table.OrderedStops stops)
    (table_eq : cursor.table = table)
    (stops_eq : stops = below ++ above)
    (behind : position.behind = (listing below).length)
    {count : Nat}
    (enough : below.length ≤ count) :
    Performs regime (cursor.seekBackward count (lastOr none below))
      (regime.Reaches (Stands table stops) position.previous
        fun failed events => failed = cursor ∧ events ≠ []) := by
  induction count generalizing below above with
  | zero =>
      obtain rfl := List.eq_nil_of_length_eq_zero (Nat.le_zero.mp enough)
      rw [Position.previous, show position.behind = 0 from behind]
      exact .pure ⟨rfl, .to_beforeFirst table_eq⟩
  | succ count inductionHypothesis =>
      rcases List.eq_nil_or_concat below with rfl | ⟨below, stop, rfl⟩
      · rw [Position.previous, show position.behind = 0 from behind]
        exact .pure ⟨rfl, .to_beforeFirst table_eq⟩
      · rw [List.concat_eq_append] at stops_eq behind enough ⊢
        rw [List.append_assoc, List.singleton_append] at stops_eq
        rw [length_listing_concat] at behind
        rw [lastOr_append, lastOr_cons, lastOr_nil]
        have lawful := ordered.lawfulValues
        rw [seekBackward, table_eq]
        refine (performs_valuesAt ordered.toStops stops_eq).bind ?_
        rintro (cause | values) opening opened
        · exact .pure ⟨opened.1, rfl, List.ne_nil_of_length_pos (by simp [opened.2])⟩
        · obtain ⟨stands, rfl⟩ := opened
          refine (values.performs_afterLast.and_ensures stands.ensures_afterLast).bind ?_
          rintro ⟨cause | ⟨⟩, placed⟩ _ ⟨led, rfl, same, reads⟩
          · refine .pure ⟨led.1, rfl, List.ne_nil_of_length_pos ?_⟩
            simp [reads cause rfl]
          · obtain ⟨_, standsPlaced⟩ := led
            refine (placed.performs_previous.and_ensures standsPlaced.ensures_previous).bind ?_
            rintro ⟨cause | found, moved⟩ _ ⟨led, rfl, _, reads⟩
            · refine .pure ⟨led.1, rfl, List.ne_nil_of_length_pos ?_⟩
              have one := reads cause rfl
              rw [show placed.browses = values.browses from same] at one
              simp [one]
            · obtain ⟨found_eq, standsMoved⟩ := led
              have behind_eq :
                  position.behind =
                    ((Position.gap stop.value.length).shift (listing below).length).behind := by
                rw [behind, Position.behind_shift]
                rfl
              rw [found_eq]
              cases stepped : (Position.gap stop.value.length).previous.1 with
              | true =>
                  rw [Position.previous_congr behind_eq]
                  exact .pure (reaches_load_previous ordered.toStops stops_eq standsMoved stepped)
              | false =>
                  have leaves := Position.behind_of_previous_false stepped
                  dsimp only
                  rw [ordered.previous?_eq stops_eq]
                  have passed : position.behind = (listing below).length := by
                    rw [behind]
                    exact congrArg _ leaves
                  refine
                    (inductionHypothesis stops_eq passed (by simpa using enough)).weaken ?_
                  rintro ⟨cause | answer, after⟩ later reached
                  · refine ⟨reached.1, reached.2.1, ?_⟩
                    simp [reached.2.2]
                  · exact reached

namespace Positioned

/--
A step that fails leaves the cursor showing what it showed.  If it has opened no
store on its way the cursor is where it was, else in the gap ahead.
-/
theorem performs_next
    (ordered : table.OrderedStops stops)
    (positioned : Positioned table stops cursor position) :
    Performs regime cursor.next
      (regime.Reaches (Stands table stops) (position.next (listing stops).length)
        fun failed events =>
          Interrupted table stops cursor cursor.available
            (if events = [] then position else .gap position.ahead) failed) := by
  obtain ⟨table_eq, place⟩ := positioned
  have count_eq : cursor.table.keyCount = stops.length := by
    rw [table_eq, ordered.keyCount_eq]
  unfold next
  dsimp only
  rw [count_eq]
  generalize place_eq : cursor.position = tablePosition at place ⊢
  cases place with
  | beforeFirst =>
      dsimp only
      rw [table_eq, ordered.first_eq]
      refine
        (performs_seekForward ordered table_eq (List.nil_append stops).symm
          (rfl : (Position.gap 0).ahead = 0) (Nat.le_refl _)).weaken ?_
      rintro ⟨cause | answer, after⟩ events reached
      · obtain ⟨mayFail, rfl, opened⟩ := reached
        refine ⟨mayFail, ⟨table_eq, ?_⟩, rfl, rfl⟩
        rw [if_neg opened, place_eq]
        exact .beforeFirst
      · exact reached
  | afterLast =>
      rw [Position.next, Position.ahead, if_neg (Nat.lt_irrefl _)]
      exact .pure ⟨rfl, .to_afterLast table_eq⟩
  | @within below above stop values inner stops_eq stands =>
      have lawful := ordered.lawfulValues
      refine (values.performs_next.and_ensures stands.ensures_next).bind ?_
      rintro ⟨cause | found, moved⟩ _ ⟨led, rfl, _⟩
      · -- The step among the values has failed and opened nothing.
        exact .pure ⟨led.1, ⟨table_eq, .within stops_eq led.2⟩, rfl, rfl⟩
      · obtain ⟨found_eq, standsMoved⟩ := led
        rw [found_eq, table_eq]
        cases stepped : (inner.next stop.value.length).1 with
        | true =>
            exact .pure (reaches_load_next ordered.toStops stops_eq standsMoved stepped)
        | false =>
            have leaves := Position.ahead_of_next_false stands.within stepped
            have passed :
                (inner.shift (listing below).length).ahead =
                  (listing (below ++ [stop])).length := by
              rw [Position.ahead_shift, leaves, length_listing_concat]
            have enough : above.length ≤ stops.length := by
              simp only [stops_eq, List.length_append, List.length_cons]
              omega
            dsimp only
            rw [ordered.next?_eq stops_eq]
            refine (performs_seekForward ordered rfl (regroup stops_eq) passed enough).weaken ?_
            rintro ⟨cause | answer, after⟩ later reached
            · obtain ⟨mayFail, rfl, opened⟩ := reached
              rw [List.append_nil]
              refine ⟨mayFail, ⟨rfl, ?_⟩, rfl, rfl⟩
              have exhausted := Place.within stops_eq standsMoved
              rw [Position.next_eq_of_false stepped] at exhausted
              rw [if_neg opened, Position.ahead_shift, leaves]
              exact exhausted
            · exact reached

/-- A step backward leads to the position in front, or a failed call interrupts it. -/
theorem performs_previous
    (ordered : table.OrderedStops stops)
    (positioned : Positioned table stops cursor position) :
    Performs regime cursor.previous
      (regime.Reaches (Stands table stops) position.previous fun failed events =>
        Interrupted table stops cursor cursor.available
          (if events = [] then position else .gap position.behind) failed) := by
  obtain ⟨table_eq, place⟩ := positioned
  have count_eq : cursor.table.keyCount = stops.length := by
    rw [table_eq, ordered.keyCount_eq]
  unfold previous
  dsimp only
  rw [count_eq]
  generalize place_eq : cursor.position = tablePosition at place ⊢
  cases place with
  | beforeFirst =>
      exact .pure ⟨rfl, .to_beforeFirst table_eq⟩
  | afterLast =>
      dsimp only
      rw [table_eq, ordered.last_eq]
      refine
        (performs_seekBackward ordered table_eq (List.append_nil stops).symm
          (rfl : (Position.gap (listing stops).length).behind = _) (Nat.le_refl _)).weaken ?_
      rintro ⟨cause | answer, after⟩ events reached
      · obtain ⟨mayFail, rfl, opened⟩ := reached
        refine ⟨mayFail, ⟨table_eq, ?_⟩, rfl, rfl⟩
        rw [if_neg opened, place_eq]
        exact .afterLast
      · exact reached
  | @within below above stop values inner stops_eq stands =>
      have lawful := ordered.lawfulValues
      refine (values.performs_previous.and_ensures stands.ensures_previous).bind ?_
      rintro ⟨cause | found, moved⟩ _ ⟨led, rfl, _⟩
      · exact .pure ⟨led.1, ⟨table_eq, .within stops_eq led.2⟩, rfl, rfl⟩
      · obtain ⟨found_eq, standsMoved⟩ := led
        rw [found_eq, table_eq]
        cases stepped : inner.previous.1 with
        | true =>
            exact .pure (reaches_load_previous ordered.toStops stops_eq standsMoved stepped)
        | false =>
            have leaves := Position.behind_of_previous_false stepped
            have passed :
                (inner.shift (listing below).length).behind = (listing below).length := by
              rw [Position.behind_shift, leaves, Nat.add_zero]
            have enough : below.length ≤ stops.length := by
              simp [stops_eq]
            dsimp only
            rw [ordered.previous?_eq stops_eq]
            refine (performs_seekBackward ordered rfl stops_eq passed enough).weaken ?_
            rintro ⟨cause | answer, after⟩ later reached
            · obtain ⟨mayFail, rfl, opened⟩ := reached
              rw [List.append_nil]
              refine ⟨mayFail, ⟨rfl, ?_⟩, rfl, rfl⟩
              have exhausted := Place.within stops_eq standsMoved
              rw [Position.previous_eq_of_false stepped] at exhausted
              rw [if_neg opened, Position.behind_shift, leaves]
              exact exhausted
            · exact reached

end Positioned

/-! ## Placements -/

/--
A cursor that has entered the first of some stops, which took the given calls, or
has found none.
-/
inductive Entered (table : Table Key Value) (tuple : Option (Tuple Key Value)) :
    List (Stop Key Value) → List StoreEvent → TableCursor Key Value → Prop where
  | none : Entered table tuple [] [] ⟨table, .afterLast, tuple, false⟩
  | some
      {stop : Stop Key Value}
      {above : List (Stop Key Value)}
      {values : ValueCursor Value}
      (stands : ValueCursor.Stands table.spec.valueOrder stop.value values (.gap 0)) :
      Entered table tuple (stop :: above) values.browses
        ⟨table, .within stop.id values, tuple, false⟩

/-- A cursor that entered a node stands in the gap in front of the node's values. -/
theorem Entered.stands
    {tuple : Option (Tuple Key Value)}
    {events : List StoreEvent}
    (entered : Entered table tuple above events cursor)
    (stops_eq : stops = below ++ above) :
    Stands table stops cursor (.gap (listing below).length) := by
  cases entered with
  | none =>
      rw [List.append_nil] at stops_eq
      subst stops_eq
      refine .of_gap ?_ .afterLast ?_ ?_ <;> rfl
  | some stands =>
      refine .of_gap ?_ (.within stops_eq stands) ?_ ?_ <;> rfl

namespace Positioned

/-- A cursor that cannot enter a stop stays where it is, but no longer shows its tuple. -/
theorem performs_enter
    (ordered : table.OrderedStops stops)
    (positioned : Positioned table stops cursor position)
    (stops_eq : stops = below ++ above) :
    Performs regime (cursor.enter (firstOr none above)) fun
      | (.ok (), entered), events => Entered table cursor.tuple above events entered
      | (.error _, failed), events =>
          regime.mayFail ∧ Interrupted table stops cursor false position failed ∧
            events.length = 1 := by
  obtain ⟨table_eq, place⟩ := positioned
  unfold enter
  cases above with
  | nil =>
      rw [table_eq]
      exact .pure .none
  | cons stop above =>
      rw [firstOr_cons, table_eq]
      refine (performs_valuesAt ordered.toStops stops_eq).bind ?_
      rintro (cause | values) opening opened
      · exact .pure ⟨opened.1, ⟨⟨rfl, place⟩, rfl, rfl⟩, opened.2⟩
      · obtain ⟨stands, rfl⟩ := opened
        exact .pure (.some stands)

/-- Entering the first of some stops leads to the gap in front of it. -/
theorem performs_enter_gap
    (ordered : table.OrderedStops stops)
    (positioned : Positioned table stops cursor position)
    (stops_eq : stops = below ++ above) :
    Performs regime (cursor.enter (firstOr none above))
      (regime.Reaches (Stands table stops) ((), .gap (listing below).length)
        fun failed _ => Interrupted table stops cursor false position failed) := by
  refine (positioned.performs_enter ordered stops_eq).weaken ?_
  rintro ⟨cause | ⟨⟩, after⟩ events entering
  · exact ⟨entering.1, entering.2.1⟩
  · exact ⟨rfl, entering.stands stops_eq⟩

/-- A cursor is placed in the gap before a key, or a failed call interrupts it. -/
theorem performs_beforeKey
    (ordered : table.OrderedStops stops)
    (positioned : Positioned table stops cursor position)
    (key : Key) :
    Performs regime (cursor.beforeKey key)
      (regime.Reaches (Stands table stops)
        ((), .before (table.spec.probeTuple key) (listing stops))
        fun failed _ => Interrupted table stops cursor false position failed) := by
  have stops_eq :
      stops =
        Order.lower (table.spec.probeStop key) stops ++
          Order.notLower (table.spec.probeStop key) stops :=
    (Order.lower_append_notLower stops).symm
  rw [before_key (ordered.split key), beforeKey, nodeAtLeast?, positioned.table_eq,
    ordered.findAtLeast?_eq]
  exact positioned.performs_enter_gap ordered stops_eq

/-- A cursor is placed in the gap after a key, or a failed call interrupts it. -/
theorem performs_afterKey
    (ordered : table.OrderedStops stops)
    (positioned : Positioned table stops cursor position)
    (key : Key) :
    Performs regime (cursor.afterKey key)
      (regime.Reaches (Stands table stops)
        ((), .after (table.spec.probeTuple key) (listing stops))
        fun failed _ => Interrupted table stops cursor false position failed) := by
  have stops_eq :
      stops =
        Order.notUpper (table.spec.probeStop key) stops ++
          Order.upper (table.spec.probeStop key) stops :=
    (Order.notUpper_append_upper stops).symm
  rw [after_key (ordered.split key), afterKey, positioned.table_eq, ordered.findAbove?_eq]
  exact positioned.performs_enter_gap ordered stops_eq

end Positioned

/--
A placement among the values happens if the stop has the sought key.  If it fails
the cursor stays in front of them.
-/
theorem performs_placeWithin
    (chain : table.Stops stops)
    (stops_eq : stops = below ++ stop :: above)
    {values : ValueCursor Value}
    {key : Key}
    (equal : table.spec.keys stop.key key = .eq)
    {place : ValueCursor Value → StoreM (Moved Unit (ValueCursor Value))}
    {inner : Position}
    (isGap : inner.isOn = false)
    (placed :
      Performs regime (place values) fun moved events =>
        regime.Leads (ValueCursor.Stands table.spec.valueOrder stop.value) (.gap 0)
            ((), inner) moved ∧
          values.Calls values.browses moved events) :
    Performs regime
      (placeWithin ⟨table, .within stop.id values, cursor.tuple, false⟩ key place)
      (regime.Reaches (Stands table stops) ((), inner.shift (listing below).length)
        fun failed events =>
          Interrupted table stops cursor false (.gap (listing below).length) failed ∧
            events = values.browses ∧ values.browses.length = 1) := by
  unfold placeWithin
  dsimp only
  have same : (table.keyOrder stop.key key == .eq) = true := beq_iff_eq.mpr equal
  rw [chain.key?_eq stops_eq, Option.any_some, if_pos same]
  refine placed.bind ?_
  rintro ⟨cause | ⟨⟩, moved⟩ _ ⟨led, rfl, _, reads⟩
  · have front := Place.within stops_eq led.2
    exact .pure ⟨led.1, ⟨⟨rfl, front⟩, rfl, rfl⟩, rfl, reads cause rfl⟩
  · refine .pure ⟨rfl, .of_gap ?_ (.within stops_eq led.2) ?_ ?_⟩
    · rfl
    · rfl
    · rw [Position.isOn_shift, isGap]

/-- Nothing is placed within a stop that has another key, or without a stop. -/
theorem performs_placeWithin_other
    (chain : table.Stops stops)
    (stops_eq : stops = below ++ above)
    {tuple : Option (Tuple Key Value)}
    {opening : List StoreEvent}
    (entered : Entered table tuple above opening cursor)
    {key : Key}
    (others : ∀ stop ∈ above, table.spec.keys stop.key key ≠ .eq)
    (place : ValueCursor Value → StoreM (Moved Unit (ValueCursor Value)))
    {failed : TableCursor Key Value → List StoreEvent → Prop} :
    Performs regime (placeWithin cursor key place) fun moved events =>
      regime.Reaches (Stands table stops) ((), .gap (listing below).length) failed moved
        (events ++ opening) := by
  have stands := entered.stands stops_eq
  unfold placeWithin
  cases entered with
  | none =>
      exact .pure ⟨rfl, stands⟩
  | @some stop above values standsInner =>
      have different : table.keyOrder stop.key key ≠ .eq := others stop List.mem_cons_self
      dsimp only
      rw [chain.key?_eq stops_eq, Option.any_some, if_neg (by simpa using different)]
      exact .pure ⟨rfl, stands⟩

namespace Positioned

/--
Entering the stop at or above a tuple and placing there finds the tuple's border.
If the stop cannot be entered the cursor stays where it is; if the placement then
fails the cursor is left in front of the stop.
-/
theorem performs_enter_place
    (ordered : table.OrderedStops stops)
    (positioned : Positioned table stops cursor position)
    (tuple : Tuple Key Value)
    {place : ValueCursor Value → StoreM (Moved Unit (ValueCursor Value))}
    {border : List Value → Position}
    (isGap : ∀ values, (border values).isOn = false)
    (placed :
      ∀ {stop : Stop Key Value} {values : ValueCursor Value},
        ValueCursor.Stands table.spec.valueOrder stop.value values (.gap 0) →
        Performs regime (place values) fun moved events =>
          regime.Leads (ValueCursor.Stands table.spec.valueOrder stop.value) (.gap 0)
              ((), border stop.value) moved ∧
            values.Calls values.browses moved events)
    {target : Position}
    (present :
      ∀ {below above : List (Stop Key Value)} {stop : Stop Key Value},
        stops = below ++ stop :: above →
        table.spec.probeStop tuple.key stop = .eq →
        Order.AllBelow (table.spec.probeStop tuple.key) below →
        Order.AllAbove (table.spec.probeStop tuple.key) above →
        target = (border stop.value).shift (listing below).length)
    (absent :
      ∀ {below above : List (Stop Key Value)},
        stops = below ++ above →
        Order.AllBelow (table.spec.probeStop tuple.key) below →
        Order.AllAbove (table.spec.probeStop tuple.key) above →
        target = .gap (listing below).length) :
    Performs regime
      (do
        match ← cursor.enter (cursor.nodeAtLeast? tuple.key) with
        | (.ok (), entered) => entered.placeWithin tuple.key place
        | failed => return failed)
      (regime.Reaches (Stands table stops) ((), target) fun failed events =>
        Interrupted table stops cursor false
          (if events.length = 1 then position
            else .before (table.spec.probeTuple tuple.key) (listing stops)) failed) := by
  have lawful := ordered.lawfulKeys
  rw [nodeAtLeast?, positioned.table_eq, ordered.findAtLeast?_eq]
  rcases ordered.split tuple.key with
    ⟨below, above, stop, stops_eq, equal, allBelow, allAbove⟩ |
      ⟨below, above, stops_eq, allBelow, allAbove⟩
  · have borders :
        Order.lower (table.spec.probeStop tuple.key) stops = below ∧
          Order.notLower (table.spec.probeStop tuple.key) stops = stop :: above := by
      rw [stops_eq]
      exact Order.lower_present allBelow equal
    obtain ⟨lower, notLower⟩ := borders
    rw [notLower, present stops_eq equal allBelow allAbove, before_key (ordered.split tuple.key),
      lower]
    refine (positioned.performs_enter ordered stops_eq).bind ?_
    rintro ⟨cause | ⟨⟩, entered⟩ opening entering
    · obtain ⟨mayFail, interrupted, one⟩ := entering
      refine .pure ⟨mayFail, ?_⟩
      dsimp only
      rw [List.nil_append, if_pos one]
      exact interrupted
    · cases entering with
      | some stands =>
          refine
            (performs_placeWithin ordered.toStops stops_eq (Std.OrientedCmp.eq_symm equal)
              (isGap stop.value) (placed stands)).weaken ?_
          rintro ⟨cause | ⟨⟩, after⟩ events reached
          · obtain ⟨mayFail, interrupted, rfl, one⟩ := reached
            refine ⟨mayFail, ?_⟩
            dsimp only
            rw [List.length_append, one, if_neg (by decide)]
            exact interrupted
          · exact reached
  · have notLower : Order.notLower (table.spec.probeStop tuple.key) stops = above := by
      rw [stops_eq]
      exact (Order.borders_absent allBelow allAbove).1.2
    rw [notLower, absent stops_eq allBelow allAbove]
    refine (positioned.performs_enter ordered stops_eq).bind ?_
    rintro ⟨cause | ⟨⟩, entered⟩ opening entering
    · obtain ⟨mayFail, interrupted, one⟩ := entering
      refine .pure ⟨mayFail, ?_⟩
      dsimp only
      rw [List.nil_append, if_pos one]
      exact interrupted
    · refine performs_placeWithin_other ordered.toStops stops_eq entering ?_ place
      intro stop member same
      have above := allAbove stop member
      have equal := Std.OrientedCmp.eq_symm same
      rw [TableSpec.probeStop, equal] at above
      contradiction

/-- A cursor is placed in the gap before a tuple, or a failed call interrupts it. -/
theorem performs_before
    (ordered : table.OrderedStops stops)
    (positioned : Positioned table stops cursor position)
    (tuple : Tuple Key Value) :
    Performs regime (cursor.before tuple)
      (regime.Reaches (Stands table stops)
        ((), .before (table.spec.order tuple) (listing stops))
        fun failed events =>
          Interrupted table stops cursor false
            (if events.length = 1 then position
              else .before (table.spec.probeTuple tuple.key) (listing stops)) failed) := by
  have lawful := ordered.lawfulValues
  refine
    positioned.performs_enter_place ordered tuple (fun _ => rfl)
      (fun stands =>
        (ValueCursor.performs_before _ tuple.value).and_ensures (stands.ensures_before tuple.value))
      ?_ ?_
  · rintro below above stop rfl equal allBelow allAbove
    exact (borders_present equal allBelow allAbove).1
  · rintro below above rfl allBelow allAbove
    exact (borders_absent allBelow allAbove).1

/-- A cursor is placed in the gap after a tuple, or a failed call interrupts it. -/
theorem performs_after
    (ordered : table.OrderedStops stops)
    (positioned : Positioned table stops cursor position)
    (tuple : Tuple Key Value) :
    Performs regime (cursor.after tuple)
      (regime.Reaches (Stands table stops)
        ((), .after (table.spec.order tuple) (listing stops))
        fun failed events =>
          Interrupted table stops cursor false
            (if events.length = 1 then position
              else .before (table.spec.probeTuple tuple.key) (listing stops)) failed) := by
  have lawful := ordered.lawfulValues
  refine
    positioned.performs_enter_place ordered tuple (fun _ => rfl)
      (fun stands =>
        (ValueCursor.performs_after _ tuple.value).and_ensures (stands.ensures_after tuple.value))
      ?_ ?_
  · rintro below above stop rfl equal allBelow allAbove
    exact (borders_present equal allBelow allAbove).2
  · rintro below above rfl allBelow allAbove
    exact (borders_absent allBelow allAbove).2

end Positioned

/-! ## Moves without failures -/

namespace Stands

/-- Without failures a cursor is placed in the gap before a key. -/
theorem ensures_beforeKey
    (chain : table.Stops stops)
    (sound : table.Sound)
    (stands : Stands table stops cursor position)
    (key : Key) :
    Ensures .reliable (cursor.beforeKey key)
      (Regime.reliable.Leads (Stands table stops) position
        ((), .before (table.spec.probeTuple key) (listing stops))) :=
  (stands.positioned.performs_beforeKey (chain.ordered sound) key).leads position

/-- Without failures a cursor is placed in the gap after a key. -/
theorem ensures_afterKey
    (chain : table.Stops stops)
    (sound : table.Sound)
    (stands : Stands table stops cursor position)
    (key : Key) :
    Ensures .reliable (cursor.afterKey key)
      (Regime.reliable.Leads (Stands table stops) position
        ((), .after (table.spec.probeTuple key) (listing stops))) :=
  (stands.positioned.performs_afterKey (chain.ordered sound) key).leads position

end Stands

/-- Where stores answer, a table cursor follows a position among the tuples. -/
theorem follows
    (chain : table.Stops stops)
    (sound : table.Sound) :
    Cursor.Follows .reliable table.spec.order (listing stops) (Stands table stops) where
  within stands := stands.place.within_listing
  available_eq stands := stands.available_eq
  get_eq stands := stands.get_eq
  beforeFirst stands := Ensures.pure ⟨rfl, .to_beforeFirst stands.table_eq⟩
  afterLast stands := Ensures.pure ⟨rfl, .to_afterLast stands.table_eq⟩
  before tuple stands :=
    (stands.positioned.performs_before (chain.ordered sound) tuple).leads _
  after tuple stands := (stands.positioned.performs_after (chain.ordered sound) tuple).leads _
  next stands := (stands.positioned.performs_next (chain.ordered sound)).leads _
  previous stands := (stands.positioned.performs_previous (chain.ordered sound)).leads _

end OrderedIndex.TableCursor

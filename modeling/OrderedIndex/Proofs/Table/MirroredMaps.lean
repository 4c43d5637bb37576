import OrderedIndex.Proofs.Reversal
import OrderedIndex.Proofs.Table.Refinement

namespace OrderedIndex

/-!
# Multimaps read from the end

With the opposite orders of its keys and of its values a multimap is read from
the end, and so are the values under each key.  Changing it and reading it from
the end can be done in either order, whatever is changed: a change finds at most
one key and one value, so it does not matter from which end it looks for them.
-/

variable {Key Value : Type}

/-! ## Specifications with the opposite orders -/

/-- The same way of telling values apart, in the opposite order. -/
def TableKind.reversed : TableKind Value → TableKind Value
  | .unique order? => .unique (order?.map Order.reversed)
  | .duplicates order => .duplicates order.reversed

/-- A reversed kind orders values the other way around, if it orders them at all. -/
theorem TableKind.order?_reversed (kind : TableKind Value) :
    kind.reversed.order? = kind.order?.map Order.reversed := by
  cases kind <;> rfl

/-- Reversing the values of a kind twice gives it back. -/
theorem TableKind.reversed_reversed (kind : TableKind Value) : kind.reversed.reversed = kind := by
  cases kind with
  | unique order? =>
      cases order? <;> rfl
  | duplicates order =>
      rfl

/-- A table of reversed values is of the reversed kind. -/
theorem TableKind.ofSettings_reversed
    (duplicates : Bool)
    (valueOrder? : Option (Order Value)) :
    ofSettings duplicates (valueOrder?.map Order.reversed) =
      (ofSettings duplicates valueOrder?).reversed := by
  cases valueOrder? with
  | none =>
      rfl
  | some order =>
      cases duplicates <;> rfl

namespace TableSpec

/-- The same table, with the opposite orders of keys and of values. -/
def reversed (spec : TableSpec Key Value) : TableSpec Key Value :=
  ⟨spec.name, spec.keys.reversed, spec.kind.reversed⟩

/-- Reversing a specification twice gives it back. -/
theorem reversed_reversed (spec : TableSpec Key Value) : spec.reversed.reversed = spec :=
  congrArg (TableSpec.mk spec.name spec.keys) spec.kind.reversed_reversed

/-- Settings with both comparators reversed specify the reversed table. -/
theorem ofSettings_reversed
    (config : TableConfig)
    (keyOrder : Order Key)
    (valueOrder? : Option (Order Value)) :
    ofSettings config keyOrder.reversed (valueOrder?.map Order.reversed) =
      (ofSettings config keyOrder valueOrder?).reversed :=
  congrArg (TableSpec.mk config.name keyOrder.reversed)
    (TableKind.ofSettings_reversed config.duplicates valueOrder?)

/-- The values of one key read from the end. -/
def turn (pair : Key × List Value) : Key × List Value := (pair.1, pair.2.reverse)

/-- A map read from the end. -/
def mirrored (map : Multimap Key Value) : Multimap Key Value := map.reverse.map turn

/-- Reading a map from its end twice gives it back. -/
theorem mirrored_mirrored (map : Multimap Key Value) : mirrored (mirrored map) = map := by
  have twice : (turn ∘ turn : Key × List Value → Key × List Value) = id :=
    funext fun pair => congrArg (pair.1, ·) (List.reverse_reverse pair.2)
  rw [mirrored, mirrored, ← List.map_reverse, List.reverse_reverse, List.map_map, twice,
    List.map_id]

/-! ## Maps in order -/

/-- Keys in order, and under each key its values in theirs, if they have one. -/
structure Sorted (spec : TableSpec Key Value) (map : Multimap Key Value) : Prop where
  ordered : spec.Ordered map
  ascending :
    ∀ order ∈ spec.kind.order?, ∀ pair ∈ map, Order.Ascending order pair.2

variable {spec : TableSpec Key Value} {map : Multimap Key Value} {key : Key} {values : List Value}

/-- The values of a key are those of a pair of the map. -/
theorem exists_pair_of_valuesOf? (present : spec.valuesOf? map key = some values) :
    ∃ pair ∈ map, pair.2 = values := by
  obtain ⟨pair, found, values_eq⟩ := Option.map_eq_some_iff.mp present
  exact ⟨pair, List.mem_of_find?_eq_some found, values_eq⟩

namespace Sorted

/-- The values under a key ascend if the kind orders values. -/
theorem ascending_values
    (sorted : spec.Sorted map)
    {order : Order Value}
    (isOrder : order ∈ spec.kind.order?)
    (present : spec.valuesOf? map key = some values) :
    Order.Ascending order values := by
  obtain ⟨pair, member, rfl⟩ := exists_pair_of_valuesOf? present
  exact sorted.ascending order isOrder pair member

/-- A map stays sorted when values that ascend are placed under a key. -/
theorem place
    [Std.TransCmp spec.keys]
    (sorted : spec.Sorted map)
    (key : Key)
    (ascending : ∀ order ∈ spec.kind.order?, Order.Ascending order values) :
    spec.Sorted (Order.place (spec.probe key) (key, values) map) := by
  refine ⟨?_, ?_⟩
  · have keys_eq := Order.place_map (spec.keys key) Prod.fst (key, values) map
    rw [Ordered, show spec.probe key = fun pair => spec.keys key pair.1 from rfl, keys_eq]
    exact sorted.ordered.place key
  · intro order isOrder pair member
    rcases Order.mem_place member with rfl | inMap
    · exact ascending order isOrder
    · exact sorted.ascending order isOrder pair inMap

/-- A map stays sorted without a key. -/
theorem discard
    (sorted : spec.Sorted map)
    (key : Key) :
    spec.Sorted (Order.discard (spec.probe key) map) := by
  refine ⟨List.Pairwise.sublist (List.filter_sublist.map Prod.fst) sorted.ordered, ?_⟩
  intro order isOrder pair member
  exact sorted.ascending order isOrder pair (Order.mem_discard member)

/-- A map stays sorted when the values under a key are replaced by others that ascend. -/
theorem write
    (sorted : spec.Sorted map)
    (key : Key)
    (ascending : ∀ order ∈ spec.kind.order?, Order.Ascending order values) :
    spec.Sorted (spec.write map key values) := by
  have sameKey (pair : Key × List Value) :
      (if spec.probe key pair = .eq then (pair.1, values) else pair).1 = pair.1 := by
    split <;> rfl
  have keys_eq : (spec.write map key values).map Prod.fst = map.map Prod.fst := by
    rw [TableSpec.write, Order.adjust, List.map_map]
    exact List.map_congr_left fun pair _ => sameKey pair
  refine ⟨?_, ?_⟩
  · rw [Ordered, keys_eq]
    exact sorted.ordered
  · intro order isOrder pair member
    rcases Order.mem_adjust member with ⟨_, _, rfl⟩ | inMap
    · exact ascending order isOrder
    · exact sorted.ascending order isOrder pair inMap

/-- A map stays sorted when a tuple is put. -/
theorem put
    [Std.TransCmp spec.keys]
    (lawfulValues : ∀ order ∈ spec.kind.order?, Std.TransCmp order)
    (sorted : spec.Sorted map)
    (key : Key)
    (value : Value) :
    spec.Sorted (spec.put map key value).2 := by
  have single (order : Order Value) : Order.Ascending order [value] := List.pairwise_singleton _ _
  cases valuesOf : spec.valuesOf? map key with
  | none =>
      rw [put_absent valuesOf]
      exact sorted.place key fun order _ => single order
  | some values =>
      cases kind : spec.kind with
      | unique order? =>
          rw [put_unique kind valuesOf]
          exact sorted.write key fun order _ => single order
      | duplicates order =>
          have isOrder : order ∈ spec.kind.order? := by
            rw [kind]
            rfl
          have lawful := lawfulValues order isOrder
          rw [put_duplicates kind valuesOf]
          refine sorted.write key ?_
          intro other isOther
          obtain rfl := Option.mem_unique isOrder isOther
          exact (sorted.ascending_values isOrder valuesOf).place value

/-- A map stays sorted when a value is removed. -/
theorem removeValue
    (sorted : spec.Sorted map)
    (key : Key)
    (value : Value) :
    spec.Sorted (spec.removeValue map key value).2 := by
  cases order?_eq : spec.kind.order? with
  | none =>
      rw [removeValue_unordered order?_eq]
      exact sorted
  | some order =>
      cases valuesOf : spec.valuesOf? map key with
      | none =>
          rw [removeValue_absent order?_eq valuesOf]
          exact sorted
      | some values =>
          cases matched : Order.lookup? (order value) values with
          | none =>
              rw [removeValue_unmatched order?_eq valuesOf matched]
              exact sorted
          | some stored =>
              rw [removeValue_matched order?_eq valuesOf matched]
              dsimp only
              split
              next =>
                exact sorted.discard key
              next =>
                refine sorted.write key ?_
                intro other isOther
                exact (sorted.ascending_values isOther valuesOf).discard (order value)

/-- Every change leaves the keys and their values in order. -/
theorem apply
    [Std.TransCmp spec.keys]
    (lawfulValues : ∀ order ∈ spec.kind.order?, Std.TransCmp order)
    (sorted : spec.Sorted map)
    (change : TableChange Key Value) :
    spec.Sorted (change.applyToMap spec map).2 := by
  cases change with
  | put key value =>
      exact sorted.put lawfulValues key value
  | remove key =>
      exact sorted.discard key
  | removeValue key value =>
      exact sorted.removeValue key value

end Sorted

/-! ## Changes read from the end -/

section Mirrored

variable [Std.TransCmp spec.keys]

/-- A reversed specification probes for a key the other way around. -/
theorem probe_reversed (key : Key) :
    (spec.reversed.probe key : Key × List Value → Ordering) = Order.swapped (spec.probe key) :=
  funext fun pair => congrFun (Order.reversed_eq_swapped spec.keys key) pair.1

/-- The values under a key are the same in both maps, but read from their end. -/
theorem valuesOf?_mirrored
    (ordered : spec.Ordered map)
    (key : Key) :
    spec.reversed.valuesOf? (mirrored map) key =
      (spec.valuesOf? map key).map List.reverse := by
  have found := Order.lookup?_map (Order.swapped (spec.probe key)) turn map.reverse
  have same := (ordered.separates key).split.lookup?_reverse
  rw [valuesOf?, valuesOf?, probe_reversed, mirrored, found, Option.map_map, Option.map_map]
  exact congrArg (Option.map (Prod.snd ∘ turn)) same

/-- Placing values commutes with reading a map from its end. -/
theorem place_mirrored
    (ordered : spec.Ordered map)
    (key : Key)
    (values : List Value) :
    Order.place (spec.reversed.probe key) (key, values.reverse) (mirrored map) =
      mirrored (Order.place (spec.probe key) (key, values) map) := by
  have placed :=
    Order.place_map (Order.swapped (spec.probe key)) turn (key, values) map.reverse
  have same := (ordered.separates key).split.place_reverse (key, values)
  rw [probe_reversed, mirrored, mirrored, ← same]
  exact placed.symm

/-- Taking out a key commutes with reading a map from its end. -/
theorem discard_mirrored (map : Multimap Key Value) (key : Key) :
    Order.discard (spec.reversed.probe key) (mirrored map) =
      mirrored (Order.discard (spec.probe key) map) := by
  have discarded := Order.discard_map (Order.swapped (spec.probe key)) turn map.reverse
  rw [probe_reversed, mirrored, mirrored, ← Order.discard_reverse]
  exact discarded.symm

/-- Replacing the values under a key commutes with reading a map from its end. -/
theorem write_mirrored (map : Multimap Key Value) (key : Key) (values : List Value) :
    spec.reversed.write (mirrored map) key values.reverse =
      mirrored (spec.write map key values) := by
  have written :=
    Order.adjust_map (Order.swapped (spec.probe key)) turn (fun pair => (pair.1, values))
      (fun pair => (pair.1, values.reverse)) (fun _ => rfl) map.reverse
  rw [write, write, probe_reversed, mirrored, mirrored, ← Order.adjust_reverse]
  exact written.symm

/-- Putting a tuple commutes with reading a map from its end, and tells the same. -/
theorem put_mirrored
    (lawfulValues : ∀ order ∈ spec.kind.order?, Std.TransCmp order)
    (sorted : spec.Sorted map)
    (key : Key)
    (value : Value) :
    spec.reversed.put (mirrored map) key value =
      ((spec.put map key value).1, mirrored (spec.put map key value).2) := by
  have valuesThere := valuesOf?_mirrored sorted.ordered key
  cases valuesOf : spec.valuesOf? map key with
  | none =>
      rw [valuesOf, Option.map_none] at valuesThere
      rw [put_absent valuesOf, put_absent valuesThere, ← place_mirrored sorted.ordered]
      rfl
  | some values =>
      rw [valuesOf, Option.map_some] at valuesThere
      cases kind : spec.kind with
      | unique order? =>
          have kindThere : spec.reversed.kind = .unique (order?.map Order.reversed) :=
            congrArg TableKind.reversed kind
          rw [put_unique kind valuesOf, put_unique kindThere valuesThere, ← write_mirrored]
          rfl
      | duplicates order =>
          have kindThere : spec.reversed.kind = .duplicates order.reversed :=
            congrArg TableKind.reversed kind
          have isOrder : order ∈ spec.kind.order? := by
            rw [kind]
            rfl
          have lawful := lawfulValues order isOrder
          have split := (sorted.ascending_values isOrder valuesOf).split value
          rw [put_duplicates kind valuesOf, put_duplicates kindThere valuesThere,
            Order.reversed_eq_swapped, split.lookup?_reverse, split.place_reverse,
            write_mirrored]

/-- Removing a key commutes with reading a map from its end, and tells the same. -/
theorem remove_mirrored
    (ordered : spec.Ordered map)
    (key : Key) :
    spec.reversed.remove (mirrored map) key =
      ((spec.remove map key).1, mirrored (spec.remove map key).2) := by
  rw [remove, remove, valuesOf?_mirrored ordered, Option.isSome_map, discard_mirrored]

/-- Removing a value commutes with reading a map from its end, and tells the same. -/
theorem removeValue_mirrored
    (lawfulValues : ∀ order ∈ spec.kind.order?, Std.TransCmp order)
    (sorted : spec.Sorted map)
    (key : Key)
    (value : Value) :
    spec.reversed.removeValue (mirrored map) key value =
      ((spec.removeValue map key value).1, mirrored (spec.removeValue map key value).2) := by
  have valuesThere := valuesOf?_mirrored sorted.ordered key
  have orderThere : spec.reversed.kind.order? = spec.kind.order?.map Order.reversed :=
    spec.kind.order?_reversed
  cases order?_eq : spec.kind.order? with
  | none =>
      rw [order?_eq, Option.map_none] at orderThere
      rw [removeValue_unordered order?_eq, removeValue_unordered orderThere]
      rfl
  | some order =>
      rw [order?_eq, Option.map_some] at orderThere
      cases valuesOf : spec.valuesOf? map key with
      | none =>
          rw [valuesOf, Option.map_none] at valuesThere
          rw [removeValue_absent order?_eq valuesOf, removeValue_absent orderThere valuesThere]
      | some values =>
          rw [valuesOf, Option.map_some] at valuesThere
          have lawful := lawfulValues order order?_eq
          have split := (sorted.ascending_values order?_eq valuesOf).split value
          have matchedThere := split.lookup?_reverse
          rw [← Order.reversed_eq_swapped] at matchedThere
          cases matched : Order.lookup? (order value) values with
          | none =>
              rw [removeValue_unmatched order?_eq valuesOf matched,
                removeValue_unmatched orderThere valuesThere (matchedThere.trans matched)]
          | some stored =>
              rw [removeValue_matched order?_eq valuesOf matched,
                removeValue_matched orderThere valuesThere (matchedThere.trans matched),
                Order.reversed_eq_swapped, Order.discard_reverse]
              simp only [List.reverse_eq_nil_iff, discard_mirrored, write_mirrored,
                apply_ite mirrored]

/-! ## Questions read from the end -/

/-- The tuples of a map that is read from its end are its tuples from the last to the first. -/
theorem tuples_mirrored (map : Multimap Key Value) :
    tuples (mirrored map) = (tuples map).reverse := by
  have ofKey (pair : Key × List Value) :
      ((turn pair).2.map fun value => ((turn pair).1, value)) =
        (pair.2.map fun value => (pair.1, value)).reverse :=
    List.map_reverse
  rw [tuples, tuples, mirrored, List.flatMap_map, List.reverse_flatMap]
  simp only [ofKey, Function.comp_def]

/-- Reading a map from its end counts the same tuples. -/
theorem size_mirrored (map : Multimap Key Value) : size (mirrored map) = size map := by
  rw [← length_tuples, tuples_mirrored, List.length_reverse, length_tuples]

/-- A key that is not below the sought one is not above it in the opposite order. -/
theorem any_mirrored (map : Multimap Key Value) (key : Key) :
    ((mirrored map).any fun pair => spec.reversed.probe key pair != .gt) =
      map.any fun pair => spec.probe key pair != .lt := by
  rw [mirrored, List.any_map, List.any_reverse, probe_reversed]
  exact congrArg map.any (funext Order.swapped_bne_gt)

/-- What is above a key in the one map is below it in the other. -/
theorem upper_mirrored
    (ordered : spec.Ordered map)
    (key : Key) :
    Order.upper (spec.reversed.probe key) (mirrored map) =
      mirrored (Order.lower (spec.probe key) map) := by
  have images := Order.upper_map (Order.swapped (spec.probe key)) turn map.reverse
  rw [probe_reversed, mirrored, mirrored, ← (ordered.separates key).parts.upper_reverse]
  exact images

/-- The only value of a key is the first one from either end. -/
theorem get_mirrored
    (ordered : spec.Ordered map)
    (admitted : ∀ pair ∈ map, spec.kind.Admits pair.2)
    (key : Key) :
    spec.reversed.get (mirrored map) key = spec.get map key := by
  have valuesThere := valuesOf?_mirrored ordered key
  cases kind : spec.kind with
  | duplicates order =>
      have kindThere : spec.reversed.kind = .duplicates order.reversed :=
        congrArg TableKind.reversed kind
      simp only [get, kind, kindThere]
      rfl
  | unique order? =>
      have kindThere : spec.reversed.kind = .unique (order?.map Order.reversed) :=
        congrArg TableKind.reversed kind
      simp only [get, kind, kindThere, valuesThere]
      cases valuesOf : spec.valuesOf? map key with
      | none =>
          rfl
      | some values =>
          obtain ⟨pair, member, rfl⟩ := exists_pair_of_valuesOf? valuesOf
          have admits := admitted pair member
          rw [kind] at admits
          obtain ⟨value, single⟩ := List.length_eq_one_iff.mp admits
          rw [single]
          rfl

/-- A question about values that is turned with them has the same answer. -/
theorem askValues_mirrored
    {question opposite : (Value → Ordering) → List Value → Bool}
    (turns :
      ∀ {probe : Value → Ordering} {values : List Value},
        Order.Separates probe values →
        opposite (Order.swapped probe) values.reverse = question probe values)
    (lawfulValues : ∀ order ∈ spec.kind.order?, Std.TransCmp order)
    (sorted : spec.Sorted map)
    (key : Key)
    (value : Value) :
    spec.reversed.askValues (mirrored map) key value opposite =
      spec.askValues map key value question := by
  have orderThere : spec.reversed.kind.order? = spec.kind.order?.map Order.reversed :=
    spec.kind.order?_reversed
  rw [askValues, askValues, orderThere, valuesOf?_mirrored sorted.ordered]
  cases order?_eq : spec.kind.order? with
  | none =>
      rfl
  | some order =>
      cases valuesOf : spec.valuesOf? map key with
      | none =>
          rfl
      | some values =>
          have lawful := lawfulValues order order?_eq
          have separates := (sorted.ascending_values order?_eq valuesOf).separates value
          refine congrArg Except.ok ?_
          rw [Option.map_some, Option.any_some, Option.any_some, Order.reversed_eq_swapped]
          exact turns separates

end Mirrored

end TableSpec

/-! ## Runs of changes -/

namespace TableChange

variable {spec : TableSpec Key Value} [Std.TransCmp spec.keys] {map : Multimap Key Value}

/-- Every change commutes with reading a map from its end, and answers the same. -/
theorem applyToMap_mirrored
    (lawfulValues : ∀ order ∈ spec.kind.order?, Std.TransCmp order)
    (sorted : spec.Sorted map)
    (change : TableChange Key Value) :
    change.applyToMap spec.reversed (TableSpec.mirrored map) =
      ((change.applyToMap spec map).1, TableSpec.mirrored (change.applyToMap spec map).2) := by
  cases change with
  | put key value =>
      rw [applyToMap, TableSpec.put_mirrored lawfulValues sorted]
      rfl
  | remove key =>
      rw [applyToMap, TableSpec.remove_mirrored sorted.ordered]
      rfl
  | removeValue key value =>
      exact TableSpec.removeValue_mirrored lawfulValues sorted key value

/-- Changes give the same answers on a map and on the same map read from the end. -/
theorem runOnMap_mirrored
    (lawfulValues : ∀ order ∈ spec.kind.order?, Std.TransCmp order)
    (sorted : spec.Sorted map)
    (changes : List (TableChange Key Value)) :
    runOnMap spec.reversed (TableSpec.mirrored map) changes =
      ((runOnMap spec map changes).1, TableSpec.mirrored (runOnMap spec map changes).2) := by
  induction changes generalizing map with
  | nil =>
      rfl
  | cons change rest inductionHypothesis =>
      -- The changed map is in order again, which the changes behind it rely on.
      have rested := inductionHypothesis (sorted.apply lawfulValues change)
      simp only [runOnMap, applyToMap_mirrored lawfulValues sorted, rested]

end TableChange

end OrderedIndex

import OrderedIndex.Error
import OrderedIndex.Proofs.SortedList

namespace OrderedIndex

/-!
# Ordered multimaps

The reference for tables: keys in ascending order, each with its values.  A key
is there as long as it has a value.
-/

/-- How a table tells the values of a key apart. -/
inductive TableKind (Value : Type) where
  /-- One value for each key; without an order, values cannot be compared. -/
  | unique (order? : Option (Order Value))
  /-- Several values for each key, no two of them equal in the order. -/
  | duplicates (order : Order Value)

/-- The order of the values, if there is one. -/
def TableKind.order? {Value : Type} : TableKind Value → Option (Order Value)
  | .unique order? => order?
  | .duplicates order => some order

/-- What a table is meant to be, apart from its contents. -/
structure TableSpec (Key Value : Type) where
  name : String
  keys : Order Key
  kind : TableKind Value

/-- Keys with their values. -/
abbrev Multimap (Key Value : Type) := List (Key × List Value)

namespace TableSpec

variable {Key Value : Type} (spec : TableSpec Key Value) (map : Multimap Key Value)

/-- The comparison of a key with those of a map. -/
def probe (key : Key) (pair : Key × List Value) : Ordering := spec.keys key pair.1

/-- The values of a key, if it is there. -/
def valuesOf? (key : Key) : Option (List Value) :=
  (Order.lookup? (spec.probe key) map).map Prod.snd

/-- Replace the values of a key that is there. -/
def write (key : Key) (values : List Value) : Multimap Key Value :=
  Order.adjust (spec.probe key) (fun pair => (pair.1, values)) map

/-! ## Changing -/

/-- Add a tuple; tell whether the number of tuples grew. -/
def put (key : Key) (value : Value) : Bool × Multimap Key Value :=
  match spec.valuesOf? map key with
  | none => (true, Order.place (spec.probe key) (key, [value]) map)
  | some values =>
      match spec.kind with
      | .unique _ => (false, spec.write map key [value])
      | .duplicates order =>
          ((Order.lookup? (order value) values).isNone,
            spec.write map key (Order.place (order value) value values))

/-- Remove a key; tell whether it was there. -/
def remove (key : Key) : Bool × Multimap Key Value :=
  ((spec.valuesOf? map key).isSome, Order.discard (spec.probe key) map)

/-- Remove a tuple; tell whether it was there.  A key goes with its last value. -/
def removeValue (key : Key) (value : Value) :
    Except IndexError Bool × Multimap Key Value :=
  match spec.kind.order? with
  | none =>
      (.error (.configuration spec.name "matching values requires a value comparator"), map)
  | some order =>
      match spec.valuesOf? map key with
      | none => (.ok false, map)
      | some values =>
          if (Order.lookup? (order value) values).isSome then
            let remaining := Order.discard (order value) values
            (.ok true,
              if remaining = [] then Order.discard (spec.probe key) map
              else spec.write map key remaining)
          else (.ok false, map)

/-! ## Asking -/

/-- Number of tuples. -/
def size : Multimap Key Value → Nat
  | [] => 0
  | pair :: rest => pair.2.length + size rest

/-- All tuples in order. -/
def tuples (map : Multimap Key Value) : List (Key × Value) :=
  map.flatMap fun pair => pair.2.map fun value => (pair.1, value)

/-- The value of a key that has one value at most. -/
def get (key : Key) : Except IndexError (Option Value) :=
  match spec.kind with
  | .unique _ => .ok ((spec.valuesOf? map key).bind List.head?)
  | .duplicates _ =>
      .error (.unsupported
        s!"table {spec.name} allows duplicate keys, so a key has no single value")

/-- Ask about the values of a key, comparing them with a given one. -/
def askValues
    (key : Key)
    (value : Value)
    (question : (Value → Ordering) → List Value → Bool) :
    Except IndexError Bool :=
  match spec.kind.order? with
  | none =>
      .error (.configuration spec.name "comparing values requires a value comparator")
  | some order => .ok ((spec.valuesOf? map key).any (question (order value)))

variable {spec : TableSpec Key Value} {map : Multimap Key Value}

/-! ## Changes case by case -/

section Cases

variable {key : Key} {values : List Value} {order : Order Value}

/-- A new key gets the put value alone. -/
theorem put_absent
    (absent : spec.valuesOf? map key = none)
    (value : Value) :
    spec.put map key value =
      (true, Order.place (spec.probe key) (key, [value]) map) := by
  simp only [put, absent]

/-- Without duplicates the put value replaces the one under the key. -/
theorem put_unique
    {order? : Option (Order Value)}
    (kind_eq : spec.kind = .unique order?)
    (present : spec.valuesOf? map key = some values)
    (value : Value) :
    spec.put map key value = (false, spec.write map key [value]) := by
  simp only [put, present, kind_eq]

/-- With duplicates the put value joins those under the key unless an equal one is there. -/
theorem put_duplicates
    (kind_eq : spec.kind = .duplicates order)
    (present : spec.valuesOf? map key = some values)
    (value : Value) :
    spec.put map key value =
      ((Order.lookup? (order value) values).isNone,
        spec.write map key (Order.place (order value) value values)) := by
  simp only [put, present, kind_eq]

/-- Values cannot be matched without a comparator. -/
theorem removeValue_unordered
    (unordered : spec.kind.order? = none)
    (value : Value) :
    spec.removeValue map key value =
      (.error (.configuration spec.name "matching values requires a value comparator"),
        map) := by
  simp only [removeValue, unordered]

/-- Nothing is removed under an absent key. -/
theorem removeValue_absent
    (order?_eq : spec.kind.order? = some order)
    (absent : spec.valuesOf? map key = none)
    (value : Value) :
    spec.removeValue map key value = (.ok false, map) := by
  simp only [removeValue, order?_eq, absent]

/-- Nothing is removed where no value is equal. -/
theorem removeValue_unmatched
    (order?_eq : spec.kind.order? = some order)
    (present : spec.valuesOf? map key = some values)
    {value : Value}
    (unmatched : Order.lookup? (order value) values = none) :
    spec.removeValue map key value = (.ok false, map) := by
  simp [removeValue, order?_eq, present, unmatched]

/-- An equal value is removed, and the key with its last one. -/
theorem removeValue_matched
    (order?_eq : spec.kind.order? = some order)
    (present : spec.valuesOf? map key = some values)
    {value stored : Value}
    (matched : Order.lookup? (order value) values = some stored) :
    spec.removeValue map key value =
      (.ok true,
        if Order.discard (order value) values = [] then
          Order.discard (spec.probe key) map
        else spec.write map key (Order.discard (order value) values)) := by
  simp [removeValue, order?_eq, present, matched]

end Cases

/-! ## Where a key is -/

/-- The keys of a map ascend. -/
def Ordered (spec : TableSpec Key Value) (map : Multimap Key Value) : Prop :=
  Order.Ascending spec.keys (map.map Prod.fst)

/-- Where a key is in a map, and what the operations on that place do. -/
inductive Found (spec : TableSpec Key Value) (map : Multimap Key Value) (key : Key) : Prop where
  | present
      (below above : Multimap Key Value)
      (stored : Key)
      (values : List Value)
      (map_eq : map = below ++ (stored, values) :: above)
      (valuesOf?_eq : spec.valuesOf? map key = some values)
      (write_eq : ∀ others, spec.write map key others = below ++ (stored, others) :: above)
      (discard_eq : Order.discard (spec.probe key) map = below ++ above)
  | absent
      (below above : Multimap Key Value)
      (map_eq : map = below ++ above)
      (valuesOf?_eq : spec.valuesOf? map key = none)
      (place_eq :
        ∀ values,
          Order.place (spec.probe key) (key, values) map = below ++ (key, values) :: above)
      (discard_eq : Order.discard (spec.probe key) map = map)

/-- Every key separates the keys of a map. -/
theorem Ordered.separates
    [Std.TransCmp spec.keys]
    (ordered : spec.Ordered map)
    (key : Key) :
    Order.Separates (spec.probe key) map :=
  Order.Ascending.separates_map ordered key

/-- A key is at one place or between two. -/
theorem Ordered.found
    [Std.TransCmp spec.keys]
    (ordered : spec.Ordered map)
    (key : Key) :
    Found spec map key := by
  rcases (ordered.separates key).split with
    ⟨below, above, ⟨stored, values⟩, rfl, equal, allBelow, allAbove⟩ |
      ⟨below, above, rfl, allBelow, allAbove⟩
  · refine .present below above stored values rfl ?_ ?_ ?_
    · rw [valuesOf?, Order.lookup?_present allBelow equal]
      rfl
    · intro others
      exact Order.adjust_present allBelow equal allAbove _
    · exact Order.discard_present allBelow equal allAbove
  · refine .absent below above rfl ?_ ?_ ?_
    · rw [valuesOf?, Order.lookup?_absent allBelow allAbove]
      rfl
    · intro values
      exact Order.place_absent allBelow allAbove (key, values)
    · exact Order.discard_absent allBelow allAbove

/-- Writing the values of a key leaves the keys as they are. -/
theorem valuesOf?_write_isSome (map : Multimap Key Value) (key other : Key) (values : List Value) :
    (spec.valuesOf? (spec.write map key values) other).isSome =
      (spec.valuesOf? map other).isSome := by
  have keeps (pair : Key × List Value) :
      spec.probe other (if spec.probe key pair = .eq then (pair.1, values) else pair) =
        spec.probe other pair := by
    split <;> rfl
  simp only [valuesOf?, Option.isSome_map, write, Order.adjust, Order.lookup?, List.find?_map,
    Function.comp_def, keeps]

/-! ## Sizes -/

/-- A pair adds as many tuples as it has values. -/
@[simp] theorem size_cons (pair : Key × List Value) (rest : Multimap Key Value) :
    size (pair :: rest) = pair.2.length + size rest :=
  rfl

/-- The tuples of two maps in a row are counted together. -/
@[simp] theorem size_append (first second : Multimap Key Value) :
    size (first ++ second) = size first + size second := by
  induction first with
  | nil =>
      exact (Nat.zero_add _).symm
  | cons pair rest inductionHypothesis =>
      rw [List.cons_append, size_cons, size_cons, inductionHypothesis, Nat.add_assoc]

/-- As many tuples are listed as there are values. -/
theorem length_tuples (map : Multimap Key Value) : (tuples map).length = size map := by
  induction map with
  | nil =>
      rfl
  | cons pair rest inductionHypothesis =>
      rw [tuples, List.flatMap_cons, List.length_append, List.length_map, size_cons]
      exact congrArg _ inductionHypothesis

/-- As many tuples have one of some keys as these keys have values. -/
theorem size_filter (wanted : Key → Bool) (map : Multimap Key Value) :
    size (map.filter fun pair => wanted pair.1) =
      (tuples map).countP fun tuple => wanted tuple.1 := by
  induction map with
  | nil =>
      rfl
  | cons pair rest inductionHypothesis =>
      have underKey :
          (pair.2.map fun value => (pair.1, value)).countP (fun tuple => wanted tuple.1) =
            pair.2.countP fun _ => wanted pair.1 :=
        List.countP_map
      rw [tuples] at inductionHypothesis ⊢
      rw [List.flatMap_cons, List.countP_append, underKey, ← inductionHypothesis]
      cases isWanted : wanted pair.1 <;> simp [isWanted]

/-- Some tuple has one of some keys exactly if one of these keys has a value. -/
theorem exists_tuple_iff (wanted : Key → Prop) :
    (∃ tuple ∈ tuples map, wanted tuple.1) ↔ ∃ pair ∈ map, wanted pair.1 ∧ pair.2 ≠ [] := by
  constructor
  · rintro ⟨tuple, member, isWanted⟩
    obtain ⟨pair, inMap, isTuple⟩ := List.mem_flatMap.mp member
    obtain ⟨value, isValue, rfl⟩ := List.mem_map.mp isTuple
    exact ⟨pair, inMap, isWanted, List.ne_nil_of_mem isValue⟩
  · rintro ⟨pair, inMap, isWanted, nonempty⟩
    obtain ⟨value, isValue⟩ := List.exists_mem_of_ne_nil pair.2 nonempty
    exact ⟨(pair.1, value),
      List.mem_flatMap.mpr ⟨pair, inMap, List.mem_map.mpr ⟨value, isValue, rfl⟩⟩, isWanted⟩

section Sizes

variable [Std.TransCmp spec.keys] {key : Key} {values : List Value}

/-- A new key adds as many tuples as it has values. -/
theorem size_place
    (ordered : spec.Ordered map)
    (absent : spec.valuesOf? map key = none)
    (values : List Value) :
    size (Order.place (spec.probe key) (key, values) map) = size map + values.length := by
  cases ordered.found key with
  | present _ _ _ _ _ valuesOf?_eq =>
      rw [valuesOf?_eq] at absent
      contradiction
  | absent below above map_eq _ place_eq _ =>
      rw [place_eq, map_eq]
      simp only [size_append, size_cons]
      omega

/-- Replacing the values under a key counts the new ones instead of the old. -/
theorem size_write
    (ordered : spec.Ordered map)
    (present : spec.valuesOf? map key = some values)
    (others : List Value) :
    size (spec.write map key others) + values.length = size map + others.length := by
  cases ordered.found key with
  | present below above stored found map_eq valuesOf?_eq write_eq _ =>
      rw [valuesOf?_eq, Option.some.injEq] at present
      rw [write_eq, map_eq, ← present]
      simp only [size_append, size_cons]
      omega
  | absent _ _ _ valuesOf?_eq =>
      rw [valuesOf?_eq] at present
      contradiction

/-- Taking out a key takes its values off the count. -/
theorem size_discard
    (ordered : spec.Ordered map)
    (present : spec.valuesOf? map key = some values) :
    size (Order.discard (spec.probe key) map) + values.length = size map := by
  cases ordered.found key with
  | present below above stored found map_eq valuesOf?_eq _ discard_eq =>
      rw [valuesOf?_eq, Option.some.injEq] at present
      rw [discard_eq, map_eq, ← present]
      simp only [size_append, size_cons]
      omega
  | absent _ _ _ valuesOf?_eq =>
      rw [valuesOf?_eq] at present
      contradiction

/-- Taking out a key that is there leaves one key less. -/
theorem length_discard
    (ordered : spec.Ordered map)
    (present : (spec.valuesOf? map key).isSome) :
    (Order.discard (spec.probe key) map).length + 1 = map.length := by
  cases ordered.found key with
  | present below above stored found map_eq valuesOf?_eq _ discard_eq =>
      rw [discard_eq, map_eq]
      simp only [List.length_append, List.length_cons]
      omega
  | absent _ _ _ valuesOf?_eq =>
      rw [valuesOf?_eq] at present
      contradiction

/-- Taking out a key that is not there changes nothing. -/
theorem discard_absent
    (ordered : spec.Ordered map)
    (absent : spec.valuesOf? map key = none) :
    Order.discard (spec.probe key) map = map := by
  cases ordered.found key with
  | present _ _ _ _ _ valuesOf?_eq =>
      rw [valuesOf?_eq] at absent
      contradiction
  | absent _ _ _ _ _ discard_eq =>
      exact discard_eq

/-- As many tuples have a key as it has values. -/
theorem Ordered.countP_tuples (ordered : spec.Ordered map) (key : Key) :
    ((tuples map).countP fun tuple => spec.keys key tuple.1 == .eq) =
      ((spec.valuesOf? map key).map List.length).getD 0 := by
  have others :
      size (Order.discard (spec.probe key) map) =
        (tuples map).countP fun tuple => !(spec.keys key tuple.1 == .eq) :=
    size_filter (fun stored => !(spec.keys key stored == .eq)) map
  have parts :=
    List.length_eq_countP_add_countP (fun tuple => spec.keys key tuple.1 == .eq) (l := tuples map)
  simp only [Bool.not_eq_true, Bool.decide_eq_false] at parts
  rw [← others, length_tuples] at parts
  cases valuesOf : spec.valuesOf? map key with
  | none =>
      rw [discard_absent ordered valuesOf] at parts
      simpa using parts
  | some values =>
      have without := size_discard ordered valuesOf
      rw [Option.map_some, Option.getD_some]
      omega

/-- A key without values shows no tuples. -/
theorem tuples_write_nil
    (ordered : spec.Ordered map)
    (present : spec.valuesOf? map key = some values) :
    tuples (spec.write map key []) = tuples (Order.discard (spec.probe key) map) := by
  cases ordered.found key with
  | present below above stored found map_eq valuesOf?_eq write_eq discard_eq =>
      rw [write_eq, discard_eq]
      simp [tuples]
  | absent _ _ _ valuesOf?_eq =>
      rw [valuesOf?_eq] at present
      contradiction

/-- Writing the values that a key has changes nothing. -/
theorem write_same
    (ordered : spec.Ordered map)
    (present : spec.valuesOf? map key = some values) :
    spec.write map key values = map := by
  cases ordered.found key with
  | present below above stored found map_eq valuesOf?_eq write_eq _ =>
      rw [valuesOf?_eq, Option.some.injEq] at present
      rw [write_eq, map_eq, present]
  | absent _ _ _ valuesOf?_eq =>
      rw [valuesOf?_eq] at present
      contradiction

end Sizes

/-! ## Keys without values -/

/-- Every key has a value. -/
def Populated (map : Multimap Key Value) : Prop := ∀ pair ∈ map, pair.2 ≠ []

namespace Populated

/-- Taking out pairs leaves no key without values. -/
theorem discard
    (populated : Populated map)
    (probe : Key × List Value → Ordering) :
    Populated (Order.discard probe map) :=
  fun pair member => populated pair (Order.mem_discard member)

/-- Placing a pair with values leaves no key without values. -/
theorem place
    (populated : Populated map)
    {pair : Key × List Value}
    (nonempty : pair.2 ≠ [])
    (probe : Key × List Value → Ordering) :
    Populated (Order.place probe pair map) := by
  intro other member
  rcases Order.mem_place member with rfl | inMap
  · exact nonempty
  · exact populated other inMap

/-- Writing some values leaves no key without values. -/
theorem write
    (populated : Populated map)
    {values : List Value}
    (nonempty : values ≠ [])
    (key : Key) :
    Populated (spec.write map key values) := by
  intro pair member
  rcases Order.mem_adjust member with ⟨_, _, rfl⟩ | inMap
  · exact nonempty
  · exact populated pair inMap

/-- Putting a tuple leaves no key without values. -/
theorem put
    {order : Order Value}
    (populated : Populated map)
    (kind_eq : spec.kind = .duplicates order)
    (key : Key)
    (value : Value) :
    Populated (spec.put map key value).2 := by
  cases valuesOf : spec.valuesOf? map key with
  | none =>
      rw [put_absent valuesOf]
      exact populated.place (List.cons_ne_nil value []) (spec.probe key)
  | some values =>
      rw [put_duplicates kind_eq valuesOf]
      exact populated.write (Order.place_ne_nil value values) key

/-- Removing a value leaves no key without values. -/
theorem removeValue
    (populated : Populated map)
    (key : Key)
    (value : Value) :
    Populated (spec.removeValue map key value).2 := by
  cases ordered : spec.kind.order? with
  | none =>
      rw [removeValue_unordered ordered]
      exact populated
  | some order =>
      cases valuesOf : spec.valuesOf? map key with
      | none =>
          rw [removeValue_absent ordered valuesOf]
          exact populated
      | some values =>
          cases matched : Order.lookup? (order value) values with
          | none =>
              rw [removeValue_unmatched ordered valuesOf matched]
              exact populated
          | some stored =>
              rw [removeValue_matched ordered valuesOf matched]
              dsimp only
              split
              next =>
                exact populated.discard (spec.probe key)
              next nonempty =>
                exact populated.write nonempty key

end Populated

end TableSpec

end OrderedIndex

import OrderedIndex.Proofs.Table.Counts
import OrderedIndex.Proofs.Table.Navigation

namespace OrderedIndex

/-!
# Counts on the sides of a key

Whatever key is asked for, the tuples of a table fall into those below it, those
with it and those above it.  Over stores that do not fail, a table counts each
part right, though it walks the nodes for two of them, asks one group for the
third and keeps the number of all tuples apart.
-/

variable {Key Value : Type}

/-- What lies below, at and above a place are all elements. -/
theorem Order.countP_sides {Element : Type} (side : Element → Ordering) (elements : List Element) :
    elements.countP (fun element => side element == .lt) +
          elements.countP (fun element => side element == .eq) +
        elements.countP (fun element => side element == .gt) =
      elements.length := by
  induction elements with
  | nil =>
      rfl
  | cons element rest inductionHypothesis =>
      simp only [List.countP_cons, List.length_cons]
      cases side element <;> simp <;> omega

/-- Elements with one of two properties are there if there are any with either of them. -/
theorem Order.countP_pos_or
    {Element : Type}
    {one other : Element → Bool}
    {elements : List Element} :
    0 < elements.countP one + elements.countP other ↔
      ∃ element ∈ elements, one element = true ∨ other element = true := by
  rw [Nat.add_pos_iff_pos_or_pos, List.countP_pos_iff, List.countP_pos_iff]
  simp only [and_or_left, exists_or]

/-! ## Sides of a map -/

namespace TableSpec

variable
  {spec : TableSpec Key Value}
  [Std.TransCmp spec.keys]
  {map : Multimap Key Value}

/-- The part of a map below a key has the tuples below it. -/
theorem Ordered.size_lower (ordered : spec.Ordered map) (key : Key) :
    size (Order.lower (spec.probe key) map) =
      (tuples map).countP fun tuple => spec.keys tuple.1 key == .lt := by
  rw [(ordered.separates key).lower_eq_filter,
    ← size_filter (fun stored => spec.keys stored key == .lt) map]
  simp only [Order.turned_lt spec.keys _ key]
  rfl

/-- The part of a map above a key has the tuples above it. -/
theorem Ordered.size_upper (ordered : spec.Ordered map) (key : Key) :
    size (Order.upper (spec.probe key) map) =
      (tuples map).countP fun tuple => spec.keys tuple.1 key == .gt := by
  rw [(ordered.separates key).upper_eq_filter,
    ← size_filter (fun stored => spec.keys stored key == .gt) map]
  simp only [Order.turned_gt spec.keys _ key]
  rfl

end TableSpec

/-! ## Every reachable table -/

namespace Table

variable {table : Table Key Value}

/-- How many tuples have a key that compares with the given one in a certain way. -/
def tuplesAt (table : Table Key Value) (key : Key) (side : Ordering) : Nat :=
  table.toList.countP fun tuple => table.keyOrder tuple.1 key == side

/-- What a table counts around a key is what its tuples are. -/
structure CountsAround (table : Table Key Value) (key : Key) (backend : Backend) : Prop where
  countBelow_eq : (table.countBelow key backend).1 = .ok (table.tuplesAt key .lt)
  countKey_eq : (table.countKey key backend).1 = .ok (table.tuplesAt key .eq)
  countAbove_eq : (table.countAbove key backend).1 = .ok (table.tuplesAt key .gt)
  total_eq :
    table.tuplesAt key .lt + table.tuplesAt key .eq + table.tuplesAt key .gt = table.count
  hasAtMost_iff : table.hasAtMost key = true ↔ 0 < table.tuplesAt key .lt + table.tuplesAt key .eq
  hasAtLeast_iff :
    table.hasAtLeast key = true ↔ 0 < table.tuplesAt key .gt + table.tuplesAt key .eq

namespace Sound

/-- Some key is on a side exactly if some tuple is. -/
theorem any_groups_iff (sound : table.Sound) (wanted : Key → Bool) :
    (table.groups.any fun pair => wanted pair.1) = true ↔
      ∃ tuple ∈ table.toList, wanted tuple.1 = true := by
  rw [List.any_eq_true, toList_eq_tuples,
    TableSpec.exists_tuple_iff fun key => wanted key = true]
  refine exists_congr fun pair => and_congr_right fun member => ?_
  have nonempty := List.ne_nil_of_length_pos (sound.admitted pair member).length_pos
  exact (and_iff_left nonempty).symm

theorem countsSides
    (sound : table.Sound)
    (key : Key)
    {backend : Backend}
    (reliable : backend.Reliable) :
    table.CountsAround key backend := by
  have lawfulKeys : Std.TransCmp table.spec.keys := sound.lawfulKeys
  have lawful : Std.TransCmp table.keyOrder := lawfulKeys
  have equal :
      table.tuplesAt key .eq =
        ((table.spec.valuesOf? table.groups key).map List.length).getD 0 := by
    rw [← sound.ordered.countP_tuples key, tuplesAt, toList_eq_tuples]
    simp only [Order.turned_eq table.keyOrder _ key]
    rfl
  refine {
    countBelow_eq := ?_
    countKey_eq := ?_
    countAbove_eq := ?_
    total_eq := ?_
    hasAtMost_iff := ?_
    hasAtLeast_iff := ?_ }
  · rw [(sound.countBelow_eq key backend reliable).1, sound.ordered.size_lower key,
      tuplesAt, toList_eq_tuples]
    rfl
  · rw [(sound.countKey_eq key backend reliable).1, equal]
  · rw [(sound.countAbove_eq key backend reliable).1, sound.ordered.size_upper key,
      tuplesAt, toList_eq_tuples]
    rfl
  · rw [sound.counted, ← TableSpec.length_tuples, ← toList_eq_tuples]
    exact Order.countP_sides (fun tuple => table.keyOrder tuple.1 key) table.toList
  · rw [sound.hasAtMost_eq, tuplesAt, tuplesAt, Order.countP_pos_or]
    refine (sound.any_groups_iff fun stored => table.keyOrder key stored != .lt).trans ?_
    refine exists_congr fun tuple => and_congr_right fun _ => ?_
    rw [← Order.turned_isLE table.keyOrder tuple.1 key]
    cases table.keyOrder tuple.1 key <;> decide
  · rw [sound.hasAtLeast_eq, tuplesAt, tuplesAt, Order.countP_pos_or]
    refine (sound.any_groups_iff fun stored => table.keyOrder key stored != .gt).trans ?_
    refine exists_congr fun tuple => and_congr_right fun _ => ?_
    rw [← Order.turned_isGE table.keyOrder tuple.1 key]
    cases table.keyOrder tuple.1 key <;> decide

end Sound

/-- Every table counts its tuples around every key right, over stores that do not fail. -/
theorem Reachable.countsAround
    (reachable : table.Reachable)
    {backend : Backend}
    (reliable : backend.Reliable)
    (key : Key) :
    table.CountsAround key backend :=
  reachable.sound.countsSides key reliable

/-- Three values in a store under `4` and `5`, which are one key, with a tuple on either side. -/
theorem countsAround_halves :
    ∃ table : Table Nat Char,
      (Table.new ⟨"halves", true, 2, none, none⟩ (Order.byRank (· / 2))
            (some (Order.byRank Char.toNat)) (.memory 1 .empty)).1 =
          .ok table ∧
        let changes : List (TableChange Nat Char) :=
          [.put 5 'c', .put 4 'a', .put 5 'b', .put 9 'z', .put 2 'y']
        let changed := (TableChange.run table changes (.memory 1 .empty)).1.2
        changed.CountsAround 4 (.memory 1 .empty) ∧
          changed.redirectedKeyCount = 1 ∧
            [.lt, .eq, .gt].map (changed.tuplesAt 4) = [1, 3, 1] := by
  have lawfulValues : ∀ order ∈ some (Order.byRank Char.toNat), Std.TransCmp order := by
    intro order isOrder
    cases isOrder
    infer_instance
  have opened :=
    Table.Reachable.opened inferInstance lawfulValues
      (rfl :
        (Table.new ⟨"halves", true, 2, none, none⟩ (Order.byRank fun key : Nat => key / 2)
            (some (Order.byRank Char.toNat)) (.memory 1 .empty)).1 =
          .ok _)
  have reliable : Backend.Reliable (.memory 1 .empty) := Or.inl rfl
  have counts :=
    Reachable.countsAround
      (opened.run reliable [.put 5 'c', .put 4 'a', .put 5 'b', .put 9 'z', .put 2 'y']) reliable 4
  exact ⟨_, rfl, counts, by decide +kernel, by decide +kernel⟩

end Table

end OrderedIndex

import OrderedIndex.Proofs.Table.Opening
import OrderedIndex.Proofs.Table.Questions

namespace OrderedIndex

/-!
# Tables as ordered multimaps

Whatever changes are made of a new table over a backend that does not fail, the
answers along the way and everything that can be asked of the table afterwards
are those of the reference multimap, in whatever form the values are stored.
-/

variable {Key Value : Type}

/-! ## Runs of changes -/

namespace TableChange

/-- Make changes one after the other and collect their answers. -/
def run (table : Table Key Value) :
    List (TableChange Key Value) →
      StoreM (List (Except IndexError Bool) × Table Key Value)
  | [] => return ([], table)
  | change :: rest => do
      let (answer, changed) ← change.apply table
      let (answers, final) ← run changed rest
      return (answer :: answers, final)

/-- Make changes of a multimap one after the other. -/
def runOnMap (spec : TableSpec Key Value) (map : Multimap Key Value) :
    List (TableChange Key Value) → List (Except IndexError Bool) × Multimap Key Value
  | [] => ([], map)
  | change :: rest =>
      let (answer, changed) := change.applyToMap spec map
      let (answers, final) := runOnMap spec changed rest
      (answer :: answers, final)

variable {table : Table Key Value}

/-- A run of changes of a sound table is the run on its map. -/
theorem ensures_run
    (sound : table.Sound)
    (changes : List (TableChange Key Value)) :
    Ensures .reliable (run table changes) fun outcome =>
      outcome.2.Sound ∧
        outcome.2.spec = table.spec ∧
          (outcome.1, outcome.2.groups) = runOnMap table.spec table.groups changes := by
  induction changes generalizing table with
  | nil =>
      exact Ensures.pure ⟨sound, rfl, rfl⟩
  | cons change rest inductionHypothesis =>
      refine Ensures.bind (ensures_apply sound change) ?_
      rintro ⟨answer, changed⟩ ⟨changedSound, spec_eq, answer_eq, groups_eq⟩
      refine Ensures.bind (inductionHypothesis changedSound) ?_
      rintro ⟨answers, final⟩ ⟨finalSound, finalSpec, outcome_eq⟩
      refine Ensures.pure ⟨finalSound, finalSpec.trans spec_eq, ?_⟩
      dsimp only at answer_eq groups_eq outcome_eq
      rw [spec_eq, groups_eq] at outcome_eq
      simp only [runOnMap, ← outcome_eq, answer_eq]

/-- A run of changes of a new table answers and ends as it does on the empty multimap. -/
theorem run_presents_map
    (config : TableConfig)
    (keyOrder : Order Key)
    [Std.TransCmp keyOrder]
    (valueOrder? : Option (Order Value))
    (lawfulValues : ∀ order ∈ valueOrder?, Std.TransCmp order)
    (backend : Backend)
    (opens : config.Opens valueOrder? backend)
    (changes : List (TableChange Key Value)) :
    ∃ (table : Table Key Value) (started : Backend),
      Table.new config keyOrder valueOrder? backend = (.ok table, started) ∧
        (run table changes started).1.1 =
            (runOnMap (.ofSettings config keyOrder valueOrder?) [] changes).1 ∧
          (run table changes started).1.2.Presents (.ofSettings config keyOrder valueOrder?)
              (runOnMap (.ofSettings config keyOrder valueOrder?) [] changes).2 ∧
            (run table changes started).2.Reliable := by
  obtain ⟨table, started, opened, reliable⟩ := opens.new_eq keyOrder
  obtain ⟨sound, spec_eq, empty⟩ :=
    Table.new_sound lawfulValues (congrArg Prod.fst opened)
  obtain ⟨⟨finalSound, finalSpec, outcome_eq⟩, stays⟩ := ensures_run sound changes started reliable
  rw [empty, spec_eq] at outcome_eq
  refine ⟨table, started, opened, congrArg Prod.fst outcome_eq, ?_, stays⟩
  rw [← congrArg Prod.snd outcome_eq, ← spec_eq, ← finalSpec]
  exact finalSound.presents

/-- Keys by their halves: the third value moves the group of `5` into a store. -/
theorem run_presents_map_halves :
    ∃ (table : Table Nat Char) (started : Backend),
      Table.new ⟨"halves", true, 2, none, none⟩ (Order.byRank (· / 2))
            (some (Order.byRank Char.toNat)) (.memory 1 .empty) =
          (.ok table, started) ∧
        (run table
            [.put 5 'c', .put 4 'a', .put 5 'b', .put 9 'z', .removeValue 4 'c', .remove 8]
            started).1.2.Presents
          ⟨"halves", Order.byRank (· / 2), .duplicates (Order.byRank Char.toNat)⟩
          [(5, ['a', 'b'])] := by
  have opens :
      TableConfig.Opens ⟨"halves", true, 2, none, none⟩ (some (Order.byRank Char.toNat))
        (.memory 1 .empty) :=
    ⟨by decide, fun _ => rfl, Or.inl rfl, Or.inl ⟨rfl, rfl⟩⟩
  have lawfulValues : ∀ order ∈ some (Order.byRank Char.toNat), Std.TransCmp order := by
    intro order isOrder
    cases isOrder
    infer_instance
  obtain ⟨table, started, opened, _, presents, _⟩ :=
    run_presents_map ⟨"halves", true, 2, none, none⟩ (Order.byRank fun key : Nat => key / 2)
      (some (Order.byRank Char.toNat)) lawfulValues (.memory 1 .empty) opens
      [.put 5 'c', .put 4 'a', .put 5 'b', .put 9 'z', .removeValue 4 'c', .remove 8]
  exact ⟨table, started, opened, presents⟩

end TableChange

end OrderedIndex

import OrderedIndex.Proofs.Cursor.Likeness
import OrderedIndex.Proofs.Table.ValueCursor

namespace OrderedIndex.ValueCursor

/-!
# One list of values in several layouts

The values of a key may be in a tree or in a secondary store; one value may also
stand for itself, and no values need no storage.  What a cursor shows depends
only on the list of the values: a browser's repeats after a change of direction
stay hidden.
-/

variable {Value : Type} {order : Order Value} {values : List Value} {cursor : ValueCursor Value}

/-- Every ascending list can be kept in a group, inline or redirected. -/
theorem exists_group
    [Std.TransCmp order]
    (ascending : Order.Ascending order values)
    (redirected : Bool) :
    ∃ group : Group Value,
      group.isRedirected = redirected ∧ group.Sound order ∧ group.toList = values := by
  cases redirected with
  | false =>
      obtain ⟨sound, order_eq, keys_eq⟩ := Group.treeOf_sound order values
      rw [← List.nil_append values] at ascending
      exact ⟨.inline (Group.treeOf order values), rfl, ⟨order_eq, sound⟩,
        keys_eq.trans (Order.placeAll_ascending ascending)⟩
  | true =>
      exact ⟨.redirected ⟨Backend.firstId, order, values, false⟩, rfl, ⟨rfl, rfl, ascending⟩, rfl⟩

/-- New cursors over the given values, in every layout that can hold them. -/
inductive IsNew (order : Order Value) (values : List Value) : ValueCursor Value → Prop where
  | empty (values_eq : values = []) : IsNew order values .empty
  | single
      {value : Value}
      (values_eq : values = [value]) :
      IsNew order values (.single value (some order) .beforeFirst)
  | ofGroup
      {group : Group Value}
      {cursor : ValueCursor Value}
      (sound : group.Sound order)
      (values_eq : group.toList = values)
      (backend : Backend)
      (opens : (ofGroup group order backend).1 = .ok cursor) :
      IsNew order values cursor

/-- Over stores that do not fail, every group gives a cursor. -/
theorem exists_ofGroup
    {group : Group Value}
    {backend : Backend}
    (sound : group.Sound order)
    (reliable : backend.Reliable) :
    ∃ cursor, (ofGroup group order backend).1 = .ok cursor := by
  have opened := (ensures_ofGroup sound backend reliable).1
  cases answer : (ofGroup group order backend).1 with
  | error cause =>
      rw [answer] at opened
      exact opened.elim
  | ok cursor =>
      exact ⟨cursor, rfl⟩

theorem IsNew.stands (isNew : IsNew order values cursor) :
    Stands order values cursor (.gap 0) := by
  cases isNew with
  | empty values_eq =>
      exact .empty values_eq
  | @single value values_eq =>
      exact @Stands.single_at _ _ _ _ (some order) values_eq rfl .beforeFirst _ rfl
  | ofGroup sound values_eq backend opens =>
      have opened := (@ensures_ofGroup .arbitrary _ _ _ sound backend trivial).1
      rw [opens, values_eq] at opened
      exact opened

/--
A new cursor shows the values from the gap in front of them, whichever layout
holds them, so no moves tell two layouts of the same values apart.  Every
ascending list of values can be kept inline and redirected, and over stores that
do not fail a cursor can be opened over either.
-/
theorem layouts_look_alike
    [Std.TransCmp order]
    {values : List Value}
    (ascending : Order.Ascending order values) :
    (∀ redirected, ∃ group : Group Value,
        group.isRedirected = redirected ∧ group.Sound order ∧ group.toList = values) ∧
      (∀ (group : Group Value) backend,
        group.Sound order →
        backend.Reliable →
        ∃ cursor, (ofGroup group order backend).1 = .ok cursor) ∧
        (∀ cursor,
          IsNew order values cursor → Cursor.Shows order values cursor (.gap 0)) ∧
          ∀ cursor other : ValueCursor Value,
            IsNew order values cursor →
            IsNew order values other →
            Cursor.LooksLike cursor other := by
  have shows {cursor : ValueCursor Value} (isNew : IsNew order values cursor) :
      Cursor.Shows order values cursor (.gap 0) :=
    follows.shows isNew.stands
  refine ⟨exists_group ascending, ?_, fun _ => shows, ?_⟩
  · intro group backend
    exact exists_ofGroup
  · intro cursor other isNew otherIsNew
    exact (shows isNew).looksLike (shows otherIsNew)

/-- In the order of halves: two values in a store and in a tree, one in a store and alone. -/
theorem layouts_look_alike_halves :
    let halves : Order Nat := Order.byRank (· / 2)
    let memory : Backend := .memory 1 .empty
    ∃ stored storedAlone : ValueCursor Nat,
      (ofGroup (.redirected ⟨1, halves, [10, 21], false⟩) halves memory).1 = .ok stored ∧
        Cursor.LooksLike stored (inline (Group.treeOf halves [10, 21]).cursor) ∧
          (ofGroup (.redirected ⟨1, halves, [10], false⟩) halves memory).1 = .ok storedAlone ∧
            Cursor.LooksLike (single 10 (some halves) .beforeFirst) storedAlone := by
  intro halves memory
  have ascending : Order.Ascending halves [10, 21] := by
    unfold Order.Ascending
    decide
  have aloneAscending : Order.Ascending halves [10] := List.pairwise_singleton _ _
  have storeSound : (Group.redirected ⟨1, halves, [10, 21], false⟩).Sound halves :=
    ⟨rfl, rfl, ascending⟩
  have aloneSound : (Group.redirected ⟨1, halves, [10], false⟩).Sound halves :=
    ⟨rfl, rfl, aloneAscending⟩
  obtain ⟨treeSound, treeOrder, treeKeys⟩ := Group.treeOf_sound halves [10, 21]
  have treeIsNew : IsNew halves [10, 21] (inline (Group.treeOf halves [10, 21]).cursor) :=
    @IsNew.ofGroup _ _ _ (.inline _) _ ⟨treeOrder, treeSound⟩ (treeKeys.trans rfl) memory rfl
  refine ⟨_, _, rfl, ?_, rfl, ?_⟩
  · exact (layouts_look_alike ascending).2.2.2 _ _ (.ofGroup storeSound rfl memory rfl) treeIsNew
  · exact (layouts_look_alike aloneAscending).2.2.2 _ _ (.single rfl)
      (.ofGroup aloneSound rfl memory rfl)

end OrderedIndex.ValueCursor

import OrderedIndex.Proofs.Store.Cursor
import OrderedIndex.Proofs.Table.Group
import OrderedIndex.Proofs.Tree.Cursor

namespace OrderedIndex

/-!
# Value cursors as positions among the values of a key

However the values of a key are stored, a cursor over them follows a position in
their list.
-/

variable {regime : Regime} {Value : Type} {order : Order Value} {values : List Value}

/-- The position among one value. -/
def SinglePosition.position : SinglePosition → Position
  | .beforeFirst => .gap 0
  | .on => .on 0
  | .afterLast => .gap 1

namespace ValueCursor

/-- The position of a cursor among ordered values. -/
inductive Stands (order : Order Value) (values : List Value) :
    ValueCursor Value → Position → Prop where
  | empty (values_eq : values = []) : Stands order values .empty (.gap 0)
  | single
      {value : Value}
      {order? : Option (Order Value)}
      {place : SinglePosition}
      (values_eq : values = [value])
      (order_eq : order = order?.getD Order.indifferent) :
      Stands order values (.single value order? place) place.position
  | inline
      {tree : OrderedTree Value Unit}
      {nodes : List (TreeNode Value Unit)}
      {cursor : TreeCursor Value Unit}
      {position : Position}
      (represents : tree.Represents nodes)
      (order_eq : tree.order = order)
      (values_eq : values = nodes.map TreeNode.key)
      (stands : TreeCursor.Stands tree nodes cursor position) :
      Stands order values (.inline cursor) position
  | redirected
      {cursor : StoreCursor Value}
      {position : Position}
      (stands : StoreCursor.Stands order values cursor position) :
      Stands order values (.redirected cursor) position

/-- What moves a store cursor moves the value cursor over it. -/
theorem ensures_ofStore
    {Answer : Type}
    {moving : StoreM (Moved Answer (StoreCursor Value))}
    {position : Position}
    {expected : Answer × Position}
    (leads :
      Ensures regime moving
        (regime.Leads (StoreCursor.Stands order values) position expected)) :
    Ensures regime (do return ofStore (← moving))
      (regime.Leads (Stands order values) position expected) := by
  refine Ensures.bind leads ?_
  rintro ⟨cause | answer, moved⟩ led
  · exact Ensures.pure ⟨led.1, .redirected led.2⟩
  · exact Ensures.pure ⟨led.1, .redirected led.2⟩

namespace Stands

variable {cursor : ValueCursor Value} {position : Position}

/-- A cursor stands at a place among the values. -/
theorem within (stands : Stands order values cursor position) :
    position.Within values.length := by
  cases stands with
  | empty =>
      exact Nat.zero_le values.length
  | @single value order? place values_eq =>
      rw [values_eq]
      cases place with
      | beforeFirst =>
          exact Nat.zero_le 1
      | on =>
          exact Nat.zero_lt_one
      | afterLast =>
          exact Nat.le_refl 1
  | inline _ _ values_eq stands =>
      rw [values_eq, List.length_map]
      exact stands.within
  | redirected stands =>
      exact stands.within

theorem available_eq (stands : Stands order values cursor position) :
    cursor.available = position.isOn := by
  cases stands with
  | empty =>
      rfl
  | @single value order? place =>
      cases place <;> rfl
  | inline _ _ _ stands =>
      exact stands.available_eq
  | redirected stands =>
      exact stands.available_eq

/-- A cursor shows the value at its position. -/
theorem get_eq (stands : Stands order values cursor position) :
    cursor.get = position.get values := by
  cases stands with
  | empty =>
      rfl
  | @single value order? place values_eq =>
      rw [values_eq]
      cases place <;> rfl
  | inline represents _ values_eq stands =>
      rw [values_eq]
      exact stands.get_eq represents
  | redirected stands =>
      exact stands.get_eq

/-- A cursor over one value may be put anywhere. -/
theorem single_at
    {value : Value}
    {order? : Option (Order Value)}
    (values_eq : values = [value])
    (order_eq : order = order?.getD Order.indifferent)
    (place : SinglePosition)
    {position : Position}
    (position_eq : place.position = position) :
    Stands order values (.single value order? place) position := by
  rw [← position_eq]
  exact .single values_eq order_eq

theorem ensures_beforeFirst (stands : Stands order values cursor position) :
    Ensures regime cursor.beforeFirst
      (regime.Leads (Stands order values) position ((), .gap 0)) := by
  cases stands with
  | empty values_eq =>
      exact Ensures.pure ⟨rfl, .empty values_eq⟩
  | single values_eq order_eq =>
      exact Ensures.pure ⟨rfl, single_at values_eq order_eq .beforeFirst rfl⟩
  | inline represents order_eq values_eq stands =>
      exact Ensures.pure ⟨rfl, .inline represents order_eq values_eq stands.to_beforeFirst⟩
  | redirected stands =>
      have opens := stands.covers.sound.browse_first
      rw [stands.covers.values_eq] at opens
      exact ensures_ofStore (stands.ensures_reposition (List.nil_append values).symm opens)

theorem ensures_afterLast (stands : Stands order values cursor position) :
    Ensures regime cursor.afterLast
      (regime.Leads (Stands order values) position ((), .gap values.length)) := by
  cases stands with
  | empty values_eq =>
      rw [values_eq]
      exact Ensures.pure ⟨rfl, .empty rfl⟩
  | single values_eq order_eq =>
      refine Ensures.pure ⟨rfl, single_at values_eq order_eq .afterLast ?_⟩
      rw [values_eq]
      rfl
  | inline represents order_eq values_eq stands =>
      refine Ensures.pure ⟨rfl, .inline represents order_eq values_eq ?_⟩
      rw [values_eq, List.length_map]
      exact stands.to_afterLast
  | redirected stands =>
      have opens := stands.covers.sound.browse_last
      rw [stands.covers.values_eq] at opens
      exact ensures_ofStore (stands.ensures_reposition (List.append_nil values).symm opens)

/-- A cursor is placed in the gap before a value, if no call fails. -/
theorem ensures_before
    [Std.TransCmp order]
    (stands : Stands order values cursor position)
    (element : Value) :
    Ensures regime (cursor.before element)
      (regime.Leads (Stands order values) position ((), .before (order element) values)) := by
  cases stands with
  | empty values_eq =>
      rw [values_eq]
      exact Ensures.pure ⟨rfl, .empty rfl⟩
  | @single value order? place values_eq order_eq =>
      refine Ensures.pure ⟨rfl, single_at values_eq order_eq _ ?_⟩
      rw [values_eq, order_eq]
      cases order? with
      | none =>
          rfl
      | some order =>
          rw [Option.any_some, Option.getD_some, Position.before, Order.lower,
            List.takeWhile_cons, List.takeWhile_nil]
          cases order element value <;> rfl
  | inline represents order_eq values_eq stands =>
      subst order_eq
      refine Ensures.pure ⟨rfl, .inline represents rfl values_eq ?_⟩
      rw [values_eq]
      exact stands.to_before represents element
  | @redirected cursor position stands =>
      have covers := stands.covers
      have lawful : Std.TransCmp cursor.store.order := by
        rw [covers.store_order]
        infer_instance
      have opens := covers.sound.browse_before element
      rw [covers.store_order, covers.values_eq] at opens
      exact ensures_ofStore
        (stands.ensures_reposition (Order.lower_append_notLower values).symm opens)

/-- A cursor is placed in the gap after a value, if no call fails. -/
theorem ensures_after
    [Std.TransCmp order]
    (stands : Stands order values cursor position)
    (element : Value) :
    Ensures regime (cursor.after element)
      (regime.Leads (Stands order values) position ((), .after (order element) values)) := by
  cases stands with
  | empty values_eq =>
      rw [values_eq]
      exact Ensures.pure ⟨rfl, .empty rfl⟩
  | @single value order? place values_eq order_eq =>
      refine Ensures.pure ⟨rfl, single_at values_eq order_eq _ ?_⟩
      rw [values_eq, order_eq]
      cases order? with
      | none =>
          rfl
      | some order =>
          rw [Option.any_some, Option.getD_some, Position.after, Order.notUpper,
            List.takeWhile_cons, List.takeWhile_nil]
          cases order element value <;> rfl
  | inline represents order_eq values_eq stands =>
      subst order_eq
      refine Ensures.pure ⟨rfl, .inline represents rfl values_eq ?_⟩
      rw [values_eq]
      exact stands.to_after represents element
  | @redirected cursor position stands =>
      have covers := stands.covers
      have lawful : Std.TransCmp cursor.store.order := by
        rw [covers.store_order]
        infer_instance
      have opens := covers.sound.browse_after element
      rw [covers.store_order, covers.values_eq] at opens
      exact ensures_ofStore
        (stands.ensures_reposition (Order.notUpper_append_upper values).symm opens)

/-- A step forward leads to the next position, if no call fails. -/
theorem ensures_next
    [Std.TransCmp order]
    (stands : Stands order values cursor position) :
    Ensures regime cursor.next
      (regime.Leads (Stands order values) position (position.next values.length)) := by
  cases stands with
  | empty values_eq =>
      rw [values_eq]
      exact Ensures.pure ⟨rfl, .empty rfl⟩
  | @single value order? place values_eq order_eq =>
      subst values_eq
      cases place with
      | beforeFirst =>
          exact Ensures.pure ⟨rfl, single_at rfl order_eq .on rfl⟩
      | on =>
          exact Ensures.pure ⟨rfl, single_at rfl order_eq .afterLast rfl⟩
      | afterLast =>
          exact Ensures.pure ⟨rfl, single_at rfl order_eq .afterLast rfl⟩
  | inline represents order_eq values_eq stands =>
      obtain ⟨answer, moved⟩ := stands.next represents
      rw [values_eq, List.length_map]
      exact Ensures.pure ⟨answer, .inline represents order_eq rfl moved⟩
  | redirected stands =>
      exact ensures_ofStore stands.ensures_next

/-- A step backward leads to the previous position, if no call fails. -/
theorem ensures_previous
    [Std.TransCmp order]
    (stands : Stands order values cursor position) :
    Ensures regime cursor.previous
      (regime.Leads (Stands order values) position position.previous) := by
  cases stands with
  | empty values_eq =>
      exact Ensures.pure ⟨rfl, .empty values_eq⟩
  | @single value order? place values_eq order_eq =>
      cases place with
      | beforeFirst =>
          exact Ensures.pure ⟨rfl, single_at values_eq order_eq .beforeFirst rfl⟩
      | on =>
          exact Ensures.pure ⟨rfl, single_at values_eq order_eq .beforeFirst rfl⟩
      | afterLast =>
          exact Ensures.pure ⟨rfl, single_at values_eq order_eq .on rfl⟩
  | inline represents order_eq values_eq stands =>
      obtain ⟨answer, moved⟩ := stands.previous represents
      exact Ensures.pure ⟨answer, .inline represents order_eq values_eq moved⟩
  | redirected stands =>
      exact ensures_ofStore stands.ensures_previous

end Stands

/-- A value cursor follows a position among the values. -/
theorem follows [Std.TransCmp order] :
    Cursor.Follows regime order values (Stands order values) where
  within stands := stands.within
  available_eq stands := stands.available_eq
  get_eq stands := stands.get_eq
  beforeFirst stands := stands.ensures_beforeFirst
  afterLast stands := stands.ensures_afterLast
  before element stands := stands.ensures_before element
  after element stands := stands.ensures_after element
  next stands := stands.ensures_next
  previous stands := stands.ensures_previous

/-- A new cursor over a group is in front of its first value. -/
theorem ensures_ofGroup
    {group : Group Value}
    (sound : group.Sound order) :
    Ensures regime (ofGroup group order) fun
      | .ok cursor => Stands order group.toList cursor (.gap 0)
      | .error _ => regime.mayFail := by
  cases group with
  | inline tree =>
      obtain ⟨order_eq, treeSound⟩ := sound
      obtain ⟨nodes, represents⟩ := treeSound.represents
      exact Ensures.pure (.inline represents order_eq represents.keys_eq .beforeFirst)
  | redirected store =>
      obtain ⟨rfl, storeSound⟩ := sound
      refine Ensures.bind (StoreCursor.ensures_new storeSound) ?_
      rintro (cause | cursor) opened
      · exact Ensures.pure opened
      · exact Ensures.pure (.redirected opened)

end ValueCursor

end OrderedIndex

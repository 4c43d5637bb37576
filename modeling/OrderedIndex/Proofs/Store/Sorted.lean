import OrderedIndex.Proofs.SortedList
import OrderedIndex.Store.Basic

namespace OrderedIndex.OrderedStore

/-!
# Stores as ascending lists

The two bounds of a value split the values of a store as a search of an
ascending list does, so a store answers and changes as the reference list does.
-/

variable {Value : Type} {store : OrderedStore Value}

/-- An open store with ascending values. -/
structure Sound (store : OrderedStore Value) : Prop where
  isOpen : store.closed = false
  ascending : Order.Ascending store.order store.values

section Bounds

variable [Std.TransCmp store.order] (value : Value)

/-- The lower bound of a value counts the values below it. -/
theorem lowerBound_eq :
    store.lowerBound value = (Order.lower (store.order value) store.values).length := by
  simp only [lowerBound, Order.lower, Order.turned_lt store.order _ value]

/-- The upper bound of a value counts the values that are not above it. -/
theorem upperBound_eq :
    store.upperBound value = (Order.notUpper (store.order value) store.values).length := by
  simp only [upperBound, Order.notUpper, ← Order.isLE_eq_bne_gt,
    Order.turned_isLE store.order _ value]

/-- The values in front of the lower bound are those below. -/
theorem take_lowerBound :
    store.values.take (store.lowerBound value) = Order.lower (store.order value) store.values := by
  rw [lowerBound_eq]
  exact Order.take_lower _ _

/-- The values behind the lower bound are those that are not below. -/
theorem drop_lowerBound :
    store.values.drop (store.lowerBound value) =
      Order.notLower (store.order value) store.values := by
  rw [lowerBound_eq]
  exact Order.drop_lower _ _

end Bounds

namespace Sound

/-- A sound store is open. -/
theorem checkOpen_eq (sound : store.Sound) : store.checkOpen = .ok () := by
  rw [checkOpen, sound.isOpen]
  rfl

theorem size_eq (sound : store.Sound) : store.size = .ok store.values.length := by
  rw [size, sound.checkOpen_eq]
  rfl

/-- The first gap of a store is in front of all its values. -/
theorem browse_first (sound : store.Sound) :
    store.browse .first = .ok ⟨[], store.values⟩ := by
  rw [browse, sound.checkOpen_eq]
  rfl

/-- The last gap of a store is behind all its values. -/
theorem browse_last (sound : store.Sound) :
    store.browse .last = .ok ⟨store.values.reverse, []⟩ := by
  rw [browse, sound.checkOpen_eq, Browser.ofSplit, List.take_length, List.drop_length]
  rfl

/-- A store stays sound without a value. -/
theorem discard
    (sound : store.Sound)
    (value : Value) :
    Sound
      { store with values := Order.discard (store.order value) store.values } where
  isOpen := sound.isOpen
  ascending := sound.ascending.discard _

variable [Std.TransCmp store.order]

/-- The lower bound leads to the equal value, if there is one. -/
theorem has_eq
    (sound : store.Sound)
    (value : Value) :
    store.has value = (Order.lookup? (store.order value) store.values).isSome := by
  rcases sound.ascending.split value with
    ⟨below, above, stored, values_eq, equal, allBelow, _⟩ |
      ⟨below, above, values_eq, allBelow, allAbove⟩
  · rw [has, drop_lowerBound, values_eq, (Order.lower_present allBelow equal).2,
      Order.lookup?_present allBelow equal]
    simp [Std.OrientedCmp.eq_symm equal]
  · rw [has, drop_lowerBound, values_eq, (Order.borders_absent allBelow allAbove).1.2,
      Order.lookup?_absent allBelow allAbove]
    cases above with
    | nil =>
        rfl
    | cons stored above =>
        have greater := Std.OrientedCmp.gt_of_lt (allAbove stored List.mem_cons_self)
        simp [greater]

/-- Inserting places the value, and answers whether it was absent. -/
theorem insert_eq
    (sound : store.Sound)
    (value : Value) :
    store.insert value =
      .ok ((Order.lookup? (store.order value) store.values).isNone,
        { store with values := Order.place (store.order value) value store.values }) := by
  have has := sound.has_eq value
  rcases sound.ascending.split value with
    ⟨below, above, stored, values_eq, equal, allBelow, _⟩ |
      ⟨below, above, values_eq, allBelow, allAbove⟩
  · have found : Order.lookup? (store.order value) store.values = some stored := by
      rw [values_eq, Order.lookup?_present allBelow equal]
    have same : Order.place (store.order value) value store.values = store.values := by
      rw [values_eq, Order.place_present allBelow equal]
    rw [found] at has
    rw [found, same, insert, sound.checkOpen_eq, has]
    rfl
  · have missing : Order.lookup? (store.order value) store.values = none := by
      rw [values_eq, Order.lookup?_absent allBelow allAbove]
    obtain ⟨⟨lower, notLower⟩, _⟩ := Order.borders_absent allBelow allAbove
    rw [missing] at has
    rw [missing, insert, sound.checkOpen_eq, has]
    dsimp only
    rw [take_lowerBound, drop_lowerBound, values_eq, lower, notLower,
      Order.place_absent allBelow allAbove]
    rfl

/-- Removing discards the value, and answers whether it was present. -/
theorem remove_eq
    (sound : store.Sound)
    (value : Value) :
    store.remove value =
      .ok ((Order.lookup? (store.order value) store.values).isSome,
        { store with values := Order.discard (store.order value) store.values }) := by
  have has := sound.has_eq value
  rcases sound.ascending.split value with
    ⟨below, above, stored, values_eq, equal, allBelow, allAbove⟩ |
      ⟨below, above, values_eq, allBelow, allAbove⟩
  · have found : Order.lookup? (store.order value) store.values = some stored := by
      rw [values_eq, Order.lookup?_present allBelow equal]
    obtain ⟨lower, notLower⟩ := Order.lower_present allBelow equal
    rw [found] at has
    rw [found, remove, sound.checkOpen_eq, has]
    dsimp only
    rw [take_lowerBound, ← List.drop_drop, drop_lowerBound, values_eq, lower, notLower,
      Order.discard_present allBelow equal allAbove]
    rfl
  · have missing : Order.lookup? (store.order value) store.values = none := by
      rw [values_eq, Order.lookup?_absent allBelow allAbove]
    have same : Order.discard (store.order value) store.values = store.values := by
      rw [values_eq, Order.discard_absent allBelow allAbove]
    rw [missing] at has
    rw [missing, same, remove, sound.checkOpen_eq, has]
    rfl

/-- A store stays sound with a new value in its place. -/
theorem place
    (sound : store.Sound)
    (value : Value) :
    Sound
      { store with values := Order.place (store.order value) value store.values } where
  isOpen := sound.isOpen
  ascending := sound.ascending.place value

/-- A store contains the values that are found in it. -/
theorem contains_eq
    (sound : store.Sound)
    (value : Value) :
    store.contains value = .ok (Order.lookup? (store.order value) store.values).isSome := by
  rw [contains, sound.checkOpen_eq, sound.has_eq]
  rfl

/-- As many values are in front of the lower bound as are below the value. -/
theorem lowerBound_eq_countP
    (sound : store.Sound)
    (value : Value) :
    store.lowerBound value = store.values.countP fun stored => store.order stored value == .lt := by
  have separates := sound.ascending.separates value
  rw [lowerBound_eq, separates.lower_eq_filter, List.countP_eq_length_filter]
  simp only [Order.turned_lt store.order _ value]

/-- As many values are in front of the upper bound as are not above the value. -/
theorem upperBound_eq_countP
    (sound : store.Sound)
    (value : Value) :
    store.upperBound value =
      store.values.countP fun stored => (store.order stored value).isLE := by
  have separates := sound.ascending.separates value
  rw [upperBound_eq, separates.notUpper_eq_filter, List.countP_eq_length_filter]
  simp only [Order.turned_isLE store.order _ value]

/-- The gap before a value is behind the values below it. -/
theorem browse_before
    (sound : store.Sound)
    (value : Value) :
    store.browse (.before value) =
      .ok ⟨(Order.lower (store.order value) store.values).reverse,
        Order.notLower (store.order value) store.values⟩ := by
  rw [browse, sound.checkOpen_eq, Browser.ofSplit, take_lowerBound, drop_lowerBound]
  rfl

/-- The gap after a value is behind the values that are not above it. -/
theorem browse_after
    (sound : store.Sound)
    (value : Value) :
    store.browse (.after value) =
      .ok ⟨(Order.notUpper (store.order value) store.values).reverse,
        Order.upper (store.order value) store.values⟩ := by
  rw [browse, sound.checkOpen_eq, Browser.ofSplit, upperBound_eq, Order.take_notUpper,
    Order.drop_notUpper]
  rfl

end Sound

end OrderedIndex.OrderedStore

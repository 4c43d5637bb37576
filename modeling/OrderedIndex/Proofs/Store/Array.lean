import OrderedIndex.Proofs.Store.Halving

namespace OrderedIndex

/-!
# Stores in arrays as ascending lists

The places where searches of the array end split its values as the searches of
an ascending list do, so a store in an array answers and changes as that list.
-/

/-- Putting an element at a place leaves what is in front of it and moves what is behind. -/
theorem Order.insertIdx_eq_append
    {Element : Type}
    {elements : List Element}
    {place : Nat}
    (within : place ≤ elements.length)
    (added : Element) :
    elements.insertIdx place added = elements.take place ++ added :: elements.drop place := by
  induction elements generalizing place with
  | nil =>
      have atFront : place = 0 := Nat.le_zero.mp within
      rw [atFront]
      rfl
  | cons element rest inductionHypothesis =>
      cases place with
      | zero =>
          rfl
      | succ place =>
          rw [List.insertIdx_succ_cons, inductionHypothesis (Nat.le_of_succ_le_succ within)]
          rfl

namespace Halved

/-- What the operations on an ascending list do where a search of the array ends. -/
inductive Located {Element : Type} (probe : Element → Ordering) (elements : Array Element) :
    Halved elements.size → Prop where
  | found
      {place : Nat}
      {inside : place < elements.size}
      (lookup?_eq : Order.lookup? probe elements.toList = some elements[place])
      (place_eq : ∀ added, Order.place probe added elements.toList = elements.toList)
      (discard_eq :
        Order.discard probe elements.toList = (elements.eraseIdx place inside).toList) :
      Located probe elements (.found place inside)
  | missing
      {place : Nat}
      {within : place ≤ elements.size}
      (lookup?_eq : Order.lookup? probe elements.toList = none)
      (place_eq :
        ∀ added,
          Order.place probe added elements.toList =
            (elements.insertIdx place added within).toList)
      (discard_eq : Order.discard probe elements.toList = elements.toList) :
      Located probe elements (.missing place within)

theorem Ends.located
    {Element : Type}
    {probe : Element → Ordering}
    {elements : Array Element}
    {halved : Halved elements.size}
    (ends : Ends probe elements halved) :
    Located probe elements halved := by
  cases ends with
  | @found place inside equal allBelow allAbove =>
      have discarded := Order.discard_present allBelow equal allAbove
      rw [← toList_split inside] at discarded
      refine .found ?_ ?_ ?_
      · rw [toList_split inside]
        exact Order.lookup?_present allBelow equal
      · intro added
        rw [toList_split inside]
        exact Order.place_present allBelow equal added
      · rw [discarded, Array.toList_eraseIdx, List.eraseIdx_eq_take_drop_succ]
  | @missing place within allBelow allAbove =>
      have notFound := Order.lookup?_absent allBelow allAbove
      have unchanged := Order.discard_absent allBelow allAbove
      have placed := Order.place_absent allBelow allAbove
      rw [List.take_append_drop] at notFound unchanged
      simp only [List.take_append_drop] at placed
      refine .missing notFound ?_ unchanged
      intro added
      rw [placed, Array.toList_insertIdx, Order.insertIdx_eq_append within]

end Halved

namespace ArrayStore

variable {Value : Type} {store : ArrayStore Value}

/-- An open store with ascending values. -/
structure Sound (store : ArrayStore Value) : Prop where
  isOpen : store.closed = false
  ascending : Order.Ascending store.order store.values.toList

namespace Sound

theorem checkOpen_eq (sound : store.Sound) : store.checkOpen = .ok () := by
  rw [checkOpen, sound.isOpen]
  rfl

variable [Std.TransCmp store.order]

/-- A search ends where the operations on an ascending list find the value or its place. -/
theorem located
    (sound : store.Sound)
    (value : Value) :
    Halved.Located (store.order value) store.values (store.search value) := by
  have separates := sound.ascending.separates value
  exact (Halved.search_ends separates fun stored => Order.turned store.order stored value).located

/-- Inserting places the value, and answers whether it was absent. -/
theorem insert_eq
    (sound : store.Sound)
    (value : Value) :
    ∃ changed : Array Value,
      store.insert value =
          .ok ((Order.lookup? (store.order value) store.values.toList).isNone,
            { store with values := changed }) ∧
        changed.toList = Order.place (store.order value) value store.values.toList := by
  have located := sound.located value
  rw [insert, sound.checkOpen_eq]
  generalize store.search value = halved at located
  cases located with
  | found lookup?_eq place_eq _ =>
      rw [lookup?_eq, place_eq]
      exact ⟨store.values, rfl, rfl⟩
  | @missing place within lookup?_eq place_eq _ =>
      rw [lookup?_eq, place_eq]
      exact ⟨store.values.insertIdx place value within, rfl, rfl⟩

/-- Removing discards the value, and answers whether it was present. -/
theorem remove_eq
    (sound : store.Sound)
    (value : Value) :
    ∃ changed : Array Value,
      store.remove value =
          .ok ((Order.lookup? (store.order value) store.values.toList).isSome,
            { store with values := changed }) ∧
        changed.toList = Order.discard (store.order value) store.values.toList := by
  have located := sound.located value
  rw [remove, sound.checkOpen_eq]
  generalize store.search value = halved at located
  cases located with
  | @found place inside lookup?_eq _ discard_eq =>
      rw [lookup?_eq, discard_eq]
      exact ⟨store.values.eraseIdx place inside, rfl, rfl⟩
  | missing lookup?_eq _ discard_eq =>
      rw [lookup?_eq, discard_eq]
      exact ⟨store.values, rfl, rfl⟩

theorem contains_eq
    (sound : store.Sound)
    (value : Value) :
    store.contains value =
      .ok (Order.lookup? (store.order value) store.values.toList).isSome := by
  have located := sound.located value
  rw [contains, sound.checkOpen_eq]
  generalize store.search value = halved at located
  cases located with
  | found lookup?_eq _ _ =>
      rw [lookup?_eq]
      rfl
  | missing lookup?_eq _ _ =>
      rw [lookup?_eq]
      rfl

/-! ## Bounds -/

theorem lowerBound_eq_countP
    (sound : store.Sound)
    (value : Value) :
    store.lowerBound value =
      store.values.toList.countP fun stored => store.order stored value == .lt := by
  have separates := sound.ascending.separates value
  refine Halved.border_eq_countP ?_
  simp only [Order.turned_lt store.order _ value]
  exact separates.isFront_lower

theorem upperBound_eq_countP
    (sound : store.Sound)
    (value : Value) :
    store.upperBound value =
      store.values.toList.countP fun stored => (store.order stored value).isLE := by
  have separates := sound.ascending.separates value
  simp only [Order.isLE_eq_bne_gt]
  refine Halved.border_eq_countP ?_
  simp only [← Order.isLE_eq_bne_gt, Order.turned_isLE store.order _ value]
  exact separates.isFront_notUpper

end Sound

end ArrayStore

end OrderedIndex

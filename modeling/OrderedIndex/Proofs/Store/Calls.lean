import OrderedIndex.Proofs.Computation
import OrderedIndex.Proofs.Store.Sorted

namespace OrderedIndex.Backend

/-!
# Calls on stores

Under every regime a call on a sound store answers and changes as the reference
list does, or fails without changing the store.
-/

variable {regime : Regime} {Value : Type} {store : OrderedStore Value}

/-- A new store is empty. -/
theorem ensures_create (order : Order Value) :
    Ensures regime (create order) fun
      | .ok store => ∃ id, store = .empty id order
      | .error _ => regime.mayFail := by
  refine Ensures.bind (ensures_meet .create) ?_
  rintro (cause | ⟨⟩) met
  · exact Ensures.pure met
  · refine Ensures.bind Ensures.get ?_
    intro backend _
    refine Ensures.bind (Ensures.modify fun _ => rfl) ?_
    intro _ _
    refine Ensures.bind (ensures_remember .create backend.nextId) ?_
    intro _ _
    refine Ensures.bind (ensures_record _) ?_
    intro _ _
    exact Ensures.pure ⟨backend.nextId, rfl⟩

theorem ensures_checkCapacity (sound : store.Sound) :
    Ensures regime (checkCapacity store) (regime.Tells ()) := by
  refine Ensures.bind Ensures.get ?_
  intro backend admitted
  cases plan : backend.failures? with
  | none =>
      exact Ensures.pure rfl
  | some planned =>
      rw [plan] at admitted
      rw [Option.bind_some]
      cases capacity : planned.capacity with
      | none =>
          exact Ensures.pure rfl
      | some limit =>
          have mayFail : regime.mayFail := regime.full planned admitted (by simp [capacity])
          simp only [sound.size_eq]
          split
          · exact Ensures.pure mayFail
          · exact Ensures.pure rfl

/-- An insertion changes a sound store as it changes the list of its values, or fails. -/
theorem ensures_insert
    [Std.TransCmp store.order]
    (sound : store.Sound)
    (value : Value) :
    Ensures regime (insert store value)
      (regime.Changes (Order.lookup? (store.order value) store.values).isNone store
        { store with values := Order.place (store.order value) value store.values }) := by
  refine Ensures.bind (ensures_remember .insert store.id) ?_
  intro _ _
  refine Ensures.bind (ensures_meet .insert) ?_
  rintro (cause | ⟨⟩) met
  · exact Ensures.pure ⟨met, rfl⟩
  · refine Ensures.bind (ensures_checkCapacity sound) ?_
    rintro (cause | ⟨⟩) room
    · exact Ensures.pure ⟨room, rfl⟩
    · simp only [sound.insert_eq value]
      split
      · refine Ensures.bind (ensures_record _) ?_
        intro _ _
        exact Ensures.pure ⟨rfl, rfl⟩
      · exact Ensures.pure ⟨rfl, rfl⟩

/-- A removal changes a sound store as it changes the list of its values, or fails. -/
theorem ensures_remove
    [Std.TransCmp store.order]
    (sound : store.Sound)
    (value : Value) :
    Ensures regime (remove store value)
      (regime.Changes (Order.lookup? (store.order value) store.values).isSome store
        { store with values := Order.discard (store.order value) store.values }) := by
  refine Ensures.bind (ensures_remember .remove store.id) ?_
  intro _ _
  refine Ensures.bind (ensures_meet .remove) ?_
  rintro (cause | ⟨⟩) met
  · exact Ensures.pure ⟨met, rfl⟩
  · simp only [sound.remove_eq value]
    split
    · refine Ensures.bind (ensures_record _) ?_
      intro _ _
      exact Ensures.pure ⟨rfl, rfl⟩
    · exact Ensures.pure ⟨rfl, rfl⟩

/-- A call that reads from a store tells what the store does. -/
theorem ensures_consult
    {Answer : Type}
    {expected : Answer}
    (call : StoreCall)
    (store : OrderedStore Value) :
    Ensures regime (consult call store (.ok expected)) (regime.Tells expected) := by
  refine Ensures.bind (ensures_remember call store.id) ?_
  intro _ _
  refine Ensures.bind (ensures_meet call) ?_
  rintro (cause | ⟨⟩) met
  · exact Ensures.pure met
  · exact Ensures.pure rfl

/-- A sound store tells whether a value is found in it, or fails. -/
theorem ensures_contains
    [Std.TransCmp store.order]
    (sound : store.Sound)
    (value : Value) :
    Ensures regime (contains store value)
      (regime.Tells (Order.lookup? (store.order value) store.values).isSome) := by
  rw [contains, sound.contains_eq]
  exact ensures_consult .contains store

theorem ensures_size (sound : store.Sound) :
    Ensures regime (size store) (regime.Tells store.values.length) := by
  rw [size, sound.size_eq]
  exact ensures_consult .size store

/-- A browser starts where the store says, or the call fails. -/
theorem ensures_browse
    {start : BrowseStart Value}
    {browser : Browser Value}
    (opens : store.browse start = .ok browser) :
    Ensures regime (browse store start) (regime.Tells browser) := by
  rw [browse, opens]
  exact ensures_consult .browse store

/-- Closing ends a store, or fails. -/
theorem ensures_close (store : OrderedStore Value) :
    Ensures regime (close store) (regime.Changes () store store.close) := by
  refine Ensures.bind (ensures_remember .close store.id) ?_
  intro _ _
  refine Ensures.bind (ensures_meet .close) ?_
  rintro (cause | ⟨⟩) met
  · exact Ensures.pure ⟨met, rfl⟩
  · dsimp only
    split
    · refine Ensures.bind (ensures_record _) ?_
      intro _ _
      exact Ensures.pure ⟨rfl, rfl⟩
    · exact Ensures.pure ⟨rfl, rfl⟩

/-- A step forward of a browser gives the next value, or fails and stays. -/
theorem ensures_next (browser : Browser Value) :
    Ensures regime (next browser)
      (regime.Changes browser.next.1 browser browser.next.2) := by
  refine Ensures.bind (ensures_meet .next) ?_
  rintro (cause | ⟨⟩) met
  · exact Ensures.pure ⟨met, rfl⟩
  · exact Ensures.pure ⟨rfl, rfl⟩

/-- A step backward of a browser gives the previous value, or fails and stays. -/
theorem ensures_previous (browser : Browser Value) :
    Ensures regime (previous browser)
      (regime.Changes browser.previous.1 browser browser.previous.2) := by
  refine Ensures.bind (ensures_meet .previous) ?_
  rintro (cause | ⟨⟩) met
  · exact Ensures.pure ⟨met, rfl⟩
  · exact Ensures.pure ⟨rfl, rfl⟩

end OrderedIndex.Backend

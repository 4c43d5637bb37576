import OrderedIndex.Proofs.Store.Custody

namespace OrderedIndex

/-!
# Lifetimes of stores

What the history of a backend tells of single stores when all calls were managed
properly.  A store is known by its number; the numbers are consecutive and start
over after `UInt64.size` stores.
-/

/-- Number of stores that were created. -/
def creations (events : List StoreEvent) : Nat :=
  events.countP fun event => event.call == .create

/-- Every call goes to a store that is open, and as many stores are open as are listed. -/
structure Orderly (events : List StoreEvent) (held : List StoreId) : Prop where
  balance :
    ∀ id, events.count ⟨.create, id⟩ = held.count id + events.count ⟨.close, id⟩
  meetsOpen :
    ∀ later event earlier,
      events = later ++ event :: earlier →
      event.call ≠ .create →
      earlier.count ⟨.close, event.store⟩ < earlier.count ⟨.create, event.store⟩
  numbered : creations events ≤ UInt64.size → ∀ id, events.count ⟨.create, id⟩ ≤ 1

/-- A store is closed once, and not called afterwards. -/
structure ClosedOnce (events : List StoreEvent) (id : StoreId) : Prop where
  once : events.count ⟨.close, id⟩ = 1
  last :
    ∀ later earlier,
      events = later ++ ⟨.close, id⟩ :: earlier → ∀ event ∈ later, event.store ≠ id

variable
  {first next : StoreId}
  {held : List StoreId}
  {events : List StoreEvent}
  {id : StoreId}

namespace Orderly

/-- Where no store is left open, one whose number was given once is closed once. -/
theorem closedOnce
    (orderly : Orderly events [])
    (single : events.count ⟨.create, id⟩ = 1) :
    ClosedOnce events id := by
  have balanced := orderly.balance id
  rw [List.count_nil, Nat.zero_add] at balanced
  refine ⟨balanced ▸ single, ?_⟩
  intro later earlier events_eq event isLater sameStore
  obtain ⟨latest, between, rfl⟩ := List.append_of_mem isLater
  rw [List.append_assoc, List.cons_append] at events_eq
  have closing := orderly.meetsOpen (latest ++ event :: between) ⟨.close, id⟩ earlier
    (by rw [events_eq, List.append_assoc, List.cons_append]) StoreCall.noConfusion
  have calling :=
    orderly.meetsOpen latest event (between ++ ⟨.close, id⟩ :: earlier) events_eq
  rw [events_eq] at single
  simp only [List.count_append, List.count_cons, sameStore] at single closing calling
  by_cases isCreation : event.call = .create
  · -- The number would have been given twice.
    have created : event = ⟨.create, id⟩ := by rw [← isCreation, ← sameStore]
    simp only [created, beq_self_eq_true, if_true] at single
    omega
  · -- The call would have met a closed store.
    have called := calling isCreation
    simp only [beq_self_eq_true, if_true] at called
    omega

end Orderly

/-! ## Numbers -/

section Numbers

variable {event : StoreEvent} {earlier : List StoreEvent}

theorem creations_create : creations (⟨.create, id⟩ :: earlier) = creations earlier + 1 := by
  simp [creations]

theorem creations_cons_of_ne (called : event.call ≠ .create) :
    creations (event :: earlier) = creations earlier := by
  simp [creations, called]

theorem mem_of_created_mem_cons
    (called : event.call ≠ .create)
    (created : ⟨.create, id⟩ ∈ event :: earlier) :
    ⟨.create, id⟩ ∈ earlier := by
  rcases List.mem_cons.mp created with rfl | isEarlier
  · exact absurd rfl called
  · exact isEarlier

end Numbers

namespace Custody

/-- Numbers are given one after the other. -/
theorem numbered (custody : Custody first [] events next held) :
    next = first + UInt64.ofNat (creations events) ∧
      ∀ id,
        ⟨.create, id⟩ ∈ events → ∃ place < creations events, id = first + UInt64.ofNat place := by
  induction custody with
  | start =>
      exact ⟨(UInt64.add_zero first).symm, by simp⟩
  | @created earlier next held custody inductionHypothesis =>
      obtain ⟨next_eq, numbers⟩ := inductionHypothesis
      rw [creations_create]
      refine ⟨?_, ?_⟩
      · rw [next_eq, UInt64.ofNat_add, UInt64.add_assoc]
        rfl
      · intro id member
        rcases List.mem_cons.mp member with isNew | isOld
        · cases isNew
          exact ⟨creations earlier, Nat.lt_succ_self _, next_eq⟩
        · obtain ⟨place, before, id_eq⟩ := numbers id isOld
          exact ⟨place, Nat.lt_succ_of_lt before, id_eq⟩
  | called custody plain _ inductionHypothesis =>
      rw [creations_cons_of_ne plain.1]
      exact ⟨inductionHypothesis.1,
        fun id member => inductionHypothesis.2 id (mem_of_created_mem_cons plain.1 member)⟩
  | closed custody inductionHypothesis =>
      rw [creations_cons_of_ne StoreCall.noConfusion]
      exact ⟨inductionHypothesis.1,
        fun id member =>
          inductionHypothesis.2 id (mem_of_created_mem_cons StoreCall.noConfusion member)⟩
  | reordered _ _ inductionHypothesis =>
      exact inductionHypothesis

/-- Before the numbers start over, the next one has not been given. -/
theorem next_notMem
    (custody : Custody first [] events next held)
    (notMany : creations events < UInt64.size) :
    ⟨.create, next⟩ ∉ events := by
  intro given
  obtain ⟨next_eq, numbers⟩ := custody.numbered
  obtain ⟨place, before, id_eq⟩ := numbers next given
  rw [next_eq] at id_eq
  have same : UInt64.ofNat (creations events) = UInt64.ofNat place :=
    (UInt64.add_right_inj first).mp id_eq
  have places := congrArg UInt64.toNat same
  rw [UInt64.toNat_ofNat_of_lt' notMany,
    UInt64.toNat_ofNat_of_lt' (Nat.lt_trans before notMany)] at places
  exact Nat.ne_of_gt before places

/-- Before the numbers start over, each is given once at most. -/
theorem count_created_le_one
    (custody : Custody first [] events next held)
    (notMany : creations events ≤ UInt64.size)
    (id : StoreId) :
    events.count ⟨.create, id⟩ ≤ 1 := by
  induction custody with
  | start =>
      exact Nat.zero_le 1
  | @created earlier next held custody inductionHypothesis =>
      rw [creations_create] at notMany
      by_cases isNext : next = id
      · subst isNext
        have absent : earlier.count ⟨.create, next⟩ = 0 :=
          List.count_eq_zero.mpr (custody.next_notMem (Nat.lt_of_succ_le notMany))
        have count_eq : (⟨.create, next⟩ :: earlier).count ⟨.create, next⟩ = 1 := by
          rw [List.count_cons_self, absent]
        exact Nat.le_of_eq count_eq
      · rw [List.count_cons_of_ne (by simp [isNext])]
        exact inductionHypothesis (Nat.le_of_succ_le notMany)
  | called custody plain _ inductionHypothesis =>
      rw [creations_cons_of_ne plain.1] at notMany
      rw [List.count_cons_of_ne (by simp [plain.1])]
      exact inductionHypothesis notMany
  | closed custody inductionHypothesis =>
      rw [creations_cons_of_ne StoreCall.noConfusion] at notMany
      rw [List.count_cons_of_ne (by simp)]
      exact inductionHypothesis notMany
  | reordered _ _ inductionHypothesis =>
      exact inductionHypothesis notMany

/-- The history of properly managed stores is orderly. -/
theorem orderly (custody : Custody first [] events next held) : Orderly events held where
  balance id := by
    have balanced := custody.balance id
    rwa [List.count_nil, Nat.zero_add] at balanced
  meetsOpen := by
    rintro later event earlier rfl called
    obtain ⟨_, _, custody⟩ := custody.before_later
    obtain ⟨_, others, custody, isOpen⟩ := custody.before_last
    have balanced := custody.balance event.store
    have positive : 0 < others.count event.store := List.count_pos_iff.mpr (isOpen called)
    rw [List.count_nil, Nat.zero_add] at balanced
    omega
  numbered notMany id := custody.count_created_le_one notMany id

end Custody

/-! ## Planned failures -/

namespace Backend

variable {Value : Type} {backend other : Backend}

/-- Whether a call fails is up to the planned failures alone. -/
theorem meet_alike
    (alike : backend.failures? = other.failures?)
    (call : StoreCall) :
    (meet call backend).1 = (meet call other).1 ∧
      (meet call backend).2.failures? = (meet call other).2.failures? := by
  have got (backend : Backend) : (get : StoreM Backend) backend = (backend, backend) := rfl
  simp only [meet, bind_apply, got]
  rw [← alike]
  cases backend.failures? with
  | none =>
      exact ⟨rfl, alike⟩
  | some planned =>
      dsimp only
      simp only [bind_apply]
      cases (planned.outages.meet call).1 with
      | none =>
          exact ⟨rfl, rfl⟩
      | some cause =>
          exact ⟨rfl, rfl⟩

/-- Closing a store fails as the call does. -/
theorem close_alike
    (alike : backend.failures? = other.failures?)
    (store : OrderedStore Value) :
    (close store backend).1.1 = (close store other).1.1 ∧
      (close store backend).2.failures? = (close store other).2.failures? := by
  have remembered :
      (remember .close store.id backend).2.failures? =
        (remember .close store.id other).2.failures? :=
    alike
  obtain ⟨sameAnswer, stillAlike⟩ := meet_alike remembered .close
  rw [close, bind_apply, bind_apply, bind_apply, bind_apply]
  generalize meet .close (remember .close store.id backend).2 = met at sameAnswer stillAlike ⊢
  generalize meet .close (remember .close store.id other).2 = otherMet at sameAnswer stillAlike ⊢
  obtain ⟨answer, after⟩ := met
  obtain ⟨_, otherAfter⟩ := otherMet
  cases sameAnswer
  cases answer with
  | error cause =>
      exact ⟨rfl, stillAlike⟩
  | ok =>
      cases store.closed with
      | true =>
          exact ⟨rfl, stillAlike⟩
      | false =>
          exact ⟨rfl, stillAlike⟩

end Backend

end OrderedIndex

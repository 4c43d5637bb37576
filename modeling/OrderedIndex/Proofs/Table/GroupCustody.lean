import OrderedIndex.Proofs.Store.Custody
import OrderedIndex.Table.Group

namespace OrderedIndex

/-!
# Custody of the stores of groups

A group has custody of its store.  What changes a group leaves open the store of
the group it becomes, and no other: a store that could not be filled is closed
again, and one that a group moves out of is closed with it.
-/

variable {Value : Type} {held : List StoreId}

/-! ## Filling and reading whole stores -/

namespace Backend

/-- Filling an open store leaves it open. -/
theorem borrows_fill
    {store : OrderedStore Value}
    (isOpen : store.id ∈ held)
    (values : List Value) :
    Borrows held (fill store values) fun outcome => outcome.2.id = store.id := by
  induction values generalizing store with
  | nil =>
      exact Borrows.pure rfl
  | cons value rest inductionHypothesis =>
      refine Borrows.bind (borrows_insert isOpen value) ?_
      rintro ⟨cause | added, grown⟩ sameId
      · exact Borrows.pure sameId
      · rw [← sameId] at isOpen ⊢
        exact inductionHypothesis isOpen

theorem borrows_readAhead (behind ahead : List Value) :
    Borrows held (readAhead behind ahead) fun _ => True := by
  induction ahead generalizing behind with
  | nil =>
      refine Borrows.bind (borrows_meet .next) ?_
      rintro (cause | ⟨⟩) _
      · exact Borrows.pure trivial
      · exact Borrows.pure trivial
  | cons value ahead inductionHypothesis =>
      refine Borrows.bind (borrows_meet .next) ?_
      rintro (cause | ⟨⟩) _
      · exact Borrows.pure trivial
      · refine Borrows.bind (inductionHypothesis (value :: behind)) ?_
        rintro (cause | values) _
        · exact Borrows.pure trivial
        · exact Borrows.pure trivial

end Backend

namespace Group

/-- The number of the store that a group is in, if it is in one. -/
def storeIds : Group Value → List StoreId
  | .inline _ => []
  | .redirected store => [store.id]

variable {group : Group Value}

/-! ## Reading -/

/-- A question to a group in a store begins with a call on the store. -/
theorem borrows_reading
    {Answer Other : Type}
    {store : OrderedStore Value}
    (isOpen : (Group.redirected store).storeIds ⊆ held)
    {call : StoreCall}
    (plain : call.Plain)
    (told : Except StoreError Answer)
    {rest : Except StoreError Answer → StoreM Other}
    (continued : ∀ answer, Borrows held (rest answer) fun _ => True) :
    Borrows held (Backend.consult call store told >>= rest) fun _ => True :=
  Borrows.bind (Backend.borrows_consult plain (isOpen List.mem_cons_self) told) fun answer _ =>
    continued answer

/-- The size of a group is asked of its open store. -/
theorem borrows_size (isOpen : group.storeIds ⊆ held) :
    Borrows held group.size fun _ => True := by
  cases group with
  | inline tree =>
      exact Borrows.pure trivial
  | redirected store =>
      exact borrows_reading isOpen (by decide) _ fun _ => Borrows.pure trivial

/-- A value is sought in the open store of a group. -/
theorem borrows_contains
    (isOpen : group.storeIds ⊆ held)
    (value : Value) :
    Borrows held (group.contains value) fun _ => True := by
  cases group with
  | inline tree =>
      exact Borrows.pure trivial
  | redirected store =>
      exact borrows_reading isOpen (by decide) _ fun _ => Borrows.pure trivial

theorem borrows_hasAtLeast
    (isOpen : group.storeIds ⊆ held)
    (value : Value) :
    Borrows held (group.hasAtLeast value) fun _ => True := by
  cases group with
  | inline tree =>
      exact Borrows.pure trivial
  | redirected store =>
      refine borrows_reading isOpen (by decide) _ ?_
      rintro (cause | browser)
      · exact Borrows.pure trivial
      · exact Borrows.bind (Backend.borrows_next browser) fun _ _ => Borrows.pure trivial

theorem borrows_hasAtMost
    (isOpen : group.storeIds ⊆ held)
    (value : Value) :
    Borrows held (group.hasAtMost value) fun _ => True := by
  cases group with
  | inline tree =>
      exact Borrows.pure trivial
  | redirected store =>
      refine borrows_reading isOpen (by decide) _ ?_
      rintro (cause | browser)
      · exact Borrows.pure trivial
      · exact Borrows.bind (Backend.borrows_previous browser) fun _ _ => Borrows.pure trivial

/-! ## Changing -/

/-- What is left open when a group has become another, beside other stores. -/
abbrev Leaves (held : List StoreId) (outcome : Except IndexError Bool × Group Value)
    (after : List StoreId) : Prop :=
  after = outcome.2.storeIds ++ held

/-- A promotion leaves its new store open only if the group has moved into it. -/
theorem manages_promote
    (policy : DuplicatePolicy Value)
    (tree : OrderedTree Value Unit)
    (value : Value) :
    Manages held (promote policy tree value) (Leaves held) := by
  refine Manages.bind (Backend.manages_create policy.order) ?_
  rintro (cause | created) between became
  · exact Manages.pure became
  · subst became
    refine Borrows.bind
      (Backend.borrows_fill List.mem_cons_self (tree.keys ++ [value])) ?_
    rintro ⟨cause | ⟨⟩, store⟩ sameId
    · rw [← sameId]
      refine Manages.bind (Backend.manages_close store) ?_
      rintro ⟨closeCause | ⟨⟩, _⟩ _ rfl
      · exact Borrows.bind (Backend.borrows_record _) fun _ _ => Manages.pure rfl
      · exact Manages.pure rfl
    · refine Borrows.bind Backend.borrows_get ?_
      intro backend _
      refine Borrows.bind (Backend.borrows_record _) ?_
      intro _ _
      exact Manages.pure (by rw [Leaves, storeIds, sameId]; rfl)

/-- An insertion leaves the stores of the group that it leaves open, and no other of its own. -/
theorem manages_insert
    (policy : DuplicatePolicy Value)
    (group : Group Value)
    (value : Value) :
    Manages (group.storeIds ++ held) (group.insert policy value) (Leaves held) := by
  cases group with
  | inline tree =>
      unfold insert
      dsimp only
      split
      · exact Manages.pure rfl
      · exact manages_promote policy tree value
  | redirected store =>
      refine Borrows.bind (Backend.borrows_insert List.mem_cons_self value) ?_
      rintro ⟨answer, result⟩ sameId
      exact Manages.pure (by rw [Leaves, storeIds, storeIds, sameId])

/-- A demotion closes the store that the group moves out of. -/
theorem manages_demote
    (policy : DuplicatePolicy Value)
    (store : OrderedStore Value)
    (value : Value) :
    Manages (store.id :: held) (demote policy store value) (Leaves held) := by
  refine Borrows.bind (Backend.borrows_consult (by decide) List.mem_cons_self _) ?_
  rintro (cause | browser) _
  · exact Manages.pure rfl
  · refine Borrows.bind (Backend.borrows_readAhead browser.behind browser.ahead) ?_
    rintro (cause | values) _
    · exact Manages.pure rfl
    · refine Manages.bind (Backend.manages_close store) ?_
      rintro ⟨closeCause | ⟨⟩, _⟩ _ rfl
      · refine Borrows.bind (Backend.borrows_record _) ?_
        intro _ _
        exact Borrows.bind (Backend.borrows_record _) fun _ _ => Manages.pure rfl
      · exact Borrows.bind (Backend.borrows_record _) fun _ _ => Manages.pure rfl

/-- A removal leaves the stores of the group that it leaves open, and no other of its own. -/
theorem manages_remove
    (policy : DuplicatePolicy Value)
    (group : Group Value)
    (value : Value) :
    Manages (group.storeIds ++ held) (group.remove policy value) (Leaves held) := by
  cases group with
  | inline tree =>
      exact Manages.pure rfl
  | redirected store =>
      -- Removing in place serves both a group that stays large and an absent value.
      have inPlace :
          Manages (store.id :: held)
            (do
              let removed ← Backend.remove store value
              return (liftStore removed.1, Group.redirected removed.2))
            (Leaves held) := by
        refine Borrows.bind (Backend.borrows_remove List.mem_cons_self value) ?_
        rintro ⟨answer, result⟩ sameId
        exact Manages.pure (by rw [Leaves, storeIds, sameId]; rfl)
      refine Borrows.bind (Backend.borrows_consult (by decide) List.mem_cons_self _) ?_
      rintro (cause | size) _
      · exact Manages.pure rfl
      · dsimp only
        split
        · exact inPlace
        · refine Borrows.bind (Backend.borrows_consult (by decide) List.mem_cons_self _) ?_
          rintro (cause | present) _
          · exact Manages.pure rfl
          · cases present with
            | false =>
                exact inPlace
            | true =>
                exact manages_demote policy store value

/-! ## Closing -/

/-- Closing a group gives back all its stores. -/
theorem manages_close (group : Group Value) :
    Manages (group.storeIds ++ held) group.close fun _ after => after = held := by
  cases group with
  | inline tree =>
      exact Manages.pure rfl
  | redirected store =>
      refine Manages.bind (Backend.manages_close store) ?_
      rintro ⟨answer, _⟩ _ rfl
      exact Manages.pure rfl

end Group

end OrderedIndex

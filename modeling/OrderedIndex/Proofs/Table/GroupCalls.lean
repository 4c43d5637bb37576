import OrderedIndex.Proofs.Store.Trace
import OrderedIndex.Proofs.Table.Group

namespace OrderedIndex

/-!
# Calls of groups

Which calls a group makes on its store, as far as they tell where an operation
on the group has failed.  A group that is stored inline makes none.
-/

variable {regime : Regime} {Value : Type}

/-! ## Filling and reading whole stores -/

namespace Backend

/-- Filling a store makes no calls but insertions into it. -/
theorem performs_fill (store : OrderedStore Value) (values : List Value) :
    Performs regime (fill store values) fun _ events => ∀ event ∈ events, event.call = .insert := by
  induction values generalizing store with
  | nil =>
      exact .pure (by simp)
  | cons value values inductionHypothesis =>
      refine (performs_insert store value).bind ?_
      rintro ⟨cause | added, grown⟩ _ rfl
      · exact .pure (by simp)
      · refine (inductionHypothesis grown).weaken ?_
        intro _ later insertions event member
        rcases List.mem_append.mp member with isLater | isFirst
        · exact insertions event isLater
        · rw [List.mem_singleton.mp isFirst]

theorem performs_readAhead (behind ahead : List Value) :
    Performs regime (readAhead behind ahead) fun _ events => events = [] := by
  induction ahead generalizing behind with
  | nil =>
      refine (performs_meet .next).bind_silent ?_
      rintro (cause | ⟨⟩)
      · exact .pure rfl
      · exact .pure rfl
  | cons value ahead inductionHypothesis =>
      refine (performs_meet .next).bind_silent ?_
      rintro (cause | ⟨⟩)
      · exact .pure rfl
      · refine (inductionHypothesis (value :: behind)).bind_silent ?_
        rintro (cause | values)
        · exact .pure rfl
        · exact .pure rfl

end Backend

namespace Group

variable {order : Order Value} {group : Group Value}

/-! ## Counting and closing -/

/-- A group that cannot be counted is in a store, which was asked last. -/
theorem performs_size (sound : group.Sound order) :
    Performs regime group.size fun
      | .ok size, _ => size = group.toList.length
      | .error _, events =>
          regime.mayFail ∧ group.isRedirected = true ∧ events.map StoreEvent.call = [.size] := by
  have traced :
      Performs regime group.size fun answer events =>
        ∀ cause,
          answer = .error cause →
          group.isRedirected = true ∧ events.map StoreEvent.call = [.size] := by
    cases group with
    | inline tree =>
        refine .pure ?_
        intro cause failed
        contradiction
    | redirected store =>
        refine (Backend.performs_consult .size store store.size).bind ?_
        rintro answer _ rfl
        exact .pure fun _ _ => ⟨rfl, rfl⟩
  refine (traced.and_ensures (ensures_size sound)).weaken ?_
  rintro (cause | size) events ⟨told, last⟩
  · exact ⟨told, last cause rfl⟩
  · exact told

/-- A group that cannot be closed has made no other call. -/
theorem performs_close (group : Group Value) :
    Performs regime group.close fun
      | .ok (), _ => True
      | .error _, events => regime.mayFail ∧ events.map StoreEvent.call = [.close] := by
  have traced :
      Performs regime group.close fun answer events =>
        ∀ cause, answer = .error cause → events.map StoreEvent.call = [.close] := by
    cases group with
    | inline tree =>
        refine .pure ?_
        intro cause failed
        contradiction
    | redirected store =>
        refine (Backend.performs_close store).bind ?_
        rintro answer _ rfl
        exact .pure fun _ _ => rfl
  refine (traced.and_ensures (ensures_close group)).weaken ?_
  rintro (cause | ⟨⟩) events ⟨told, last⟩
  · exact ⟨told, last cause rfl⟩
  · trivial

/-! ## Adding -/

/-- The calls that adding a value may make. -/
def AddingCalls (events : List StoreEvent) : Prop :=
  ∀ event ∈ events, event.call ∈ [.create, .insert, .close]

theorem AddingCalls.append
    {later earlier : List StoreEvent}
    (laterCalls : AddingCalls later)
    (earlierCalls : AddingCalls earlier) :
    AddingCalls (later ++ earlier) := by
  intro event member
  rcases List.mem_append.mp member with isLater | isEarlier
  · exact laterCalls event isLater
  · exact earlierCalls event isEarlier

/-- A promotion creates a store, fills it, and closes it if it cannot be filled. -/
theorem performs_promote
    (policy : DuplicatePolicy Value)
    (tree : OrderedTree Value Unit)
    (value : Value) :
    Performs regime (promote policy tree value) fun _ events => AddingCalls events := by
  refine (Backend.performs_create policy.order).bind ?_
  rintro (cause | created) _ rfl
  · exact .pure (by simp [AddingCalls])
  · have creating : AddingCalls [⟨.create, created.id⟩] := by simp [AddingCalls]
    refine (Backend.performs_fill created (tree.keys ++ [value])).bind ?_
    intro outcome filling insertions
    have filled : AddingCalls filling := fun event member => by simp [insertions event member]
    rcases outcome with ⟨cause | ⟨⟩, store⟩
    · have closing : AddingCalls [⟨.close, store.id⟩] := by simp [AddingCalls]
      refine (Backend.performs_close store).bind ?_
      rintro ⟨closeCause | ⟨⟩, _⟩ _ rfl
      · refine (Backend.performs_record _).bind_silent ?_
        intro _
        exact .pure ((closing.append filled).append creating)
      · exact .pure ((closing.append filled).append creating)
    · refine Backend.performs_get.bind_silent ?_
      intro backend
      refine (Backend.performs_record _).bind_silent ?_
      intro _
      exact .pure (filled.append creating)

theorem performs_insert
    {policy : DuplicatePolicy Value}
    [Std.TransCmp policy.order]
    (sound : group.Sound policy.order)
    (value : Value) :
    Performs regime (group.insert policy value) fun outcome events =>
      Becomes regime policy.order group
          (Order.lookup? (policy.order value) group.toList).isNone
          (Order.place (policy.order value) value group.toList) outcome ∧
        AddingCalls events := by
  refine Performs.and_ensures ?_ (ensures_insert sound value)
  cases group with
  | inline tree =>
      unfold insert
      dsimp only
      split
      · exact .pure (by simp [AddingCalls])
      · exact performs_promote policy tree value
  | redirected store =>
      refine (Backend.performs_insert store value).bind ?_
      rintro ⟨answer, result⟩ _ rfl
      exact .pure (by simp [AddingCalls])

/-! ## Removing -/

/-- A demotion that fails has failed to read the store. -/
theorem performs_demote
    (policy : DuplicatePolicy Value)
    (store : OrderedStore Value)
    (value : Value) :
    Performs regime (demote policy store value) fun
      | (.ok _, result), _ => result.isRedirected = false
      | (.error _, _), events => events = [⟨.browse, store.id⟩] := by
  refine (Backend.performs_consult .browse store (store.browse .first)).bind ?_
  rintro (cause | browser) _ rfl
  · exact .pure rfl
  · refine (Backend.performs_readAhead browser.behind browser.ahead).bind_silent ?_
    rintro (cause | values)
    · exact .pure rfl
    · refine (Backend.performs_close store).bind ?_
      rintro ⟨closeCause | ⟨⟩, _⟩ _ rfl
      · refine (Backend.performs_record _).bind_silent ?_
        intro _
        refine (Backend.performs_record _).bind_silent ?_
        intro _
        exact .pure rfl
      · refine (Backend.performs_record _).bind_silent ?_
        intro _
        exact .pure rfl

/--
A removal that fails has neither closed the store nor counted it after a value
was removed; one that leaves the values in the store has removed the value last.
-/
def RemovingCalls (events : List StoreEvent) : Except IndexError Bool × Group Value → Prop
  | (.ok _, result) => result.isRedirected = true → LastCalls [.remove] events
  | (.error _, _) => ¬ LastCalls [.close] events ∧ ¬ LastCalls [.size, .remove] events

/-- However a removal ends that has called for it last. -/
theorem removingCalls_remove
    (store : StoreId)
    (earlier : List StoreEvent)
    (outcome : Except IndexError Bool × Group Value) :
    RemovingCalls (⟨.remove, store⟩ :: earlier) outcome := by
  rcases outcome with ⟨cause | removed, result⟩
  · exact ⟨by simp [LastCalls], by simp [LastCalls]⟩
  · exact fun _ => by simp [LastCalls]

theorem performs_remove
    {policy : DuplicatePolicy Value}
    [Std.TransCmp policy.order]
    (sound : group.Sound policy.order)
    (value : Value) :
    Performs regime (group.remove policy value) fun outcome events =>
      Becomes regime policy.order group
          (Order.lookup? (policy.order value) group.toList).isSome
          (Order.discard (policy.order value) group.toList) outcome ∧
        RemovingCalls events outcome := by
  refine Performs.and_ensures ?_ (ensures_remove sound value)
  cases group with
  | inline tree =>
      refine .pure ?_
      intro redirected
      contradiction
  | redirected store =>
      -- Removing in place serves both a group that stays large and an absent value.
      have inPlace :
          Performs regime
            (do
              let removed ← Backend.remove store value
              return (liftStore removed.1, Group.redirected removed.2))
            fun _ events => events = [⟨.remove, store.id⟩] := by
        refine (Backend.performs_remove store value).bind ?_
        rintro ⟨answer, result⟩ _ rfl
        exact .pure rfl
      refine (Backend.performs_consult .size store store.size).bind ?_
      rintro (cause | size) _ rfl
      · exact .pure ⟨by simp [LastCalls], by simp [LastCalls]⟩
      · dsimp only
        split
        · refine inPlace.weaken ?_
          rintro outcome _ rfl
          exact removingCalls_remove _ _ outcome
        · refine (Backend.performs_consult .contains store (store.contains value)).bind ?_
          rintro (cause | present) _ rfl
          · exact .pure ⟨by simp [LastCalls], by simp [LastCalls]⟩
          · cases present with
            | false =>
                refine inPlace.weaken ?_
                rintro outcome _ rfl
                exact removingCalls_remove _ _ outcome
            | true =>
                refine (performs_demote policy store value).weaken ?_
                rintro ⟨cause | removed, result⟩ events traced
                · subst traced
                  exact ⟨by simp [LastCalls], by simp [LastCalls]⟩
                · intro redirected
                  rw [traced] at redirected
                  contradiction

/-- A removal leaves values in a store only if they are not few enough to move back inline. -/
theorem ensures_remove_room
    {policy : DuplicatePolicy Value}
    [Std.TransCmp policy.order]
    (sound : group.Sound policy.order)
    (value : Value) :
    Ensures regime (group.remove policy value) fun outcome =>
      outcome.1 = .ok true →
      outcome.2.isRedirected = true →
      policy.demoteBelow ≤ outcome.2.toList.length := by
  cases group with
  | inline tree =>
      refine .pure ?_
      intro _ redirected
      contradiction
  | redirected store =>
      obtain ⟨order_eq, storeSound⟩ := sound
      have lawful : Std.TransCmp store.order := by
        rw [order_eq]
        infer_instance
      have lengths := (storeSound.ascending.split value).length_discard
      refine Ensures.bind (Backend.ensures_size storeSound) ?_
      rintro (cause | size) told
      · refine .pure ?_
        intro failed
        contradiction
      · cases told
        dsimp only
        split
        next large =>
          refine Ensures.bind (Backend.ensures_remove storeSound value) ?_
          rintro ⟨cause | answer, result⟩ changed
          · refine .pure ?_
            intro failed
            contradiction
          · obtain ⟨rfl, rfl⟩ := changed
            refine .pure ?_
            intro removed _
            have matched :
                (Order.lookup? (store.order value) store.values).isSome = true :=
              Except.ok.inj removed
            rw [matched] at lengths
            show policy.demoteBelow ≤ (Order.discard (store.order value) store.values).length
            rw [← lengths] at large
            exact large
        next =>
          refine Ensures.bind (Backend.ensures_contains storeSound value) ?_
          rintro (cause | present) told
          · refine .pure ?_
            intro failed
            contradiction
          · cases present with
            | false =>
                refine Ensures.bind (Backend.ensures_remove storeSound value) ?_
                rintro ⟨cause | answer, result⟩ changed
                · refine .pure ?_
                  intro failed
                  contradiction
                · refine .pure ?_
                  intro removed
                  have matched : answer = true := Except.ok.inj removed
                  rw [changed.1, ← told] at matched
                  contradiction
            | true =>
                refine (performs_demote policy store value).ensures ?_
                rintro ⟨cause | removed, result⟩ events traced
                · intro failed
                  contradiction
                · intro _ redirected
                  rw [traced] at redirected
                  contradiction

end Group

end OrderedIndex

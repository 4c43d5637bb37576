import OrderedIndex.Proofs.Store.Closing
import OrderedIndex.Proofs.Table.GroupCalls

namespace OrderedIndex

/-!
# Changes of groups, made or not made

A change of a group happens as a whole or not at all, also where it moves the
values between a tree and a store: the group is replaced after the last call that
can fail it.  Closing the store that is left behind comes after that, and how it
goes makes no difference to the answer.
-/

variable {Value : Type}

/-! ## Changes -/

/-- A change of the values of one key. -/
inductive GroupChange (Value : Type) where
  | insert (value : Value)
  | remove (value : Value)
  deriving Repr, DecidableEq

namespace GroupChange

/-- Make a change of a group; tell whether there was something to change. -/
def apply (policy : DuplicatePolicy Value) (group : Group Value) :
    GroupChange Value → StoreM (Except IndexError Bool × Group Value)
  | .insert value => group.insert policy value
  | .remove value => group.remove policy value

/-- Two lists differ by the value that the change adds in its place or removes. -/
def Makes (order : Order Value) (before after : List Value) : GroupChange Value → Prop
  | .insert value =>
      ∃ below above,
        before = below ++ above ∧
          after = below ++ value :: above ∧
            Order.AllBelow (order value) below ∧ Order.AllAbove (order value) above
  | .remove value =>
      ∃ below stored above,
        before = below ++ stored :: above ∧ after = below ++ above ∧ order value stored = .eq

/-- There is nothing to change: the value to add is present, or the one to remove absent. -/
def Idle (order : Order Value) (values : List Value) : GroupChange Value → Prop
  | .insert value => ∃ stored ∈ values, order value stored = .eq
  | .remove value => ∀ stored ∈ values, order value stored ≠ .eq

end GroupChange

namespace Group

/-- Groups that come about from the empty one by changes over stores that may fail. -/
inductive Reachable (policy : DuplicatePolicy Value) : Group Value → Prop where
  | empty : Reachable policy (.empty policy.order)
  | changed
      {group : Group Value}
      (reachable : Reachable policy group)
      (change : GroupChange Value)
      (backend : Backend) :
      Reachable policy (change.apply policy group backend).1.2

end Group

/-! ## What a change does -/

namespace GroupChange

variable
  {regime : Regime}
  {policy : DuplicatePolicy Value}
  {group : Group Value}

/-- An insertion makes its change if no equal value is there, and is idle otherwise. -/
theorem makes_or_idle_insert
    {order : Order Value}
    [Std.TransCmp order]
    {values : List Value}
    (ascending : Order.Ascending order values)
    (value : Value) :
    if (Order.lookup? (order value) values).isNone then
      (insert value).Makes order values (Order.place (order value) value values)
    else
      Order.place (order value) value values = values ∧ (insert value).Idle order values := by
  rcases ascending.split value with
    ⟨below, above, stored, rfl, equal, allBelow, allAbove⟩ |
      ⟨below, above, rfl, allBelow, allAbove⟩
  · rw [Order.lookup?_present allBelow equal]
    exact ⟨Order.place_present allBelow equal value, stored, by simp, equal⟩
  · rw [Order.lookup?_absent allBelow allAbove]
    exact ⟨below, above, rfl, Order.place_absent allBelow allAbove value, allBelow, allAbove⟩

/-- A removal makes its change if an equal value is there, and is idle otherwise. -/
theorem makes_or_idle_remove
    {order : Order Value}
    [Std.TransCmp order]
    {values : List Value}
    (ascending : Order.Ascending order values)
    (value : Value) :
    if (Order.lookup? (order value) values).isSome then
      (remove value).Makes order values (Order.discard (order value) values)
    else
      Order.discard (order value) values = values ∧ (remove value).Idle order values := by
  rcases ascending.split value with
    ⟨below, above, stored, rfl, equal, allBelow, allAbove⟩ |
      ⟨below, above, rfl, allBelow, allAbove⟩
  · rw [Order.lookup?_present allBelow equal]
    exact ⟨below, stored, above, rfl, Order.discard_present allBelow equal allAbove, equal⟩
  · rw [Order.lookup?_absent allBelow allAbove]
    exact ⟨Order.discard_absent allBelow allAbove, Order.ne_eq_of_absent allBelow allAbove⟩

/-- A change is made, or there is nothing to change, or it fails and the group is as before. -/
def Ends
    (regime : Regime)
    (policy : DuplicatePolicy Value)
    (group : Group Value)
    (change : GroupChange Value) :
    Except IndexError Bool × Group Value → Prop
  | (.ok true, after) =>
      after.Sound policy.order ∧ change.Makes policy.order group.toList after.toList
  | (.ok false, after) =>
      after.Sound policy.order ∧
        after.toList = group.toList ∧ change.Idle policy.order group.toList
  | (.error _, after) => regime.mayFail ∧ after = group

/-- A change of a sound group ends made, idle or failed, and the group says which. -/
theorem ensures_apply
    [Std.TransCmp policy.order]
    (sound : group.Sound policy.order)
    (change : GroupChange Value) :
    Ensures regime (change.apply policy group) (change.Ends regime policy group) := by
  cases change with
  | insert value =>
      have changes := makes_or_idle_insert sound.ascending value
      refine (Group.ensures_insert sound value).weaken ?_
      rintro ⟨cause | added, after⟩ became
      · exact became
      · obtain ⟨rfl, afterSound, values_eq⟩ := became
        rw [← values_eq] at changes
        cases added : (Order.lookup? (policy.order value) group.toList).isNone with
        | true =>
            rw [added, if_pos rfl] at changes
            exact ⟨afterSound, changes⟩
        | false =>
            rw [added, if_neg Bool.false_ne_true] at changes
            exact ⟨afterSound, changes⟩
  | remove value =>
      have changes := makes_or_idle_remove sound.ascending value
      refine (Group.ensures_remove sound value).weaken ?_
      rintro ⟨cause | removed, after⟩ became
      · exact became
      · obtain ⟨rfl, afterSound, values_eq⟩ := became
        rw [← values_eq] at changes
        cases removed : (Order.lookup? (policy.order value) group.toList).isSome with
        | true =>
            rw [removed, if_pos rfl] at changes
            exact ⟨afterSound, changes⟩
        | false =>
            rw [removed, if_neg Bool.false_ne_true] at changes
            exact ⟨afterSound, changes⟩

namespace Ends

variable {change : GroupChange Value} {outcome : Except IndexError Bool × Group Value}

/-- However a change ends, the group is sound. -/
theorem sound
    (sound : group.Sound policy.order)
    (ends : change.Ends regime policy group outcome) :
    outcome.2.Sound policy.order := by
  obtain ⟨cause | changed, after⟩ := outcome
  · rw [show after = group from ends.2]
    exact sound
  · cases changed with
    | true =>
        exact ends.1
    | false =>
        exact ends.1

/-- A change fails only where calls may, and leaves the group as it was. -/
theorem failed
    {cause : IndexError}
    (ends : change.Ends regime policy group outcome)
    (failed : outcome.1 = .error cause) :
    regime.mayFail ∧ outcome.2 = group := by
  obtain ⟨given, after⟩ := outcome
  cases failed
  exact ends

/-- A change that was made changed the values as it should. -/
theorem makes
    (ends : change.Ends regime policy group outcome)
    (made : outcome.1 = .ok true) :
    change.Makes policy.order group.toList outcome.2.toList := by
  obtain ⟨given, after⟩ := outcome
  cases made
  exact ends.2

/-- A change that was not made had nothing to do. -/
theorem idle
    (ends : change.Ends regime policy group outcome)
    (unmade : outcome.1 = .ok false) :
    outcome.2.toList = group.toList ∧ change.Idle policy.order group.toList := by
  obtain ⟨given, after⟩ := outcome
  cases unmade
  exact ends.2

end Ends

end GroupChange

namespace Group

variable {policy : DuplicatePolicy Value} {group : Group Value}

/-- Every reachable group is sound. -/
theorem Reachable.sound
    [Std.TransCmp policy.order]
    (reachable : Reachable policy group) :
    group.Sound policy.order := by
  induction reachable with
  | empty =>
      exact sound_empty policy.order
  | @changed group _ change backend sound =>
      have ends : change.Ends .arbitrary policy group (change.apply policy group backend).1 :=
        (change.ensures_apply sound backend trivial).1
      exact ends.sound sound

end Group

/-! ## Stores that are given up -/

/-- A store that was created was then filled for a while and closed, and that was all. -/
def ClosesCreated (events : List StoreEvent) : Prop :=
  ∀ id,
    ⟨.create, id⟩ ∈ events →
    ∃ filling,
      events = ⟨.close, id⟩ :: filling ++ [⟨.create, id⟩] ∧
        ∀ event ∈ filling, event = ⟨.insert, id⟩

/-- Where no store was created, none has to be closed. -/
theorem closesCreated_of_calls
    {events : List StoreEvent}
    (calls : ∀ event ∈ events, event.call ≠ .create) :
    ClosesCreated events := by
  intro id created
  exact absurd rfl (calls _ created)

/-- A store that is filled and then closed is a created one that was closed. -/
theorem closesCreated_abandoned
    {filling : List StoreEvent}
    {id : StoreId}
    (insertions : ∀ event ∈ filling, event = ⟨.insert, id⟩) :
    ClosesCreated (⟨.close, id⟩ :: filling ++ [⟨.create, id⟩]) := by
  intro other created
  have same : other = id := by
    rcases List.mem_append.mp created with inFront | isCreation
    · rcases List.mem_cons.mp inFront with isClosing | isFilling
      · cases isClosing
      · cases insertions _ isFilling
    · cases List.mem_singleton.mp isCreation
      rfl
  subst same
  exact ⟨filling, rfl, insertions⟩

variable {regime : Regime}

/-- Filling a store inserts into that store. -/
theorem Backend.performs_fill_numbered
    {store : OrderedStore Value}
    [Std.TransCmp store.order]
    (sound : store.Sound)
    (values : List Value) :
    Performs regime (fill store values) fun outcome events =>
      outcome.2.id = store.id ∧ ∀ event ∈ events, event = ⟨.insert, store.id⟩ := by
  induction values generalizing store with
  | nil =>
      exact .pure ⟨rfl, by simp⟩
  | cons value values inductionHypothesis =>
      refine ((performs_insert store value).and_ensures (ensures_insert sound value)).bind ?_
      rintro ⟨cause | added, grown⟩ _ ⟨changed, rfl⟩
      · exact .pure ⟨by rw [show grown = store from changed.2], by simp⟩
      · obtain ⟨_, rfl⟩ := changed
        refine (inductionHypothesis (sound.place value)).weaken ?_
        intro outcome later filled
        refine ⟨filled.1, ?_⟩
        intro event member
        rcases List.mem_append.mp member with isLater | isFirst
        · exact filled.2 event isLater
        · exact List.mem_singleton.mp isFirst

namespace Group

variable {policy : DuplicatePolicy Value} {group : Group Value}

/-- The store of a promotion that fails is closed after it was filled for a while. -/
theorem performs_promote_abandoning
    [Std.TransCmp policy.order]
    (tree : OrderedTree Value Unit)
    (value : Value) :
    Performs regime (promote policy tree value) fun outcome events =>
      ∀ cause, outcome.1 = .error cause → ClosesCreated events := by
  refine ((Backend.performs_create policy.order).and_ensures
    (Backend.ensures_create policy.order)).bind ?_
  rintro (cause | created) events ⟨made, traced⟩
  · subst traced
    exact .pure fun _ _ => closesCreated_of_calls (by simp)
  · obtain ⟨id, rfl⟩ := made
    subst traced
    have sound : (OrderedStore.empty id policy.order).Sound := ⟨rfl, List.Pairwise.nil⟩
    have lawful : Std.TransCmp (OrderedStore.empty id policy.order).order :=
      inferInstanceAs (Std.TransCmp policy.order)
    refine (Backend.performs_fill_numbered sound (tree.keys ++ [value])).bind ?_
    rintro ⟨cause | ⟨⟩, store⟩ filling ⟨sameId, insertions⟩
    · refine (Backend.performs_close store).bind ?_
      rintro ⟨closeCause | ⟨⟩, _⟩ _ rfl
      · refine (Backend.performs_record _).bind_silent fun _ => .pure fun _ _ => ?_
        rw [show store.id = id from sameId]
        exact closesCreated_abandoned insertions
      · refine .pure fun _ _ => ?_
        rw [show store.id = id from sameId]
        exact closesCreated_abandoned insertions
    · refine Backend.performs_get.bind_silent fun _ => ?_
      refine (Backend.performs_record _).bind_silent fun _ => .pure ?_
      intro cause failed
      contradiction

end Group

namespace GroupChange

variable {policy : DuplicatePolicy Value} {group : Group Value}

/-- A store that is read to be given up is closed, and none is created. -/
theorem performs_demote_uncreating
    (policy : DuplicatePolicy Value)
    (store : OrderedStore Value)
    (value : Value) :
    Performs regime (Group.demote policy store value) fun _ events =>
      ∀ event ∈ events, event.call ≠ .create := by
  refine (Backend.performs_consult .browse store (store.browse .first)).bind ?_
  rintro (cause | browser) _ rfl
  · exact .pure (by simp)
  · refine (Backend.performs_readAhead browser.behind browser.ahead).bind_silent ?_
    rintro (cause | values)
    · exact .pure (by simp)
    · refine (Backend.performs_close store).bind ?_
      rintro ⟨closeCause | ⟨⟩, _⟩ _ rfl
      · refine (Backend.performs_record _).bind_silent fun _ => ?_
        exact (Backend.performs_record _).bind_silent fun _ => .pure (by simp)
      · exact (Backend.performs_record _).bind_silent fun _ => .pure (by simp)

/-- A removal creates no store. -/
theorem performs_remove_uncreating (group : Group Value) (value : Value) :
    Performs regime (group.remove policy value) fun _ events =>
      ∀ event ∈ events, event.call ≠ .create := by
  cases group with
  | inline tree =>
      exact .pure (by simp)
  | redirected store =>
      refine (Backend.performs_consult .size store store.size).bind ?_
      rintro (cause | size) _ rfl
      · exact .pure (by simp)
      · dsimp only
        split
        · refine (Backend.performs_remove store value).bind ?_
          rintro ⟨answer, result⟩ _ rfl
          exact .pure (by simp)
        · refine (Backend.performs_consult .contains store (store.contains value)).bind ?_
          rintro (cause | present) _ rfl
          · exact .pure (by simp)
          · cases present with
            | false =>
                refine (Backend.performs_remove store value).bind ?_
                rintro ⟨answer, result⟩ _ rfl
                exact .pure (by simp)
            | true =>
                refine (performs_demote_uncreating policy store value).weaken ?_
                intro _ events calls event member
                simp only [List.mem_append, List.mem_singleton] at member
                rcases member with (isLater | rfl) | rfl
                · exact calls event isLater
                · simp
                · simp

/-- A change that fails closes the stores that it created. -/
theorem performs_apply_closing
    [Std.TransCmp policy.order]
    (group : Group Value)
    (change : GroupChange Value) :
    Performs regime (change.apply policy group) fun outcome events =>
      ∀ cause, outcome.1 = .error cause → ClosesCreated events := by
  cases change with
  | insert value =>
      cases group with
      | inline tree =>
          unfold apply Group.insert
          dsimp only
          split
          · refine .pure ?_
            intro cause failed
            contradiction
          · exact Group.performs_promote_abandoning tree value
      | redirected store =>
          refine (Backend.performs_insert store value).bind ?_
          rintro ⟨answer, result⟩ _ rfl
          exact .pure fun _ _ => closesCreated_of_calls (by simp)
  | remove value =>
      refine (performs_remove_uncreating group value).weaken ?_
      intro _ events calls _ _
      exact closesCreated_of_calls calls

end GroupChange

/-! ## Failures of closing -/

namespace Backend

/-- Filling a store ends the same whatever closing answers. -/
theorem ignoresClosing_fill (store : OrderedStore Value) (values : List Value) :
    IgnoresClosing (fill store values) := by
  induction values generalizing store with
  | nil =>
      exact .pure _
  | cons value values inductionHypothesis =>
      refine (ignoresClosing_insert store value).bind ?_
      rintro ⟨cause | added, grown⟩
      · exact .pure _
      · exact inductionHypothesis grown

/-- Reading a store ends the same whatever closing answers. -/
theorem ignoresClosing_readAhead (behind ahead : List Value) :
    IgnoresClosing (readAhead behind ahead) := by
  induction ahead generalizing behind with
  | nil =>
      refine (ignoresClosing_meet (by decide)).bind ?_
      rintro (cause | ⟨⟩)
      · exact .pure _
      · exact .pure _
  | cons value ahead inductionHypothesis =>
      refine (ignoresClosing_meet (by decide)).bind ?_
      rintro (cause | ⟨⟩)
      · exact .pure _
      · refine (inductionHypothesis (value :: behind)).bind ?_
        rintro (cause | values)
        · exact .pure _
        · exact .pure _

end Backend

namespace Group

variable (policy : DuplicatePolicy Value)

/-- A promotion ends the same whatever closing answers. -/
theorem ignoresClosing_promote (tree : OrderedTree Value Unit) (value : Value) :
    IgnoresClosing (promote policy tree value) := by
  refine (Backend.ignoresClosing_create policy.order).bind ?_
  rintro (cause | created)
  · exact .pure _
  · refine (Backend.ignoresClosing_fill created (tree.keys ++ [value])).bind ?_
    rintro ⟨cause | ⟨⟩, store⟩
    · refine Backend.ignoresClosing_close_bind (.error (.ofStore cause), .inline tree) ?_
      rintro ⟨closeCause | ⟨⟩, _⟩
      · exact fun _ => ⟨rfl, rfl⟩
      · exact fun _ => ⟨rfl, rfl⟩
    · exact GivesAnyway.ignoresClosing fun _ => ⟨rfl, rfl⟩

/-- A demotion ends the same whatever closing answers. -/
theorem ignoresClosing_demote (store : OrderedStore Value) (value : Value) :
    IgnoresClosing (demote policy store value) := by
  refine (Backend.ignoresClosing_consult (by decide) store _).bind ?_
  rintro (cause | browser)
  · exact .pure _
  · refine (Backend.ignoresClosing_readAhead browser.behind browser.ahead).bind ?_
    rintro (cause | values)
    · exact .pure _
    · let remaining := values.filter fun stored => policy.order stored value != .eq
      refine Backend.ignoresClosing_close_bind
        (.ok true, .inline (treeOf policy.order remaining)) ?_
      rintro ⟨closeCause | ⟨⟩, _⟩
      · exact fun _ => ⟨rfl, rfl⟩
      · exact fun _ => ⟨rfl, rfl⟩

/-- An insertion ends the same whatever closing answers. -/
theorem ignoresClosing_insert (group : Group Value) (value : Value) :
    IgnoresClosing (group.insert policy value) := by
  cases group with
  | inline tree =>
      unfold insert
      dsimp only
      split
      · exact .pure _
      · exact ignoresClosing_promote policy tree value
  | redirected store =>
      exact (Backend.ignoresClosing_insert store value).bind fun _ => .pure _

/-- A removal ends the same whatever closing answers. -/
theorem ignoresClosing_remove (group : Group Value) (value : Value) :
    IgnoresClosing (group.remove policy value) := by
  cases group with
  | inline tree =>
      exact .pure _
  | redirected store =>
      refine (Backend.ignoresClosing_consult (by decide) store _).bind ?_
      rintro (cause | size)
      · exact .pure _
      · dsimp only
        split
        · exact (Backend.ignoresClosing_remove store value).bind fun _ => .pure _
        · refine (Backend.ignoresClosing_consult (by decide) store _).bind ?_
          rintro (cause | present)
          · exact .pure _
          · cases present with
            | false =>
                exact (Backend.ignoresClosing_remove store value).bind fun _ => .pure _
            | true =>
                exact ignoresClosing_demote policy store value

end Group

/-- Every change of a group ends the same whatever closing answers. -/
theorem GroupChange.ignoresClosing_apply
    (policy : DuplicatePolicy Value)
    (group : Group Value)
    (change : GroupChange Value) :
    IgnoresClosing (change.apply policy group) := by
  cases change with
  | insert value =>
      exact Group.ignoresClosing_insert policy group value
  | remove value =>
      exact Group.ignoresClosing_remove policy group value

/-! ## All or nothing -/

/-- What a change of a group comes to, whatever calls fail. -/
structure GroupChange.IsAtomic
    (policy : DuplicatePolicy Value)
    (group : Group Value)
    (change : GroupChange Value) :
    Prop where
  /-- A failed change leaves the group as it was, in its tree or in its store. -/
  failed_eq :
    ∀ backend cause,
      (change.apply policy group backend).1.1 = .error cause →
      (change.apply policy group backend).1.2 = group
  /-- A store that could not be filled has been asked to close. -/
  failed_closes :
    ∀ backend cause,
      (change.apply policy group backend).1.1 = .error cause →
      ClosesCreated (backend.eventsOf (change.apply policy group))
  makes :
    ∀ backend,
      (change.apply policy group backend).1.1 = .ok true →
      change.Makes policy.order group.toList (change.apply policy group backend).1.2.toList
  idle :
    ∀ backend,
      (change.apply policy group backend).1.1 = .ok false →
      (change.apply policy group backend).1.2.toList = group.toList ∧
        change.Idle policy.order group.toList
  /-- Whether and how closing fails makes no difference to the answer and the group. -/
  closing_ignored :
    ∀ backend other : Backend,
      backend.AlikeButForClosing other →
      (change.apply policy group backend).1 = (change.apply policy group other).1
  answers :
    ∀ backend : Backend,
      backend.Reliable → ∃ changed, (change.apply policy group backend).1.1 = .ok changed

/--
Every change of a group that can come about is made as a whole or not at all,
whatever pattern of calls fails.
-/
theorem Group.Reachable.change_isAtomic
    {policy : DuplicatePolicy Value}
    [Std.TransCmp policy.order]
    {group : Group Value}
    (reachable : Group.Reachable policy group)
    (change : GroupChange Value) :
    change.IsAtomic policy group := by
  have sound := reachable.sound
  have ends (backend : Backend) :
      change.Ends .arbitrary policy group (change.apply policy group backend).1 :=
    (change.ensures_apply sound backend trivial).1
  refine ⟨?_, ?_, ?_, ?_, ?_, ?_⟩
  · intro backend cause failed
    exact ((ends backend).failed failed).2
  · intro backend cause failed
    have admitted : Regime.arbitrary.admits backend.failures? := trivial
    exact (GroupChange.performs_apply_closing group change).post_eventsOf admitted cause failed
  · intro backend made
    exact (ends backend).makes made
  · intro backend unmade
    exact (ends backend).idle unmade
  · intro backend other alike
    exact (change.ignoresClosing_apply policy group backend other alike).1
  · intro backend reliable
    have ended : change.Ends .reliable policy group (change.apply policy group backend).1 :=
      (change.ensures_apply sound backend reliable).1
    cases answer : (change.apply policy group backend).1.1 with
    | error cause =>
        exact (ended.failed answer).1.elim
    | ok changed =>
        exact ⟨changed, rfl⟩

/--
Two values are kept inline.  The store for a third takes the first value only and
does not even close, but the answer is that of a store that closes.
-/
theorem change_isAtomic_pair :
    let policy : DuplicatePolicy Nat := ⟨"pairs", Order.byRank id, 2, 1⟩
    let memory : Backend := .memory 1 .empty
    let single := ((GroupChange.insert 10).apply policy (.empty policy.order) memory).1.2
    let pair := ((GroupChange.insert 20).apply policy single memory).1.2
    let full : StoreCall × Outage := (.insert, .plan (.io .timedOut) 1 none none)
    let stuck : StoreCall × Outage := (.close, .plan (.io .other) 0 none none)
    let closes : Backend := .faulty true none [full] 1 .empty
    let staysOpen : Backend := .faulty true none [stuck, full] 1 .empty
    ((GroupChange.insert 30).apply policy pair staysOpen).1 =
        (.error (.ofStore (.io .timedOut)), pair) ∧
      ((GroupChange.insert 30).apply policy pair staysOpen).1 =
          ((GroupChange.insert 30).apply policy pair closes).1 ∧
        ClosesCreated (staysOpen.eventsOf ((GroupChange.insert 30).apply policy pair)) := by
  intro policy memory single pair full stuck closes staysOpen
  have lawful : Std.TransCmp policy.order := Order.byRank_transCmp id
  have reachable : Group.Reachable policy pair :=
    .changed (.changed .empty (.insert 10) memory) (.insert 20) memory
  have atomic := reachable.change_isAtomic (.insert 30)
  have failed :
      ((GroupChange.insert 30).apply policy pair staysOpen).1.1 =
        .error (.ofStore (.io .timedOut)) :=
    rfl
  exact ⟨Prod.ext failed (atomic.failed_eq staysOpen _ failed),
    atomic.closing_ignored staysOpen closes rfl, atomic.failed_closes staysOpen _ failed⟩

end OrderedIndex

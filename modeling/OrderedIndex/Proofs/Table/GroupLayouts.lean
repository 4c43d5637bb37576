import OrderedIndex.Proofs.Table.GroupCalls
import OrderedIndex.Proofs.Table.Relocations

namespace OrderedIndex

/-!
# Layouts of groups

Which changes of a group move it between its layouts, told by the group before
the change: the value that makes an inline group too large moves it into a store,
and the removal that makes a redirected group too small moves it back.  Values
that are already there, or not there, move nothing.
-/

variable {regime : Regime} {Value : Type}

/-- Whether a group is redirected after a move, or without one as it was. -/
def Relocation.landing (was : Bool) : Option Relocation → Bool
  | some .promotion => true
  | some .demotion => false
  | none => was

namespace Group

variable {policy : DuplicatePolicy Value} {group : Group Value}

/-- A group in a layout that its size allows. -/
def Fits (policy : DuplicatePolicy Value) (group : Group Value) : Prop :=
  if group.isRedirected then policy.demoteBelow ≤ group.toList.length
  else group.toList.length ≤ policy.promoteAbove

theorem fits_redirected (isRedirected : group.isRedirected = true) :
    group.Fits policy ↔ policy.demoteBelow ≤ group.toList.length := by
  rw [Fits, if_pos isRedirected]

theorem fits_inline (isInline : group.isRedirected = false) :
    group.Fits policy ↔ group.toList.length ≤ policy.promoteAbove := by
  rw [Fits, isInline, if_neg Bool.false_ne_true]

/-- A new value moves an inline group that is full. -/
def insertionMove? (policy : DuplicatePolicy Value) (group : Group Value) (value : Value) :
    Option Relocation :=
  if group.isRedirected = false ∧
      group.toList.length = policy.promoteAbove ∧
        (Order.lookup? (policy.order value) group.toList).isNone then
    some .promotion
  else none

/-- Removing a value that is present moves a redirected group that becomes too small. -/
def removalMove? (policy : DuplicatePolicy Value) (group : Group Value) (value : Value) :
    Option Relocation :=
  if group.isRedirected = true ∧
      group.toList.length - 1 < policy.demoteBelow ∧
        (Order.lookup? (policy.order value) group.toList).isSome then
    some .demotion
  else none

/-- The expected move is made and leads where it should, or a call fails and none is made. -/
def Lands (expected : Option Relocation) (before : Group Value) :
    Except IndexError Bool × Group Value → List Relocation → Prop
  | (.ok _, after), moves =>
      moves = expected.toList ∧
        after.isRedirected = Relocation.landing before.isRedirected expected
  | (.error _, _), moves => moves = []

/-! ## Adding -/

theorem relocates_promote
    [Std.TransCmp policy.order]
    (tree : OrderedTree Value Unit)
    (value : Value) :
    Relocates regime (promote policy tree value) (Lands (some .promotion) (.inline tree)) := by
  refine .bind_quiet (Backend.ensures_create policy.order) (Backend.quiet_create policy.order) ?_
  rintro (cause | created) made
  · exact .pure rfl
  · obtain ⟨id, rfl⟩ := made
    have emptySound : (OrderedStore.empty id policy.order).Sound := ⟨rfl, List.Pairwise.nil⟩
    have lawful : Std.TransCmp (OrderedStore.empty id policy.order).order :=
      inferInstanceAs (Std.TransCmp policy.order)
    refine .bind_quiet (Backend.ensures_fill emptySound (tree.keys ++ [value]))
      (Backend.quiet_fill _ _) ?_
    rintro ⟨cause | ⟨⟩, store⟩ _
    · refine .bind_quiet (Backend.ensures_close store) (Backend.quiet_close store) ?_
      rintro ⟨closeCause | ⟨⟩, _⟩ _
      · exact .bind_quiet (Backend.ensures_record _) (Backend.quiet_note _) fun _ _ => .pure rfl
      · exact .pure rfl
    · refine .bind_quiet Ensures.get .get fun _ _ => ?_
      refine (Relocates.record .promotion ?_).bind ?_
      · exact fun _ => rfl
      · rintro _ _ rfl
        exact .pure ⟨rfl, rfl⟩

theorem relocates_insert
    [Std.TransCmp policy.order]
    (sound : group.Sound policy.order)
    (fits : group.Fits policy)
    (value : Value) :
    Relocates regime (group.insert policy value)
      (Lands (group.insertionMove? policy value) group) := by
  cases group with
  | inline tree =>
      obtain ⟨order_eq, treeSound⟩ := sound
      have contained := treeSound.contains_keys value
      rw [order_eq] at contained
      unfold insert
      dsimp only
      rw [treeSound.size_keys, contained]
      split
      next room =>
        have stays : (inline tree).insertionMove? policy value = none := by
          refine if_neg ?_
          rintro ⟨_, full, isNew⟩
          have isNew : (Order.lookup? (policy.order value) tree.keys).isNone = true := isNew
          rw [Bool.or_eq_true, decide_eq_true_iff, ← Option.not_isNone, isNew] at room
          rcases room with room | present
          · exact Nat.ne_of_lt room full
          · contradiction
        rw [stays]
        exact .pure ⟨rfl, rfl⟩
      next full =>
        have promotes : (inline tree).insertionMove? policy value = some .promotion := by
          rw [Bool.or_eq_true, decide_eq_true_iff, not_or, Nat.not_lt, Bool.not_eq_true,
            ← Option.not_isNone, Bool.not_eq_false'] at full
          obtain ⟨atLeast, isNew⟩ := full
          have atMost : tree.keys.length ≤ policy.promoteAbove := (fits_inline rfl).mp fits
          exact if_pos ⟨rfl, Nat.le_antisymm atMost atLeast, isNew⟩
        rw [promotes]
        exact relocates_promote tree value
  | redirected store =>
      obtain ⟨order_eq, storeSound⟩ := sound
      have lawful : Std.TransCmp store.order := by
        rw [order_eq]
        infer_instance
      have stays : (redirected store).insertionMove? policy value = none :=
        if_neg (by simp [isRedirected])
      rw [stays]
      refine .bind_quiet (Backend.ensures_insert storeSound value)
        (Backend.quiet_insert store value) ?_
      rintro ⟨cause | answer, result⟩ _
      · exact .pure rfl
      · exact .pure ⟨rfl, rfl⟩

/-! ## Removing -/

theorem relocates_demote
    {store : OrderedStore Value}
    (sound : store.Sound)
    (value : Value) :
    Relocates regime (demote policy store value) (Lands (some .demotion) (.redirected store)) := by
  refine .bind_quiet (Backend.ensures_browse sound.browse_first)
    (Backend.quiet_consult .browse store _) ?_
  rintro (cause | browser) _
  · exact .pure rfl
  · refine .bind_quiet (Backend.ensures_readAhead browser.behind browser.ahead)
      (Backend.quiet_readAhead _ _) ?_
    rintro (cause | values) _
    · exact .pure rfl
    · refine .bind_quiet (Backend.ensures_close store) (Backend.quiet_close store) ?_
      rintro ⟨closeCause | ⟨⟩, _⟩ _
      · refine .bind_quiet (Backend.ensures_record _) (Backend.quiet_note _) fun _ _ => ?_
        refine (Relocates.record .demotion ?_).bind ?_
        · exact fun _ => rfl
        · rintro _ _ rfl
          exact .pure ⟨rfl, rfl⟩
      · refine (Relocates.record .demotion ?_).bind ?_
        · exact fun _ => rfl
        · rintro _ _ rfl
          exact .pure ⟨rfl, rfl⟩

theorem relocates_remove
    [Std.TransCmp policy.order]
    (sound : group.Sound policy.order)
    (value : Value) :
    Relocates regime (group.remove policy value)
      (Lands (group.removalMove? policy value) group) := by
  cases group with
  | inline tree =>
      have stays : (inline tree).removalMove? policy value = none :=
        if_neg (by simp [isRedirected])
      rw [stays]
      exact .pure ⟨rfl, rfl⟩
  | redirected store =>
      obtain ⟨order_eq, storeSound⟩ := sound
      have lawful : Std.TransCmp store.order := by
        rw [order_eq]
        infer_instance
      -- Removing in place moves nothing.
      have inPlace :
          Relocates regime
            (do
              let removed ← Backend.remove store value
              return (liftStore removed.1, Group.redirected removed.2))
            (Lands none (.redirected store)) := by
        refine .bind_quiet (Backend.ensures_remove storeSound value)
          (Backend.quiet_remove store value) ?_
        rintro ⟨cause | answer, result⟩ _
        · exact .pure rfl
        · exact .pure ⟨rfl, rfl⟩
      refine .bind_quiet (Backend.ensures_size storeSound) (Backend.quiet_consult .size store _) ?_
      rintro (cause | size) told
      · exact .pure rfl
      · cases told
        dsimp only
        split
        next large =>
          have stays : (redirected store).removalMove? policy value = none := by
            refine if_neg ?_
            rintro ⟨_, small, _⟩
            exact absurd large (Nat.not_le.mpr small)
          rw [stays]
          exact inPlace
        next small =>
          refine .bind_quiet (Backend.ensures_contains storeSound value)
            (Backend.quiet_consult .contains store _) ?_
          rintro (cause | present) told
          · exact .pure rfl
          · have found : (Order.lookup? (policy.order value) store.values).isSome = present := by
              rw [← order_eq]
              exact told.symm
            cases present with
            | false =>
                have stays : (redirected store).removalMove? policy value = none := by
                  refine if_neg ?_
                  rintro ⟨_, _, isPresent⟩
                  exact absurd (found.symm.trans isPresent) Bool.false_ne_true
                rw [stays]
                exact inPlace
            | true =>
                have demotes : (redirected store).removalMove? policy value = some .demotion :=
                  if_pos ⟨rfl, Nat.lt_of_not_le small, found⟩
                rw [demotes]
                exact relocates_demote storeSound value

/-! ## Sizes -/

/-- Adding a value leaves a group whose size allows its layout. -/
theorem Fits.insert
    {value : Value}
    {after : Group Value}
    (fits : group.Fits policy)
    (coherent : policy.demoteBelow ≤ policy.promoteAbove)
    (length_eq :
      after.toList.length =
        group.toList.length + (Order.lookup? (policy.order value) group.toList).isNone.toNat)
    (lands :
      after.isRedirected =
        Relocation.landing group.isRedirected (group.insertionMove? policy value)) :
    after.Fits policy := by
  unfold insertionMove? at lands
  split at lands
  next promoted =>
    obtain ⟨_, full, _⟩ := promoted
    rw [fits_redirected lands]
    omega
  next stays =>
    have sameLayout : after.isRedirected = group.isRedirected := lands
    cases isRedirected : group.isRedirected with
    | true =>
        rw [fits_redirected isRedirected] at fits
        rw [fits_redirected (sameLayout.trans isRedirected)]
        omega
    | false =>
        rw [fits_inline isRedirected] at fits
        rw [fits_inline (sameLayout.trans isRedirected)]
        cases isNew : (Order.lookup? (policy.order value) group.toList).isNone with
        | true =>
            have room : group.toList.length ≠ policy.promoteAbove :=
              fun full => stays ⟨isRedirected, full, isNew⟩
            rw [isNew, Bool.toNat_true] at length_eq
            omega
        | false =>
            rw [isNew, Bool.toNat_false] at length_eq
            omega

/-- Removing a value leaves a group whose size allows its layout. -/
theorem Fits.remove
    {value : Value}
    {after : Group Value}
    (fits : group.Fits policy)
    (coherent : policy.demoteBelow ≤ policy.promoteAbove)
    (length_eq :
      after.toList.length + (Order.lookup? (policy.order value) group.toList).isSome.toNat =
        group.toList.length)
    (lands :
      after.isRedirected =
        Relocation.landing group.isRedirected (group.removalMove? policy value)) :
    after.Fits policy := by
  unfold removalMove? at lands
  split at lands
  next demoted =>
    obtain ⟨_, small, isPresent⟩ := demoted
    rw [isPresent, Bool.toNat_true] at length_eq
    rw [fits_inline lands]
    omega
  next stays =>
    have sameLayout : after.isRedirected = group.isRedirected := lands
    cases isRedirected : group.isRedirected with
    | true =>
        rw [fits_redirected isRedirected] at fits
        rw [fits_redirected (sameLayout.trans isRedirected)]
        cases isPresent : (Order.lookup? (policy.order value) group.toList).isSome with
        | true =>
            have large : ¬ group.toList.length - 1 < policy.demoteBelow :=
              fun small => stays ⟨isRedirected, small, isPresent⟩
            rw [isPresent, Bool.toNat_true] at length_eq
            omega
        | false =>
            rw [isPresent, Bool.toNat_false] at length_eq
            omega
    | false =>
        rw [fits_inline isRedirected] at fits
        rw [fits_inline (sameLayout.trans isRedirected)]
        omega

end Group

/-! ## What moves make of groups -/

/-- What a move, or none, makes of the group under a key. -/
inductive Rearranged (policy : DuplicatePolicy Value) :
    Option (Group Value) → Option Relocation → Option (Group Value) → Prop where
  /-- The key stays absent. -/
  | absent : Rearranged policy none none none
  /-- A new key starts with an inline group. -/
  | created
      {after : Group Value}
      (isInline : after.isRedirected = false) :
      Rearranged policy none none (some after)
  /-- The group stays in its layout. -/
  | kept
      {before after : Group Value}
      (sameLayout : after.isRedirected = before.isRedirected) :
      Rearranged policy (some before) none (some after)
  /-- The group goes with its key. -/
  | dropped {before : Group Value} : Rearranged policy (some before) none none
  /-- A full inline group goes into a store with one more value. -/
  | promoted
      {before after : Group Value}
      (wasInline : before.isRedirected = false)
      (full : before.toList.length = policy.promoteAbove)
      (isRedirected : after.isRedirected = true)
      (grown : after.toList.length = policy.promoteAbove + 1) :
      Rearranged policy (some before) (some .promotion) (some after)
  /-- A redirected group comes back inline with one value less. -/
  | demoted
      {before after : Group Value}
      (wasRedirected : before.isRedirected = true)
      (isInline : after.isRedirected = false)
      (shrunk : after.toList.length + 1 = before.toList.length)
      (small : after.toList.length < policy.demoteBelow) :
      Rearranged policy (some before) (some .demotion) (some after)
  /-- A redirected group comes back inline without values, and goes with its key. -/
  | demotedAway
      {before : Group Value}
      (wasRedirected : before.isRedirected = true)
      (single : before.toList.length = 1)
      (small : 0 < policy.demoteBelow) :
      Rearranged policy (some before) (some .demotion) none

namespace Group

variable {policy : DuplicatePolicy Value} {group after : Group Value}

theorem rearranged_insert
    {value : Value}
    (length_eq :
      after.toList.length =
        group.toList.length + (Order.lookup? (policy.order value) group.toList).isNone.toNat)
    (lands :
      after.isRedirected =
        Relocation.landing group.isRedirected (group.insertionMove? policy value)) :
    Rearranged policy (some group) (group.insertionMove? policy value) (some after) := by
  unfold insertionMove? at lands ⊢
  split
  next promotes =>
    rw [if_pos promotes] at lands
    obtain ⟨wasInline, full, isNew⟩ := promotes
    rw [isNew, full] at length_eq
    exact .promoted wasInline full lands length_eq
  next stays =>
    rw [if_neg stays] at lands
    exact .kept lands

theorem rearranged_remove
    {value : Value}
    (length_eq :
      after.toList.length + (Order.lookup? (policy.order value) group.toList).isSome.toNat =
        group.toList.length)
    (lands :
      after.isRedirected =
        Relocation.landing group.isRedirected (group.removalMove? policy value)) :
    Rearranged policy (some group) (group.removalMove? policy value) (some after) := by
  unfold removalMove? at lands ⊢
  split
  next demotes =>
    rw [if_pos demotes] at lands
    obtain ⟨wasRedirected, small, isPresent⟩ := demotes
    rw [isPresent, Bool.toNat_true] at length_eq
    rw [← length_eq, Nat.add_sub_cancel] at small
    exact .demoted wasRedirected lands length_eq small
  next stays =>
    rw [if_neg stays] at lands
    exact .kept lands

end Group

/-- A group that is empty after a change was not promoted by it, and its key can be dropped. -/
theorem Rearranged.drop
    {policy : DuplicatePolicy Value}
    {before after : Group Value}
    {move? : Option Relocation}
    (rearranged : Rearranged policy (some before) move? (some after))
    (isEmpty : after.toList = []) :
    Rearranged policy (some before) move? none := by
  cases rearranged with
  | kept =>
      exact .dropped
  | promoted _ _ _ grown =>
      rw [isEmpty] at grown
      contradiction
  | demoted wasRedirected _ shrunk small =>
      rw [isEmpty] at shrunk small
      exact .demotedAway wasRedirected shrunk.symm small

/-- Only a group that was not moved is redirected after a removal. -/
theorem Group.removalMove?_eq_none
    {policy : DuplicatePolicy Value}
    {group after : Group Value}
    {value : Value}
    (lands :
      after.isRedirected =
        Relocation.landing group.isRedirected (group.removalMove? policy value))
    (isRedirected : after.isRedirected = true) :
    group.removalMove? policy value = none := by
  unfold removalMove? at lands ⊢
  split
  next demotes =>
    rw [if_pos demotes, isRedirected] at lands
    contradiction
  next =>
    rfl

/-! ## Failing to count and to close -/

namespace Group

variable {policy : DuplicatePolicy Value} {group : Group Value}

/-- A group that cannot be counted is in a store. -/
theorem ensures_size_redirected (sound : group.Sound policy.order) :
    Ensures regime group.size fun
      | .ok size => size = group.toList.length
      | .error _ => group.isRedirected = true := by
  refine (performs_size sound).ensures ?_
  rintro (cause | size) events told
  · exact told.2.1
  · exact told

/-- A group that cannot be closed is in a store. -/
theorem ensures_close_redirected (group : Group Value) :
    Ensures regime group.close fun
      | .ok () => True
      | .error _ => group.isRedirected = true := by
  cases group with
  | inline tree =>
      exact .pure trivial
  | redirected store =>
      refine (Backend.ensures_close store).bind ?_
      rintro ⟨cause | ⟨⟩, _⟩ _
      · exact .pure rfl
      · exact .pure trivial

end Group

end OrderedIndex

import OrderedIndex.Proofs.Store.Calls
import OrderedIndex.Proofs.Tree.Contents
import OrderedIndex.Table.Group

namespace OrderedIndex

/-!
# Groups as ascending lists of values

A group answers and changes as the list of its values does, wherever they are
stored.  A change that moves the values between a tree and a store is, for the
list, a change like any other; a call that fails leaves the group as it was.
-/

variable {regime : Regime} {Value : Type}

/-! ## Building from a list -/

namespace Order

/-- Put elements into a list one after the other. -/
def placeAll (order : Order Value) (elements added : List Value) : List Value :=
  added.foldl (fun list value => place (order value) value list) elements

theorem placeAll_concat (order : Order Value) (elements added : List Value) (value : Value) :
    placeAll order elements (added ++ [value]) =
      place (order value) value (placeAll order elements added) := by
  rw [placeAll, List.foldl_append]
  rfl

/-- Elements that ascend behind a list are put at its end. -/
theorem placeAll_ascending
    {order : Order Value}
    [Std.TransCmp order]
    {elements added : List Value}
    (ascending : Ascending order (elements ++ added)) :
    placeAll order elements added = elements ++ added := by
  induction added generalizing elements with
  | nil =>
      exact (List.append_nil elements).symm
  | cons value added inductionHypothesis =>
      have below : AllBelow (order value) elements := by
        intro earlier member
        have pairs := (List.pairwise_append.mp ascending).2.2
        exact Std.OrientedCmp.gt_of_lt (pairs earlier member value List.mem_cons_self)
      have placed : place (order value) value elements = elements ++ [value] := by
        have atEnd : place (order value) value (elements ++ []) = elements ++ [value] :=
          place_absent below (by simp [AllAbove]) value
        rwa [List.append_nil] at atEnd
      have regrouped : elements ++ value :: added = (elements ++ [value]) ++ added := by
        simp
      rw [regrouped] at ascending ⊢
      rw [← inductionHypothesis ascending, ← placed]
      rfl

end Order

/-- What is kept of a list is what differs from a value, whichever of the two is compared. -/
theorem Order.filter_eq_discard
    {order : Order Value}
    [Std.OrientedCmp order]
    (value : Value)
    (values : List Value) :
    (values.filter fun stored => order stored value != .eq) = discard (order value) values := by
  refine List.filter_congr ?_
  intro stored _
  have swapped : order stored value = .eq ↔ order value stored = .eq := Std.OrientedCmp.eq_comm
  rw [Bool.eq_iff_iff, bne_iff_ne, bne_iff_ne, Ne, Ne, swapped]

/-- The tree of a list has the values that are put into it one after the other. -/
theorem Group.treeOf_sound
    (order : Order Value)
    [Std.TransCmp order]
    (values : List Value) :
    (treeOf order values).Sound ∧
      (treeOf order values).order = order ∧
        (treeOf order values).keys = Order.placeAll order [] values := by
  have general
      (tree : OrderedTree Value Unit)
      (sound : tree.Sound)
      (order_eq : tree.order = order) :
      let result := values.foldl (fun tree value => (tree.insert value ()).2) tree
      result.Sound ∧
        result.order = order ∧ result.keys = Order.placeAll order tree.keys values := by
    induction values generalizing tree with
    | nil =>
        exact ⟨sound, order_eq, rfl⟩
    | cons value values inductionHypothesis =>
        obtain ⟨inserted, _, _⟩ := sound.insert value ()
        have order_insert : (tree.insert value ()).2.order = order := by
          rw [OrderedTree.order_insert, order_eq]
        obtain ⟨final, finalOrder, finalKeys⟩ :=
          inductionHypothesis (tree.insert value ()).2 inserted order_insert
        refine ⟨final, finalOrder, finalKeys.trans ?_⟩
        rw [(sound.insert_keys value ()).1, order_eq]
        rfl
  exact general (.empty order) (OrderedTree.sound_empty order) rfl

namespace Backend

/-- Filling a store puts values into it one after the other. -/
theorem ensures_fill
    {store : OrderedStore Value}
    [Std.TransCmp store.order]
    (sound : store.Sound)
    (values : List Value) :
    Ensures regime (fill store values) fun
      | (.ok (), result) =>
          result.Sound ∧
            result.order = store.order ∧
              result.values = Order.placeAll store.order store.values values
      | (.error _, _) => regime.mayFail := by
  induction values generalizing store with
  | nil =>
      exact Ensures.pure ⟨sound, rfl, rfl⟩
  | cons value values inductionHypothesis =>
      refine Ensures.bind (ensures_insert sound value) ?_
      rintro ⟨cause | added, grown⟩ changed
      · exact Ensures.pure changed.1
      · obtain ⟨_, rfl⟩ := changed
        exact inductionHypothesis (sound.place value)

/-- Reading ahead gives all values after the gap. -/
theorem ensures_readAhead (behind ahead : List Value) :
    Ensures regime (readAhead behind ahead) (regime.Tells ahead) := by
  induction ahead generalizing behind with
  | nil =>
      refine Ensures.bind (ensures_meet .next) ?_
      rintro (cause | ⟨⟩) met
      · exact Ensures.pure met
      · exact Ensures.pure rfl
  | cons value ahead inductionHypothesis =>
      refine Ensures.bind (ensures_meet .next) ?_
      rintro (cause | ⟨⟩) met
      · exact Ensures.pure met
      · refine Ensures.bind (inductionHypothesis (value :: behind)) ?_
        rintro (cause | values) told
        · exact Ensures.pure told
        · cases told
          exact Ensures.pure rfl

end Backend

namespace Group

/-- A group whose values ascend in the given order. -/
def Sound (order : Order Value) : Group Value → Prop
  | .inline tree => tree.order = order ∧ tree.Sound
  | .redirected store => store.order = order ∧ store.Sound

/-- The outcome that is expected, or a failure that leaves the group where calls may fail. -/
def Becomes
    (regime : Regime)
    (order : Order Value)
    (before : Group Value)
    (expected : Bool)
    (values : List Value) :
    Except IndexError Bool × Group Value → Prop
  | (.ok answer, after) => answer = expected ∧ after.Sound order ∧ after.toList = values
  | (.error _, after) => regime.mayFail ∧ after = before

variable {order : Order Value} {group : Group Value}

theorem sound_empty (order : Order Value) [Std.TransCmp order] :
    (Group.empty order).Sound order :=
  ⟨rfl, OrderedTree.sound_empty order⟩

theorem Sound.ascending (sound : group.Sound order) :
    Order.Ascending order group.toList := by
  cases group with
  | inline tree =>
      obtain ⟨rfl, treeSound⟩ := sound
      exact treeSound.ascending
  | redirected store =>
      obtain ⟨rfl, storeSound⟩ := sound
      exact storeSound.ascending

theorem ensures_size (sound : group.Sound order) :
    Ensures regime group.size (regime.Tells group.toList.length) := by
  cases group with
  | inline tree =>
      exact Ensures.pure sound.2.size_keys
  | redirected store =>
      refine Ensures.bind (Backend.ensures_size sound.2) ?_
      rintro (cause | size) told
      · exact Ensures.pure told
      · exact Ensures.pure told

theorem ensures_contains
    [Std.TransCmp order]
    (sound : group.Sound order)
    (value : Value) :
    Ensures regime (group.contains value)
      (regime.Tells (Order.lookup? (order value) group.toList).isSome) := by
  cases group with
  | inline tree =>
      obtain ⟨rfl, treeSound⟩ := sound
      exact Ensures.pure (treeSound.contains_keys value)
  | redirected store =>
      obtain ⟨rfl, storeSound⟩ := sound
      refine Ensures.bind (Backend.ensures_contains storeSound value) ?_
      rintro (cause | answer) told
      · exact Ensures.pure told
      · exact Ensures.pure told

/-! ## Changing -/

/-- A promotion moves all values and the new one into a store. -/
theorem ensures_promote
    {policy : DuplicatePolicy Value}
    [Std.TransCmp policy.order]
    {tree : OrderedTree Value Unit}
    (order_eq : tree.order = policy.order)
    (sound : tree.Sound)
    (value : Value) :
    Ensures regime (promote policy tree value)
      (Becomes regime policy.order (.inline tree) true
        (Order.place (policy.order value) value tree.keys)) := by
  refine Ensures.bind (Backend.ensures_create policy.order) ?_
  rintro (cause | created) made
  · exact Ensures.pure ⟨made, rfl⟩
  · obtain ⟨id, rfl⟩ := made
    have emptySound : (OrderedStore.empty id policy.order).Sound := ⟨rfl, List.Pairwise.nil⟩
    have lawful : Std.TransCmp (OrderedStore.empty id policy.order).order :=
      inferInstanceAs (Std.TransCmp policy.order)
    refine Ensures.bind (Backend.ensures_fill emptySound (tree.keys ++ [value])) ?_
    rintro ⟨cause | ⟨⟩, store⟩ filled
    · refine Ensures.bind (Backend.ensures_close store) ?_
      rintro ⟨closeCause | ⟨⟩, _⟩ _
      · refine Ensures.bind (Backend.ensures_record _) ?_
        intro _ _
        exact Ensures.pure ⟨filled, rfl⟩
      · exact Ensures.pure ⟨filled, rfl⟩
    · obtain ⟨storeSound, storeOrder, storeValues⟩ := filled
      refine Ensures.bind Ensures.get ?_
      intro backend _
      refine Ensures.bind (Backend.ensures_record _) ?_
      intro _ _
      refine Ensures.pure ⟨rfl, ⟨storeOrder, storeSound⟩, storeValues.trans ?_⟩
      have ascending : Order.Ascending policy.order ([] ++ tree.keys) := by
        rw [← order_eq]
        exact sound.ascending
      exact (Order.placeAll_concat _ _ _ _).trans
        (congrArg _ (Order.placeAll_ascending ascending))

/-- Adding a value places it, and answers whether it was absent. -/
theorem ensures_insert
    {policy : DuplicatePolicy Value}
    [Std.TransCmp policy.order]
    (sound : group.Sound policy.order)
    (value : Value) :
    Ensures regime (group.insert policy value)
      (Becomes regime policy.order group
        (Order.lookup? (policy.order value) group.toList).isNone
        (Order.place (policy.order value) value group.toList)) := by
  cases group with
  | inline tree =>
      obtain ⟨order_eq, treeSound⟩ := sound
      unfold insert
      dsimp only
      split
      next =>
        obtain ⟨inserted, _, _⟩ := treeSound.insert value ()
        obtain ⟨keys, answer⟩ := treeSound.insert_keys value ()
        rw [order_eq] at keys answer
        exact Ensures.pure
          ⟨answer, ⟨(OrderedTree.order_insert tree value ()).trans order_eq, inserted⟩, keys⟩
      next full =>
        have absent : tree.contains value = false := by
          simp only [Bool.or_eq_true, not_or, Bool.not_eq_true] at full
          exact full.2
        rw [treeSound.contains_keys, order_eq] at absent
        have isNew : (Order.lookup? (policy.order value) tree.keys).isNone = true := by
          rw [← Option.not_isSome, absent]
          rfl
        refine (ensures_promote order_eq treeSound value).weaken ?_
        rintro ⟨cause | answer, result⟩ became
        · exact became
        · exact ⟨became.1.trans isNew.symm, became.2⟩
  | redirected store =>
      obtain ⟨order_eq, storeSound⟩ := sound
      have lawful : Std.TransCmp store.order := by
        rw [order_eq]
        infer_instance
      refine Ensures.bind (Backend.ensures_insert storeSound value) ?_
      rw [← order_eq]
      rintro ⟨cause | answer, result⟩ changed
      · obtain ⟨mayFail, rfl⟩ := changed
        exact Ensures.pure ⟨mayFail, rfl⟩
      · obtain ⟨rfl, rfl⟩ := changed
        exact Ensures.pure ⟨rfl, ⟨rfl, storeSound.place value⟩, rfl⟩

/-- A demotion moves all values but the removed one into a tree. -/
theorem ensures_demote
    {policy : DuplicatePolicy Value}
    [Std.TransCmp policy.order]
    {store : OrderedStore Value}
    (order_eq : store.order = policy.order)
    (sound : store.Sound)
    (value : Value) :
    Ensures regime (demote policy store value)
      (Becomes regime policy.order (.redirected store) true
        (Order.discard (policy.order value) store.values)) := by
  refine Ensures.bind (Backend.ensures_browse sound.browse_first) ?_
  rintro (cause | browser) opened
  · exact Ensures.pure ⟨opened, rfl⟩
  · cases opened
    refine Ensures.bind (Backend.ensures_readAhead [] store.values) ?_
    rintro (cause | values) told
    · exact Ensures.pure ⟨told, rfl⟩
    · cases told
      obtain ⟨treeSound, treeOrder, treeKeys⟩ :=
        treeOf_sound policy.order (Order.discard (policy.order value) store.values)
      have ascending : Order.Ascending policy.order
          ([] ++ Order.discard (policy.order value) store.values) := by
        rw [← order_eq]
        exact sound.ascending.discard _
      have became :
          (inline (treeOf policy.order (Order.discard (policy.order value) store.values))).toList =
            Order.discard (policy.order value) store.values :=
        treeKeys.trans (Order.placeAll_ascending ascending)
      dsimp only
      rw [Order.filter_eq_discard value store.values]
      refine Ensures.bind (Backend.ensures_close store) ?_
      rintro ⟨closeCause | ⟨⟩, _⟩ _
      · refine Ensures.bind (Backend.ensures_record _) ?_
        intro _ _
        refine Ensures.bind (Backend.ensures_record _) ?_
        intro _ _
        exact Ensures.pure ⟨rfl, ⟨treeOrder, treeSound⟩, became⟩
      · refine Ensures.bind (Backend.ensures_record _) ?_
        intro _ _
        exact Ensures.pure ⟨rfl, ⟨treeOrder, treeSound⟩, became⟩

/-- Removing a value discards it, and answers whether it was present. -/
theorem ensures_remove
    {policy : DuplicatePolicy Value}
    [Std.TransCmp policy.order]
    (sound : group.Sound policy.order)
    (value : Value) :
    Ensures regime (group.remove policy value)
      (Becomes regime policy.order group
        (Order.lookup? (policy.order value) group.toList).isSome
        (Order.discard (policy.order value) group.toList)) := by
  cases group with
  | inline tree =>
      obtain ⟨order_eq, treeSound⟩ := sound
      obtain ⟨removed, _, _⟩ := treeSound.remove value
      obtain ⟨keys, answer⟩ := treeSound.remove_keys value
      rw [order_eq] at keys answer
      exact Ensures.pure
        ⟨answer, ⟨(OrderedTree.order_remove tree value).trans order_eq, removed⟩, keys⟩
  | redirected store =>
      obtain ⟨order_eq, storeSound⟩ := sound
      have lawful : Std.TransCmp store.order := by
        rw [order_eq]
        infer_instance
      -- Removing in place serves both a group that stays large and an absent value.
      have inPlace :
          Ensures regime
            (do
              let removed ← Backend.remove store value
              return (liftStore removed.1, .redirected removed.2))
            (Becomes regime policy.order (.redirected store)
              (Order.lookup? (policy.order value) store.values).isSome
              (Order.discard (policy.order value) store.values)) := by
        refine Ensures.bind (Backend.ensures_remove storeSound value) ?_
        rw [← order_eq]
        rintro ⟨cause | answer, result⟩ changed
        · obtain ⟨mayFail, rfl⟩ := changed
          exact Ensures.pure ⟨mayFail, rfl⟩
        · obtain ⟨rfl, rfl⟩ := changed
          exact Ensures.pure ⟨rfl, ⟨rfl, storeSound.discard value⟩, rfl⟩
      refine Ensures.bind (Backend.ensures_size storeSound) ?_
      rintro (cause | size) told
      · exact Ensures.pure ⟨told, rfl⟩
      · dsimp only
        split
        · exact inPlace
        · refine Ensures.bind (Backend.ensures_contains storeSound value) ?_
          rw [order_eq]
          rintro (cause | present) told
          · exact Ensures.pure ⟨told, rfl⟩
          · cases present with
            | false =>
                exact inPlace
            | true =>
                refine (ensures_demote order_eq storeSound value).weaken ?_
                rintro ⟨cause | answer, result⟩ became
                · exact became
                · exact ⟨became.1.trans told, became.2⟩

/-! ## Asking -/

theorem ensures_hasAtLeast
    [Std.TransCmp order]
    (sound : group.Sound order)
    (value : Value) :
    Ensures regime (group.hasAtLeast value)
      (regime.Tells (group.toList.any fun stored => order value stored != .gt)) := by
  cases group with
  | inline tree =>
      obtain ⟨rfl, treeSound⟩ := sound
      refine Ensures.pure ((treeSound.findAtLeast?_isSome value).trans ?_)
      rw [toList, OrderedTree.keys_eq_toList, List.any_map]
      rfl
  | redirected store =>
      obtain ⟨rfl, storeSound⟩ := sound
      refine Ensures.bind (Backend.ensures_browse (storeSound.browse_before value)) ?_
      rintro (cause | browser) opened
      · exact Ensures.pure opened
      · cases opened
        refine Ensures.bind (Backend.ensures_next _) ?_
        rintro ⟨cause | found, moved⟩ stepped
        · exact Ensures.pure stepped.1
        · obtain ⟨rfl, _⟩ := stepped
          refine Ensures.pure (Eq.trans ?_ (Order.any_notLower _ store.values).symm)
          cases Order.notLower (store.order value) store.values <;> rfl

theorem ensures_hasAtMost
    [Std.TransCmp order]
    (sound : group.Sound order)
    (value : Value) :
    Ensures regime (group.hasAtMost value)
      (regime.Tells (group.toList.any fun stored => order value stored != .lt)) := by
  cases group with
  | inline tree =>
      obtain ⟨rfl, treeSound⟩ := sound
      refine Ensures.pure ((treeSound.findAtMost?_isSome value).trans ?_)
      rw [toList, OrderedTree.keys_eq_toList, List.any_map]
      rfl
  | redirected store =>
      obtain ⟨rfl, storeSound⟩ := sound
      refine Ensures.bind (Backend.ensures_browse (storeSound.browse_after value)) ?_
      rintro (cause | browser) opened
      · exact Ensures.pure opened
      · cases opened
        refine Ensures.bind (Backend.ensures_previous _) ?_
        rintro ⟨cause | found, moved⟩ stepped
        · exact Ensures.pure stepped.1
        · obtain ⟨rfl, _⟩ := stepped
          have separates := storeSound.ascending.separates value
          refine Ensures.pure (Eq.trans ?_ (Order.any_notUpper separates).symm)
          rw [← List.isEmpty_reverse]
          cases (Order.notUpper (store.order value) store.values).reverse <;> rfl

/-! ## Closing -/

theorem ensures_close (group : Group Value) :
    Ensures regime group.close (regime.Tells ()) := by
  cases group with
  | inline tree =>
      exact Ensures.pure rfl
  | redirected store =>
      refine Ensures.bind (Backend.ensures_close store) ?_
      rintro ⟨cause | ⟨⟩, _⟩ closed
      · exact Ensures.pure closed.1
      · exact Ensures.pure rfl

end Group

end OrderedIndex

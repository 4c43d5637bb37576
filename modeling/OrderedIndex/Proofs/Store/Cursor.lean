import OrderedIndex.Proofs.Cursor.Simulation
import OrderedIndex.Proofs.Store.Calls
import OrderedIndex.Table.ValueCursor

namespace OrderedIndex.StoreCursor

/-!
# Store cursors as positions among the values

A browser is always in a gap.  A cursor that is on a value has its browser in
the gap on either side of it: in front after a step backward, behind after a
step forward.  A call that fails on the way leaves the browser in one of the
two, so the cursor stays where it was.
-/

variable
  {regime : Regime}
  {Value : Type}
  {order : Order Value}
  {values below above : List Value}
  {cursor : StoreCursor Value}
  {position : Position}

/-- A cursor over a sound store with the given values. -/
structure Covers (order : Order Value) (values : List Value) (cursor : StoreCursor Value) :
    Prop where
  sound : cursor.store.Sound
  store_order : cursor.store.order = order
  order_eq : cursor.order = order
  values_eq : cursor.store.values = values

/-- The position of a cursor among the values of its store. -/
inductive Stands (order : Order Value) (values : List Value) :
    StoreCursor Value → Position → Prop where
  | gap
      {cursor : StoreCursor Value}
      {below above : List Value}
      (covers : Covers order values cursor)
      (values_eq : values = below ++ above)
      (browser_eq : cursor.browser = ⟨below.reverse, above⟩)
      (current_eq : cursor.current = none) :
      Stands order values cursor (.gap below.length)
  | on
      {cursor : StoreCursor Value}
      {below above : List Value}
      {value : Value}
      (covers : Covers order values cursor)
      (values_eq : values = below ++ value :: above)
      (browser_eq :
        cursor.browser = ⟨below.reverse, value :: above⟩ ∨
          cursor.browser = ⟨value :: below.reverse, above⟩)
      (current_eq : cursor.current = some value) :
      Stands order values cursor (.on below.length)

namespace Covers

/-- The values that a cursor covers ascend. -/
theorem ascending (covers : Covers order values cursor) : Order.Ascending order values := by
  rw [← covers.store_order, ← covers.values_eq]
  exact covers.sound.ascending

/-- A cursor that moves covers the same values. -/
theorem move
    (covers : Covers order values cursor)
    (browser : Browser Value)
    (current : Option Value) :
    Covers order values { cursor with browser := browser, current := current } :=
  ⟨covers.sound, covers.store_order, covers.order_eq, covers.values_eq⟩

/-- A cursor on a value is on no value on either side of it. -/
theorem isOn_eq_false
    [Std.TransCmp order]
    {value : Value}
    (covers : Covers order values cursor)
    (values_eq : values = below ++ value :: above)
    (current_eq : cursor.current = some value) :
    (∀ other ∈ below, cursor.isOn other = false) ∧
      ∀ other ∈ above, cursor.isOn other = false := by
  have ascending := covers.ascending
  rw [values_eq] at ascending
  have separates := ascending.separates value
  have self : order value value = .eq := Std.ReflCmp.compare_self
  have notOn (other : Value) (differs : order value other ≠ .eq) :
      cursor.isOn other = false := by
    simp [isOn, current_eq, covers.order_eq, differs]
  constructor
  · intro other member
    have compared := separates.allBelow (by simp [self]) other member
    exact notOn other (by simp [compared])
  · intro other member
    have compared := separates.allAbove (by simp [self]) other member
    exact notOn other (by simp [compared])

/-- A cursor is on the value that it shows. -/
theorem isOn_current
    [Std.ReflCmp order]
    {value : Value}
    (covers : Covers order values cursor)
    (current_eq : cursor.current = some value) :
    cursor.isOn value = true := by
  have self : order value value = .eq := Std.ReflCmp.compare_self
  simp [isOn, current_eq, covers.order_eq, self]

/-- A cursor that shows nothing is on no value. -/
theorem isOn_none
    (current_eq : cursor.current = none)
    (value : Value) :
    cursor.isOn value = false := by
  simp [isOn, current_eq]

/-- In front of all values a cursor stands in the first gap. -/
theorem atFront
    (covers : Covers order values cursor)
    (browser_eq : cursor.browser = ⟨[], values⟩)
    (current_eq : cursor.current = none) :
    Stands order values cursor (.gap 0) :=
  @Stands.gap _ _ _ _ [] values covers rfl browser_eq current_eq

/-! ## Crossing -/

/-- Crossing forward over values that the cursor is not on is one step. -/
theorem ensures_stepForward
    (covers : Covers order values cursor)
    (values_eq : values = below ++ above)
    (stays : Stands order values { cursor with browser := ⟨below.reverse, above⟩ } position)
    (ahead : position.ahead = below.length)
    (others : ∀ value ∈ above, cursor.isOn value = false) :
    Ensures regime (cursor.stepForward below.reverse above)
      (regime.Leads (Stands order values) position (position.next values.length)) := by
  cases above with
  | nil =>
      rw [List.append_nil] at values_eq
      rw [Position.next, ahead, if_neg (by simp [values_eq])]
      refine Ensures.bind (Backend.ensures_meet .next) ?_
      rintro (cause | ⟨⟩) met
      · exact Ensures.pure ⟨met, stays⟩
      · subst values_eq
        exact Ensures.pure ⟨rfl, .gap (covers.move _ _) (List.append_nil values).symm rfl rfl⟩
  | cons value above =>
      rw [Position.next, ahead, if_pos (by simp [values_eq])]
      refine Ensures.bind (Backend.ensures_meet .next) ?_
      rintro (cause | ⟨⟩) met
      · exact Ensures.pure ⟨met, stays⟩
      · dsimp only
        rw [if_neg (by simp [others value List.mem_cons_self])]
        exact Ensures.pure ⟨rfl, .on (covers.move _ _) values_eq (Or.inr rfl) rfl⟩

/-- Crossing backward over values that the cursor is not on is one step. -/
theorem ensures_stepBackward
    (covers : Covers order values cursor)
    (values_eq : values = below ++ above)
    (stays : Stands order values { cursor with browser := ⟨below.reverse, above⟩ } position)
    (behind : position.behind = below.length)
    (others : ∀ value ∈ below, cursor.isOn value = false) :
    Ensures regime (cursor.stepBackward above below.reverse)
      (regime.Leads (Stands order values) position position.previous) := by
  rw [Position.previous, behind]
  rcases List.eq_nil_or_concat below with rfl | ⟨lower, value, rfl⟩
  · refine Ensures.bind (Backend.ensures_meet .previous) ?_
    rintro (cause | ⟨⟩) met
    · exact Ensures.pure ⟨met, stays⟩
    · subst values_eq
      exact Ensures.pure ⟨rfl, (covers.move _ _).atFront rfl rfl⟩
  · rw [List.concat_eq_append] at values_eq stays others ⊢
    rw [List.append_assoc, List.singleton_append] at values_eq
    rw [List.reverse_append] at stays ⊢
    rw [List.length_append]
    refine Ensures.bind (Backend.ensures_meet .previous) ?_
    rintro (cause | ⟨⟩) met
    · exact Ensures.pure ⟨met, stays⟩
    · have other := others value (by simp)
      dsimp only
      rw [if_neg (by simp [other])]
      exact Ensures.pure ⟨rfl, .on (covers.move _ _) values_eq (Or.inl rfl) rfl⟩

end Covers

namespace Stands

/-- A cursor that stands among values covers them. -/
theorem covers (stands : Stands order values cursor position) : Covers order values cursor := by
  cases stands with
  | gap covers =>
      exact covers
  | on covers =>
      exact covers

theorem within (stands : Stands order values cursor position) :
    position.Within values.length := by
  cases stands with
  | gap _ values_eq =>
      simp [Position.Within, values_eq]
  | on _ values_eq =>
      simp [Position.Within, values_eq]

theorem available_eq (stands : Stands order values cursor position) :
    cursor.current.isSome = position.isOn := by
  cases stands with
  | gap _ _ _ current_eq =>
      rw [current_eq]
      rfl
  | on _ _ _ current_eq =>
      rw [current_eq]
      rfl

/-- A cursor shows the value at its position. -/
theorem get_eq (stands : Stands order values cursor position) :
    (ValueCursor.redirected cursor).get = position.get values := by
  cases stands with
  | gap _ _ _ current_eq =>
      rw [ValueCursor.get, current_eq]
      rfl
  | on _ values_eq _ current_eq =>
      rw [ValueCursor.get, current_eq, values_eq, Position.get_on]

/-! ## Moving -/

/-- A step forward leads to the next position, if no call fails. -/
theorem ensures_next
    [Std.TransCmp order]
    (stands : Stands order values cursor position) :
    Ensures regime cursor.next
      (regime.Leads (Stands order values) position (position.next values.length)) := by
  have stays := stands
  cases stands with
  | gap covers values_eq browser_eq current_eq =>
      rw [next, browser_eq]
      refine covers.ensures_stepForward values_eq ?_ rfl ?_
      · rw [← browser_eq]
        exact stays
      · intro value _
        exact Covers.isOn_none current_eq value
  | @on below above value covers values_eq browser_eq current_eq =>
      have regrouped : values = (below ++ [value]) ++ above := by
        rw [values_eq, List.append_assoc, List.singleton_append]
      have reversed : (below ++ [value]).reverse = value :: below.reverse := by
        rw [List.reverse_append]
        rfl
      have reached : (Position.on below.length).ahead = (below ++ [value]).length := by
        rw [List.length_append]
        rfl
      obtain ⟨_, others⟩ := covers.isOn_eq_false values_eq current_eq
      -- Behind the current value, the next one is crossed.
      have crossed :
          Ensures regime (cursor.stepForward (value :: below.reverse) above)
            (regime.Leads (Stands order values) (.on below.length)
              ((Position.on below.length).next values.length)) := by
        rw [← reversed]
        refine covers.ensures_stepForward regrouped ?_ reached others
        rw [reversed]
        exact .on (covers.move _ _) values_eq (Or.inr rfl) current_eq
      rcases browser_eq with browser_eq | browser_eq
      · rw [next, browser_eq]
        refine Ensures.bind (Backend.ensures_meet .next) ?_
        rintro (cause | ⟨⟩) met
        · refine Ensures.pure ⟨met, ?_⟩
          rw [← browser_eq]
          exact stays
        · dsimp only
          rw [if_pos (covers.isOn_current current_eq)]
          exact crossed
      · rw [next, browser_eq]
        exact crossed

/-- A step backward leads to the previous position, if no call fails. -/
theorem ensures_previous
    [Std.TransCmp order]
    (stands : Stands order values cursor position) :
    Ensures regime cursor.previous
      (regime.Leads (Stands order values) position position.previous) := by
  have stays := stands
  cases stands with
  | gap covers values_eq browser_eq current_eq =>
      rw [previous, browser_eq]
      refine covers.ensures_stepBackward values_eq ?_ rfl ?_
      · rw [← browser_eq]
        exact stays
      · intro value _
        exact Covers.isOn_none current_eq value
  | @on below above value covers values_eq browser_eq current_eq =>
      obtain ⟨others, _⟩ := covers.isOn_eq_false values_eq current_eq
      -- In front of the current value, the previous one is crossed.
      have crossed :
          Ensures regime (cursor.stepBackward (value :: above) below.reverse)
            (regime.Leads (Stands order values) (.on below.length)
              (Position.on below.length).previous) := by
        refine covers.ensures_stepBackward values_eq ?_ rfl others
        exact .on (covers.move _ _) values_eq (Or.inl rfl) current_eq
      rcases browser_eq with browser_eq | browser_eq
      · rw [previous, browser_eq]
        exact crossed
      · rw [previous, browser_eq]
        refine Ensures.bind (Backend.ensures_meet .previous) ?_
        rintro (cause | ⟨⟩) met
        · refine Ensures.pure ⟨met, ?_⟩
          rw [← browser_eq]
          exact stays
        · dsimp only
          rw [if_pos (covers.isOn_current current_eq)]
          exact crossed

/-- Opening a new browser leads to its gap. -/
theorem ensures_reposition
    (stands : Stands order values cursor position)
    {start : BrowseStart Value}
    (values_eq : values = below ++ above)
    (opens : cursor.store.browse start = .ok ⟨below.reverse, above⟩) :
    Ensures regime (cursor.reposition start)
      (regime.Leads (Stands order values) position ((), .gap below.length)) := by
  refine Ensures.bind (Backend.ensures_browse opens) ?_
  rintro (cause | browser) opened
  · exact Ensures.pure ⟨opened, stands⟩
  · cases opened
    exact Ensures.pure ⟨rfl, .gap (stands.covers.move _ _) values_eq rfl rfl⟩

end Stands

/-- A new cursor is in front of the first value. -/
theorem ensures_new
    {store : OrderedStore Value}
    (sound : store.Sound) :
    Ensures regime (new store store.order) fun
      | .ok cursor => Stands store.order store.values cursor (.gap 0)
      | .error _ => regime.mayFail := by
  refine Ensures.bind (Backend.ensures_browse sound.browse_first) ?_
  rintro (cause | browser) opened
  · exact Ensures.pure opened
  · cases opened
    exact Ensures.pure (Covers.atFront ⟨sound, rfl, rfl, rfl⟩ rfl rfl)

end OrderedIndex.StoreCursor

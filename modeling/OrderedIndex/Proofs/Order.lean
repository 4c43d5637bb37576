import OrderedIndex.Order

namespace OrderedIndex.Order

/-!
# Ascending lists

A search compares one sought element with the elements of an ascending list.
Whatever the element is, the answers change from `gt` to `lt` along the list,
with at most one `eq` between them.  Everything that a search of a tree or of a
store relies on follows from this.
-/

variable {Element : Type}

/-! ## Lawful orders -/

instance byRank_transCmp
    {Rank : Type}
    [Ord Rank]
    [Std.TransOrd Rank]
    (rank : Element → Rank) :
    Std.TransCmp (byRank rank) :=
  inferInstanceAs (Std.TransCmp (compareOn rank))

instance reversed_transCmp (order : Order Element) [Std.TransCmp order] :
    Std.TransCmp order.reversed :=
  (Std.TransCmp.opposite : Std.TransCmp fun first second => order second first)

/-- Compare items as their images are compared. -/
def on {Item : Type} (order : Order Element) (image : Item → Element) : Order Item :=
  fun first second => order (image first) (image second)

instance on_transCmp
    {Item : Type}
    (order : Order Element)
    [Std.TransCmp order]
    (image : Item → Element) :
    Std.TransCmp (order.on image) where
  eq_swap {first second} := @Std.OrientedCmp.eq_swap _ order _ (image first) (image second)
  isLE_trans {first second third} :=
    @Std.TransCmp.isLE_trans _ order _ (image first) (image second) (image third)

/-- All elements count as equal. -/
def indifferent : Order Element := fun _ _ => .eq

instance indifferent_transCmp : Std.TransCmp (indifferent : Order Element) where
  eq_swap := rfl
  isLE_trans _ _ := rfl

/-! ## The two ways to compare -/

theorem isLE_eq_bne_gt (ordering : Ordering) : ordering.isLE = (ordering != .gt) :=
  Ordering.isLE_eq_not_beq_gt

section Turned

variable (order : Order Element) [Std.OrientedCmp order] (stored sought : Element)

theorem turned : order stored sought = (order sought stored).swap := Std.OrientedCmp.eq_swap

theorem turned_lt : (order stored sought == .lt) = (order sought stored == .gt) := by
  rw [turned order stored sought]
  cases order sought stored <;> rfl

theorem turned_isLE : (order stored sought).isLE = (order sought stored != .lt) := by
  rw [turned order stored sought]
  cases order sought stored <;> rfl

theorem turned_eq : (order stored sought == .eq) = (order sought stored == .eq) := by
  rw [turned order stored sought]
  cases order sought stored <;> rfl

theorem turned_isGE : (order stored sought).isGE = (order sought stored != .gt) := by
  rw [turned order stored sought]
  cases order sought stored <;> rfl

theorem turned_gt : (order stored sought == .gt) = (order sought stored == .lt) := by
  rw [turned order stored sought]
  cases order sought stored <;> rfl

end Turned

/-! ## Ascending lists -/

/-- Every element is strictly below all elements after it. -/
def Ascending (order : Order Element) (elements : List Element) : Prop :=
  elements.Pairwise fun earlier later => order earlier later = .lt

/--
Of two elements in a list, the sought one is above the earlier or below the
later.
-/
def Separates (probe : Element → Ordering) (elements : List Element) : Prop :=
  elements.Pairwise fun earlier later => probe earlier = .gt ∨ probe later = .lt

/-- The sought element is above all elements of a list. -/
def AllBelow (probe : Element → Ordering) (elements : List Element) : Prop :=
  ∀ element ∈ elements, probe element = .gt

/-- The sought element is below all elements of a list. -/
def AllAbove (probe : Element → Ordering) (elements : List Element) : Prop :=
  ∀ element ∈ elements, probe element = .lt

/-- Comparing with any element separates an ascending list. -/
theorem Ascending.separates
    {order : Order Element}
    [Std.TransCmp order]
    {elements : List Element}
    (ascending : Ascending order elements)
    (sought : Element) :
    Separates (order sought) elements := by
  refine ascending.imp ?_
  intro earlier later before
  cases compared : order sought earlier with
  | gt =>
      exact Or.inl rfl
  | eq =>
      exact Or.inr (Std.TransCmp.lt_of_eq_of_lt compared before)
  | lt =>
      exact Or.inr (Std.TransCmp.lt_trans compared before)

/-- An order separates whatever is listed in the order of its images. -/
theorem Ascending.separates_map
    {Item : Type}
    {order : Order Element}
    [Std.TransCmp order]
    {items : List Item}
    {key : Item → Element}
    (ascending : Ascending order (items.map key))
    (sought : Element) :
    Separates (fun item => order sought (key item)) items :=
  List.pairwise_map.mp (ascending.separates sought)

namespace Separates

variable {probe : Element → Ordering}

/-- All elements in front of one that is not above the sought one are below it. -/
theorem allBelow
    {below above : List Element}
    {element : Element}
    (separates : Separates probe (below ++ element :: above))
    (notAbove : probe element ≠ .lt) :
    AllBelow probe below := by
  intro earlier member
  have pairs := (List.pairwise_append.mp separates).2.2
  exact (pairs earlier member element (by simp)).resolve_right notAbove

/-- All elements behind one that is not below the sought one are above it. -/
theorem allAbove
    {below above : List Element}
    {element : Element}
    (separates : Separates probe (below ++ element :: above))
    (notBelow : probe element ≠ .gt) :
    AllAbove probe above := by
  intro later member
  have ordered := (List.pairwise_append.mp separates).2.1
  exact ((List.pairwise_cons.mp ordered).1 later member).resolve_left notBelow

/-- A sought element that is above the last one of a front is above the whole front. -/
theorem allBelow_of_last
    {below above : List Element}
    (separates : Separates probe (below ++ above))
    (isBelow : ∀ element ∈ below.getLast?, probe element = .gt) :
    AllBelow probe below := by
  rcases List.eq_nil_or_concat below with rfl | ⟨front, last, rfl⟩
  · exact List.forall_mem_nil _
  · rw [List.concat_eq_append] at separates isBelow ⊢
    have lastBelow : probe last = .gt := isBelow last (by simp)
    rw [List.append_assoc, List.singleton_append] at separates
    have frontBelow := separates.allBelow (by simp [lastBelow])
    exact List.forall_mem_append.mpr ⟨frontBelow, by simpa using lastBelow⟩

/-- A sought element that is below the first one of a rest is below the whole rest. -/
theorem allAbove_of_first
    {below above : List Element}
    (separates : Separates probe (below ++ above))
    (isAbove : ∀ element ∈ above.head?, probe element = .lt) :
    AllAbove probe above := by
  cases above with
  | nil =>
      exact List.forall_mem_nil _
  | cons first rest =>
      have firstAbove : probe first = .lt := isAbove first rfl
      exact List.forall_mem_cons.mpr ⟨firstAbove, separates.allAbove (by simp [firstAbove])⟩

end Separates

/-- An ascending list stays ascending when an element is put where it falls. -/
theorem Ascending.insert
    {order : Order Element}
    [Std.TransCmp order]
    {below above : List Element}
    {element : Element}
    (ascending : Ascending order (below ++ above))
    (allBelow : AllBelow (order element) below)
    (allAbove : AllAbove (order element) above) :
    Ascending order (below ++ element :: above) := by
  obtain ⟨belowAscending, aboveAscending, across⟩ := List.pairwise_append.mp ascending
  refine List.pairwise_append.mpr ⟨belowAscending, ?_, ?_⟩
  · exact List.pairwise_cons.mpr ⟨allAbove, aboveAscending⟩
  · intro earlier earlierMember later laterMember
    rcases List.mem_cons.mp laterMember with isElement | inAbove
    · subst later
      exact Std.OrientedCmp.lt_of_gt (allBelow earlier earlierMember)
    · exact across earlier earlierMember later inAbove

/-- An ascending list stays ascending when an element is taken out. -/
theorem Ascending.erase
    {order : Order Element}
    {below above : List Element}
    {element : Element}
    (ascending : Ascending order (below ++ element :: above)) :
    Ascending order (below ++ above) := by
  have sublist : (below ++ above).Sublist (below ++ element :: above) :=
    (List.Sublist.refl below).append (List.sublist_cons_self element above)
  exact ascending.sublist sublist

end OrderedIndex.Order

import OrderedIndex.Proofs.SortedList

namespace OrderedIndex.Order

/-!
# Reversed orders

A list that ascends in one order ascends in the opposite one when it is read
from its end.  A probe then compares the other way around, and each reference
operation gives what it gave before, read from the end: the elements below and
those above trade places, and so do the two borders.
-/

variable {Element : Type} {probe : Element → Ordering} {elements below above : List Element}

/-- The probe that compares the other way around. -/
def swapped (probe : Element → Ordering) (element : Element) : Ordering := (probe element).swap

/-- The opposite order probes the other way around. -/
theorem reversed_eq_swapped
    (order : Order Element)
    [Std.OrientedCmp order]
    (sought : Element) :
    order.reversed sought = swapped (order sought) :=
  funext fun stored => turned order stored sought

/-- What the swapped probe finds below, the probe finds above. -/
theorem swapped_beq_gt (element : Element) :
    (swapped probe element == .gt) = (probe element == .lt) := by
  rw [swapped]
  cases probe element <;> rfl

theorem swapped_beq_eq (element : Element) :
    (swapped probe element == .eq) = (probe element == .eq) := by
  rw [swapped]
  cases probe element <;> rfl

theorem swapped_bne_gt (element : Element) :
    (swapped probe element != .gt) = (probe element != .lt) :=
  congrArg (!·) (swapped_beq_gt element)

theorem swapped_bne_lt (element : Element) :
    (swapped probe element != .lt) = (probe element != .gt) := by
  rw [swapped]
  cases probe element <;> rfl

/-- The swapped probe finds the same elements equal. -/
theorem swapped_eq_eq_iff (element : Element) :
    swapped probe element = .eq ↔ probe element = .eq :=
  Ordering.swap_eq_eq

/-! ## Lists read from their ends -/

/-- What is below in the one order is above in the other. -/
theorem AllBelow.reverse (allBelow : AllBelow probe below) :
    AllAbove (swapped probe) below.reverse := by
  intro element member
  rw [swapped, allBelow element (List.mem_reverse.mp member)]
  rfl

/-- What is above in the one order is below in the other. -/
theorem AllAbove.reverse (allAbove : AllAbove probe above) :
    AllBelow (swapped probe) above.reverse := by
  intro element member
  rw [swapped, allAbove element (List.mem_reverse.mp member)]
  rfl

/-- What is in front of and behind an element read from the end. -/
theorem reverse_around (below above : List Element) (element : Element) :
    (below ++ element :: above).reverse = above.reverse ++ element :: below.reverse := by
  rw [List.reverse_append, List.reverse_cons, List.append_assoc, List.singleton_append]

/-! ## The operations read from the end -/

/-- At most one element is found, so it does not matter where a search begins. -/
theorem Split.lookup?_reverse (split : Split probe elements) :
    lookup? (swapped probe) elements.reverse = lookup? probe elements := by
  rcases split with
    ⟨below, above, element, rfl, equal, allBelow, allAbove⟩ |
      ⟨below, above, rfl, allBelow, allAbove⟩
  · rw [reverse_around, lookup?_present allBelow equal,
      lookup?_present allAbove.reverse ((swapped_eq_eq_iff element).mpr equal)]
  · rw [List.reverse_append, lookup?_absent allBelow allAbove,
      lookup?_absent allAbove.reverse allBelow.reverse]

/-- Placing commutes with reading a list from its end. -/
theorem Split.place_reverse
    (split : Split probe elements)
    (added : Element) :
    place (swapped probe) added elements.reverse = (place probe added elements).reverse := by
  rcases split with
    ⟨below, above, element, rfl, equal, allBelow, allAbove⟩ |
      ⟨below, above, rfl, allBelow, allAbove⟩
  · rw [place_present allBelow equal, reverse_around,
      place_present allAbove.reverse ((swapped_eq_eq_iff element).mpr equal)]
  · rw [place_absent allBelow allAbove, List.reverse_append, reverse_around,
      place_absent allAbove.reverse allBelow.reverse]

/-- Taking out commutes with reading a list from its end. -/
theorem discard_reverse (elements : List Element) :
    discard (swapped probe) elements.reverse = (discard probe elements).reverse := by
  have same (element : Element) : (swapped probe element != .eq) = (probe element != .eq) :=
    congrArg (!·) (swapped_beq_eq element)
  rw [discard, discard, List.filter_reverse]
  simp only [same]

/-- A change commutes with reading a list from its end. -/
theorem adjust_reverse (change : Element → Element) (elements : List Element) :
    adjust (swapped probe) change elements.reverse = (adjust probe change elements).reverse := by
  rw [adjust, adjust, List.map_reverse]
  simp only [swapped_eq_eq_iff]

/-! ## Borders read from the end -/

section Fronts

variable {condition : Element → Bool}

/-- Taking while a condition fails from the end drops while it holds from the front. -/
theorem takeWhile_reverse
    (isFront :
      elements.Pairwise fun earlier later => condition later = true → condition earlier = true) :
    (elements.reverse.takeWhile fun element => !condition element) =
      (elements.dropWhile condition).reverse := by
  rw [dropWhile_eq_filter isFront, ← List.filter_reverse]
  refine takeWhile_eq_filter (List.pairwise_reverse.mpr (isFront.imp ?_))
  intro earlier later closed earlierFails
  cases holds : condition later with
  | false =>
      rfl
  | true =>
      rw [closed holds] at earlierFails
      contradiction

/-- Dropping while a condition fails from the end takes while it holds from the front. -/
theorem dropWhile_reverse
    (isFront :
      elements.Pairwise fun earlier later => condition later = true → condition earlier = true) :
    (elements.reverse.dropWhile fun element => !condition element) =
      (elements.takeWhile condition).reverse := by
  have parted :
      ((elements.dropWhile condition).reverse ++
          elements.reverse.dropWhile fun element => !condition element) =
        elements.reverse := by
    rw [← takeWhile_reverse isFront, List.takeWhile_append_dropWhile]
  have turned :
      (elements.dropWhile condition).reverse ++ (elements.takeWhile condition).reverse =
        elements.reverse := by
    rw [← List.reverse_append, List.takeWhile_append_dropWhile]
  exact List.append_cancel_left (parted.trans turned.symm)

end Fronts

/--
What the sought element is above comes first, and what it is below comes last;
any number of elements in between may be equal to it.
-/
structure Parts (probe : Element → Ordering) (elements : List Element) : Prop where
  lowerFirst :
    elements.Pairwise fun earlier later =>
      (probe later == .gt) = true → (probe earlier == .gt) = true
  notUpperFirst :
    elements.Pairwise fun earlier later =>
      (probe later != .lt) = true → (probe earlier != .lt) = true

/-- A separated list is in three parts. -/
theorem Separates.parts (separates : Separates probe elements) : Parts probe elements :=
  ⟨separates.isFront_lower, separates.isFront_notUpper⟩

namespace Parts

/-- Comparing with any element parts a list whose images do not descend. -/
theorem of_isLE
    {Item : Type}
    {order : Order Element}
    [Std.TransCmp order]
    {items : List Item}
    {key : Item → Element}
    (rises : items.Pairwise fun earlier later => (order (key earlier) (key later)).isLE)
    (sought : Element) :
    Parts (fun item => order sought (key item)) items := by
  refine ⟨rises.imp ?_, rises.imp ?_⟩
  · intro earlier later notAbove laterBelow
    have below := Std.OrientedCmp.lt_of_gt (beq_iff_eq.mp laterBelow)
    exact beq_iff_eq.mpr
      (Std.OrientedCmp.gt_of_lt (Std.TransCmp.lt_of_isLE_of_lt notAbove below))
  · intro earlier later notAbove laterNotAbove
    refine bne_iff_ne.mpr fun earlierAbove => bne_iff_ne.mp laterNotAbove ?_
    exact Std.TransCmp.lt_of_lt_of_isLE earlierAbove notAbove

/-- The lower part of the one order is the upper part of the other. -/
theorem lower_reverse (parts : Parts probe elements) :
    lower (swapped probe) elements.reverse = (upper probe elements).reverse := by
  have negated (element : Element) :
      (swapped probe element == .gt) = !(probe element != .lt) :=
    (swapped_beq_gt element).trans (Bool.not_not _).symm
  simp only [lower, negated]
  exact takeWhile_reverse parts.notUpperFirst

/-- What is not above in the one order is not below in the other. -/
theorem notUpper_reverse (parts : Parts probe elements) :
    notUpper (swapped probe) elements.reverse = (notLower probe elements).reverse := by
  simp only [notUpper, swapped_bne_lt]
  exact takeWhile_reverse parts.lowerFirst

/-- The upper part of the one order is the lower part of the other. -/
theorem upper_reverse (parts : Parts probe elements) :
    upper (swapped probe) elements.reverse = (lower probe elements).reverse := by
  simp only [upper, swapped_bne_lt]
  exact dropWhile_reverse parts.lowerFirst

end Parts

end OrderedIndex.Order

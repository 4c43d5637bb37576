import OrderedIndex.Proofs.SortedList
import OrderedIndex.Store.ArrayStore

namespace OrderedIndex

/-!
# Halving

A search by halving keeps the elements in front of its part of the array below
the sought one and those behind it above.  It ends at an equal element, or where
one would be, and then both sides are known.
-/

open OrderedIndex.Order

variable {Element : Type} {elements : Array Element} {probe : Element → Ordering}

namespace Halved

/-- An array is what is in front of one of its elements, the element and what is behind. -/
theorem toList_split {place : Nat} (inside : place < elements.size) :
    elements.toList =
      elements.toList.take place ++ elements[place] :: elements.toList.drop (place + 1) := by
  have rest : elements[place] :: elements.toList.drop (place + 1) = elements.toList.drop place :=
    (List.drop_eq_getElem_cons (by simpa using inside)).symm
  rw [rest, List.take_append_drop]

/-- A search ends at an element equal to the sought one or where one would be. -/
inductive Ends (probe : Element → Ordering) (elements : Array Element) :
    Halved elements.size → Prop where
  | found
      {place : Nat}
      {inside : place < elements.size}
      (equal : probe elements[place] = .eq)
      (allBelow : AllBelow probe (elements.toList.take place))
      (allAbove : AllAbove probe (elements.toList.drop (place + 1))) :
      Ends probe elements (.found place inside)
  | missing
      {place : Nat}
      {within : place ≤ elements.size}
      (allBelow : AllBelow probe (elements.toList.take place))
      (allAbove : AllAbove probe (elements.toList.drop place)) :
      Ends probe elements (.missing place within)

/-- An element below the sought one has only such elements in front of it. -/
theorem allBelow_take_succ
    (separates : Separates probe elements.toList)
    {place : Nat}
    (inside : place < elements.size)
    (isBelow : probe elements[place] = .gt) :
    AllBelow probe (elements.toList.take (place + 1)) := by
  have front : elements.toList.take (place + 1) = elements.toList.take place ++ [elements[place]] :=
    List.take_succ_eq_append_getElem (by simpa using inside)
  rw [toList_split inside] at separates
  have notAbove : probe elements[place] ≠ .lt := by
    simp [isBelow]
  rw [front]
  refine List.forall_mem_append.mpr ⟨separates.allBelow notAbove, ?_⟩
  exact List.forall_mem_singleton.mpr isBelow

/-- An element above the sought one has only such elements behind it. -/
theorem allAbove_drop
    (separates : Separates probe elements.toList)
    {place : Nat}
    (inside : place < elements.size)
    (isAbove : probe elements[place] = .lt) :
    AllAbove probe (elements.toList.drop place) := by
  have rest : elements.toList.drop place = elements[place] :: elements.toList.drop (place + 1) :=
    List.drop_eq_getElem_cons (by simpa using inside)
  rw [toList_split inside] at separates
  have notBelow : probe elements[place] ≠ .gt := by
    simp [isAbove]
  rw [rest]
  exact List.forall_mem_cons.mpr ⟨isAbove, separates.allAbove notBelow⟩

/-- The part outside the two places stays on its sides of the sought element. -/
theorem between_ends
    {compare : Element → Ordering}
    (separates : Separates probe elements.toList)
    (compare_eq : ∀ element, compare element = (probe element).swap)
    {low high : Nat}
    (ordered : low ≤ high)
    (within : high ≤ elements.size)
    (allBelow : AllBelow probe (elements.toList.take low))
    (allAbove : AllAbove probe (elements.toList.drop high)) :
    Ends probe elements (between elements compare low high ordered within) := by
  -- The middle element and all on its far side leave the window together.
  fun_induction between elements compare low high ordered within with
  | case1 low high ordered within more middle isLess inductionHypothesis =>
      rw [compare_eq, Ordering.swap_eq_lt] at isLess
      exact inductionHypothesis (allBelow_take_succ separates _ isLess) allAbove
  | case2 low high ordered within more middle isGreater inductionHypothesis =>
      rw [compare_eq, Ordering.swap_eq_gt] at isGreater
      exact inductionHypothesis allBelow (allAbove_drop separates _ isGreater)
  | case3 low high ordered within more middle isEqual =>
      rw [compare_eq, Ordering.swap_eq_eq] at isEqual
      have inside : middle < elements.size := by omega
      have sides := separates
      rw [toList_split inside] at sides
      exact .found isEqual (sides.allBelow (by simp [isEqual])) (sides.allAbove (by simp [isEqual]))
  | case4 low high ordered within noMore =>
      have met : low = high := Nat.le_antisymm ordered (Nat.le_of_not_lt noMore)
      subst met
      exact .missing allBelow allAbove

/-- Whatever is sought in order, a search ends where it belongs. -/
theorem search_ends
    {compare : Element → Ordering}
    (separates : Separates probe elements.toList)
    (compare_eq : ∀ element, compare element = (probe element).swap) :
    Ends probe elements (search elements compare) := by
  refine between_ends separates compare_eq _ _ ?_ ?_
  · exact List.forall_mem_nil _
  · rw [← Array.length_toList, List.drop_length]
    exact List.forall_mem_nil _

/--
A search ends behind as many elements as are below the sought one, so no other
way to search can end elsewhere.
-/
theorem Ends.place_eq_countP
    {halved : Halved elements.size}
    (ends : Ends probe elements halved) :
    halved.place = elements.toList.countP fun element => probe element == .gt := by
  have front
      {place : Nat}
      (within : place ≤ elements.size)
      (allBelow : AllBelow probe (elements.toList.take place)) :
      (elements.toList.take place).countP (fun element => probe element == .gt) = place := by
    have allCounted : ∀ element ∈ elements.toList.take place, (probe element == .gt) = true :=
      fun element member => beq_iff_eq.mpr (allBelow element member)
    rw [List.countP_eq_length.mpr allCounted, List.length_take, Array.length_toList]
    exact Nat.min_eq_left within
  have rest
      {above : List Element}
      (notBelow : ∀ element ∈ above, probe element ≠ .gt) :
      above.countP (fun element => probe element == .gt) = 0 :=
    List.countP_eq_zero.mpr fun element member counted =>
      notBelow element member (beq_iff_eq.mp counted)
  cases ends with
  | @found place inside equal allBelow allAbove =>
      have notBelow :
          ∀ element ∈ elements[place] :: elements.toList.drop (place + 1),
            probe element ≠ .gt := by
        refine List.forall_mem_cons.mpr ⟨by simp [equal], ?_⟩
        intro element member
        simp [allAbove element member]
      rw [toList_split inside, List.countP_append, front (Nat.le_of_lt inside) allBelow,
        rest notBelow]
      rfl
  | @missing place within allBelow allAbove =>
      have notBelow : ∀ element ∈ elements.toList.drop place, probe element ≠ .gt := by
        intro element member
        simp [allAbove element member]
      rw [← List.take_append_drop place elements.toList, List.countP_append,
        front within allBelow, rest notBelow]
      rfl

/-! ## Borders -/

/-- The elements that meet a condition are below its border, all others above it. -/
def side (condition : Element → Bool) (element : Element) : Ordering :=
  if condition element then .gt else .lt

section Borders

variable {condition : Element → Bool} {element : Element}

theorem side_beq_gt : (side condition element == .gt) = condition element := by
  by_cases holds : condition element = true <;> simp [side, holds]

theorem swap_side :
    (if condition element then .lt else .gt : Ordering) = (side condition element).swap := by
  by_cases holds : condition element = true <;> simp [side, holds]

/-- A condition that later elements meet only with earlier ones separates the elements. -/
theorem separates_side
    {elements : List Element}
    (isFront :
      elements.Pairwise fun earlier later => condition later = true → condition earlier = true) :
    Separates (side condition) elements := by
  refine isFront.imp ?_
  intro earlier later implies
  by_cases holds : condition later = true
  · exact Or.inl (if_pos (implies holds))
  · exact Or.inr (if_neg holds)

/-- As many elements are in front of a border as meet its condition. -/
theorem border_eq_countP
    (isFront :
      elements.toList.Pairwise fun earlier later =>
        condition later = true → condition earlier = true) :
    border elements condition = elements.toList.countP condition := by
  have ends := search_ends (separates_side isFront) fun _ => swap_side
  rw [border, ends.place_eq_countP]
  simp only [side_beq_gt]

end Borders

end Halved

end OrderedIndex

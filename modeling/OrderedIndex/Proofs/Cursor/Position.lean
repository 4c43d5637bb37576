import Mathlib.Data.List.Nodup
import OrderedIndex.Cursor
import OrderedIndex.Proofs.SortedList

namespace OrderedIndex

/-!
# Positions in a list

The reference for cursors.  A position is on an element of a list or in a gap,
and is known by the number of elements in front of it.
-/

/-- Where a cursor over a list is. -/
inductive Position where
  /-- On the element with that many others in front of it. -/
  | on (place : Nat)
  /-- In the gap with that many elements in front of it. -/
  | gap (place : Nat)
  deriving Repr, DecidableEq

namespace Position

variable {Element : Type}

/-! ## Observing -/

/-- Whether the position is on an element. -/
def isOn : Position → Bool
  | .on _ => true
  | .gap _ => false

/-- The element that the position is on. -/
def get (elements : List Element) : Position → Except IndexError Element
  | .on place =>
      match elements[place]? with
      | some element => .ok element
      | none => .error .invalidPosition
  | .gap _ => .error .invalidPosition

/-- Whether a list of the given length has the position. -/
def Within (length : Nat) : Position → Prop
  | .on place => place < length
  | .gap place => place ≤ length

/-! ## Moving -/

/-- The same position behind some more elements. -/
def shift (count : Nat) : Position → Position
  | .on place => .on (count + place)
  | .gap place => .gap (count + place)

/-- Number of elements in front of the position. -/
def behind : Position → Nat
  | .on place => place
  | .gap place => place

/-- Number of elements in front of the next one. -/
def ahead : Position → Nat
  | .on place => place + 1
  | .gap place => place

/-- To the next element, or else into the gap at the end. -/
def next (length : Nat) (position : Position) : Bool × Position :=
  if position.ahead < length then (true, .on position.ahead) else (false, .gap length)

/-- To the previous element, or else into the gap in front. -/
def previous (position : Position) : Bool × Position :=
  match position.behind with
  | 0 => (false, .gap 0)
  | place + 1 => (true, .on place)

/-- Where a step forward leads depends on the elements in front of the next one. -/
theorem next_congr
    {position other : Position}
    (ahead_eq : position.ahead = other.ahead)
    {length : Nat} :
    position.next length = other.next length := by
  rw [next, next, ahead_eq]

/-- Where a step backward leads depends only on how many elements are behind. -/
theorem previous_congr
    {position other : Position}
    (behind_eq : position.behind = other.behind) :
    position.previous = other.previous := by
  rw [previous, previous, behind_eq]

/-- The gap in front of the first element that is not below the sought one. -/
def before (probe : Element → Ordering) (elements : List Element) : Position :=
  .gap (Order.lower probe elements).length

/-- The gap behind the last element that is not above the sought one. -/
def after (probe : Element → Ordering) (elements : List Element) : Position :=
  .gap (Order.notUpper probe elements).length

/-- The report of a step. -/
def found (stepped : Bool × Position) : Report × Position := (.found stepped.1, stepped.2)

/-- Make a move over an ordered list. -/
def perform (order : Order Element) (elements : List Element) (position : Position) :
    Move Element → Report × Position
  | .next => found (position.next elements.length)
  | .previous => found position.previous
  | .first => found ((gap 0).next elements.length)
  | .last => found (gap elements.length).previous
  | .beforeFirst => (.placed, .gap 0)
  | .afterLast => (.placed, .gap elements.length)
  | .before element => (.placed, before (order element) elements)
  | .after element => (.placed, after (order element) elements)

/-- Make moves of some kind one after the other and see each. -/
def run {Kind : Type}
    (elements : List Element)
    (perform : Position → Kind → Report × Position)
    (position : Position) :
    List Kind → List (Cursor.Observation Element) × Position
  | [] => ([], position)
  | kind :: rest =>
      let (report, moved) := perform position kind
      let (observations, final) := run elements perform moved rest
      (⟨.ok report, moved.isOn, moved.get elements⟩ :: observations, final)

/-- A run shows the first move and goes on where it led. -/
theorem run_cons
    {Kind : Type}
    (elements : List Element)
    (perform : Position → Kind → Report × Position)
    (position : Position)
    (kind : Kind)
    (rest : List Kind) :
    (run elements perform position (kind :: rest)).1 =
      ⟨.ok (perform position kind).1, (perform position kind).2.isOn,
          (perform position kind).2.get elements⟩ ::
        (run elements perform (perform position kind).2 rest).1 :=
  rfl

/-! ## Staying within the list -/

section Within

variable {length : Nat} {position : Position}

/-- A step forward leads to a place of the list. -/
theorem within_next : (position.next length).2.Within length := by
  unfold next
  split
  next inside =>
    exact inside
  next =>
    exact Nat.le_refl length

/-- A step backward leads to a place of the list. -/
theorem within_previous (within : position.Within length) :
    position.previous.2.Within length := by
  cases position with
  | on place =>
      cases place with
      | zero =>
          exact Nat.zero_le length
      | succ place =>
          exact Nat.lt_of_succ_lt within
  | gap place =>
      cases place with
      | zero =>
          exact Nat.zero_le length
      | succ place =>
          exact within

/-- The gap before an element is a place of the list. -/
theorem within_before (probe : Element → Ordering) (elements : List Element) :
    (before probe elements).Within elements.length :=
  (List.takeWhile_prefix _).length_le

/-- The gap after an element is a place of the list. -/
theorem within_after (probe : Element → Ordering) (elements : List Element) :
    (after probe elements).Within elements.length :=
  (List.takeWhile_prefix _).length_le

/-- A position in a list has no element exactly if it is a gap. -/
theorem get_eq_error_iff
    {elements : List Element}
    (within : position.Within elements.length) :
    position.get elements = .error .invalidPosition ↔ position.isOn = false := by
  cases position with
  | on place =>
      have inside : place < elements.length := within
      simp [get, isOn, List.getElem?_eq_getElem inside]
  | gap place =>
      simp [get, isOn]

/-- Every move leads to a place of the list. -/
theorem within_perform
    (order : Order Element)
    {elements : List Element}
    (within : position.Within elements.length)
    (move : Move Element) :
    (position.perform order elements move).2.Within elements.length := by
  cases move with
  | next =>
      exact within_next
  | previous =>
      exact within_previous within
  | first =>
      exact within_next
  | last =>
      exact within_previous (Nat.le_refl elements.length)
  | beforeFirst =>
      exact Nat.zero_le elements.length
  | afterLast =>
      exact Nat.le_refl elements.length
  | before element =>
      exact within_before (order element) elements
  | after element =>
      exact within_after (order element) elements

/-- Along a run, the gaps are exactly where no element is shown. -/
theorem run_element_eq_error_iff
    {Kind : Type}
    {elements : List Element}
    {reference : Position → Kind → Report × Position}
    (stays :
      ∀ {position} (kind : Kind),
        position.Within elements.length →
        (reference position kind).2.Within elements.length)
    (within : position.Within elements.length)
    (kinds : List Kind) :
    ∀ seen ∈ (run elements reference position kinds).1,
      seen.element = .error .invalidPosition ↔ seen.available = false := by
  induction kinds generalizing position with
  | nil =>
      intro seen member
      contradiction
  | cons kind rest inductionHypothesis =>
      have moved := stays kind within
      rw [run_cons]
      refine List.forall_mem_cons.mpr ⟨?_, inductionHypothesis moved⟩
      exact get_eq_error_iff moved

end Within

/-! ## Within a longer list -/

section Shift

variable {length count total : Nat} {position : Position}

/-- A shifted position is on an element if the position is. -/
@[simp] theorem isOn_shift : (position.shift count).isOn = position.isOn := by
  cases position <;> rfl

/-- A position within a part is within the whole once it is shifted. -/
theorem within_shift
    (within : position.Within length)
    (fits : count + length ≤ total) :
    (position.shift count).Within total := by
  cases position with
  | on place =>
      exact Nat.lt_of_lt_of_le (Nat.add_lt_add_left within count) fits
  | gap place =>
      exact Nat.le_trans (Nat.add_le_add_left within count) fits

/-- A shifted position shows in the whole what the position shows in the part. -/
theorem get_shift
    {middle : List Element}
    (within : position.Within middle.length)
    (front back : List Element) :
    (position.shift front.length).get (front ++ (middle ++ back)) = position.get middle := by
  cases position with
  | on place =>
      have inside : place < middle.length := within
      rw [shift, get, get, List.getElem?_append_right (Nat.le_add_right _ _),
        Nat.add_sub_cancel_left, List.getElem?_append_left inside]
  | gap place =>
      rfl

/-- A shift adds as many elements in front. -/
@[simp] theorem ahead_shift : (position.shift count).ahead = count + position.ahead := by
  cases position <;> rfl

/-- A shift adds as many elements behind the position. -/
@[simp] theorem behind_shift : (position.shift count).behind = count + position.behind := by
  cases position <;> rfl

/-- A step forward reports whether it ends on an element. -/
theorem isOn_next : (position.next length).2.isOn = (position.next length).1 := by
  unfold next
  split <;> rfl

/-- A step backward reports whether it ends on an element. -/
theorem isOn_previous : position.previous.2.isOn = position.previous.1 := by
  unfold previous
  split <;> rfl

/-- A step that finds no element ends in the gap at that end. -/
theorem next_eq_of_false (leaves : (position.next length).1 = false) :
    position.next length = (false, .gap length) := by
  unfold next at leaves ⊢
  split at leaves
  next =>
    contradiction
  next outside =>
    rw [if_neg outside]

/-- A step backward that finds nothing ends in the gap at the front. -/
theorem previous_eq_of_false (leaves : position.previous.1 = false) :
    position.previous = (false, .gap 0) := by
  unfold previous at leaves ⊢
  split at leaves
  next =>
    rfl
  next =>
    contradiction

/-- A step within the shorter list is the step in the longer one. -/
theorem next_shift
    (stays : (position.next length).1 = true)
    (fits : count + length ≤ total) :
    (position.shift count).next total = (true, (position.next length).2.shift count) := by
  unfold next at stays ⊢
  split at stays
  next inside =>
    have stillInside : count + position.ahead < total :=
      Nat.lt_of_lt_of_le (Nat.add_lt_add_left inside count) fits
    rw [ahead_shift, if_pos stillInside, if_pos inside]
    rfl
  next =>
    contradiction

/-- A step out of the shorter list starts behind all of its elements. -/
theorem ahead_of_next_false
    (within : position.Within length)
    (leaves : (position.next length).1 = false) :
    position.ahead = length := by
  have reaches : position.ahead ≤ length := by
    cases position with
    | on place =>
        exact within
    | gap place =>
        exact within
  unfold next at leaves
  split at leaves
  next =>
    contradiction
  next outside =>
    exact Nat.le_antisymm reaches (Nat.le_of_not_lt outside)

/-- A step backward that finds an element commutes with a shift. -/
theorem previous_shift (stays : position.previous.1 = true) :
    (position.shift count).previous = (true, position.previous.2.shift count) := by
  rw [previous, behind_shift]
  unfold previous at stays ⊢
  cases behind : position.behind with
  | zero =>
      rw [behind] at stays
      contradiction
  | succ place =>
      rfl

/-- A step backward finds nothing only at the front. -/
theorem behind_of_previous_false (leaves : position.previous.1 = false) :
    position.behind = 0 := by
  unfold previous at leaves
  cases behind : position.behind with
  | zero =>
      rfl
  | succ place =>
      rw [behind] at leaves
      contradiction

end Shift

/-! ## Telling positions apart -/

section Apart

variable {elements : List Element} {position other : Position}

/-- No position has more elements in front than there are. -/
theorem ahead_le
    {length : Nat}
    (within : position.Within length) :
    position.ahead ≤ length := by
  cases position with
  | on place =>
      exact within
  | gap place =>
      exact within

/-- No position has more elements behind than there are. -/
theorem behind_le
    {length : Nat}
    (within : position.Within length) :
    position.behind ≤ length := by
  cases position with
  | on place =>
      exact Nat.le_of_lt within
  | gap place =>
      exact within

/-- What a step forward finds tells how many elements are in front of it. -/
theorem ahead_eq_of_next
    (distinct : elements.Nodup)
    (within : position.Within elements.length)
    (otherWithin : other.Within elements.length)
    (found_eq : (position.next elements.length).1 = (other.next elements.length).1)
    (get_eq :
      (position.next elements.length).2.get elements =
        (other.next elements.length).2.get elements) :
    position.ahead = other.ahead := by
  by_cases inside : position.ahead < elements.length
  · by_cases otherInside : other.ahead < elements.length
    · rw [next, next, if_pos inside, if_pos otherInside, get, get,
        List.getElem?_eq_getElem inside, List.getElem?_eq_getElem otherInside] at get_eq
      exact (List.Nodup.getElem_inj_iff distinct).mp (Except.ok.inj get_eq)
    · rw [next, next, if_pos inside, if_neg otherInside] at found_eq
      contradiction
  · by_cases otherInside : other.ahead < elements.length
    · rw [next, next, if_neg inside, if_pos otherInside] at found_eq
      contradiction
    · have atEnd := Nat.le_antisymm (ahead_le within) (Nat.le_of_not_lt inside)
      have otherAtEnd := Nat.le_antisymm (ahead_le otherWithin) (Nat.le_of_not_lt otherInside)
      exact atEnd.trans otherAtEnd.symm

/-- Steps backward that show the same among distinct elements started behind as many. -/
theorem behind_eq_of_previous
    (distinct : elements.Nodup)
    (within : position.Within elements.length)
    (otherWithin : other.Within elements.length)
    (found_eq : position.previous.1 = other.previous.1)
    (get_eq : position.previous.2.get elements = other.previous.2.get elements) :
    position.behind = other.behind := by
  have reaches := behind_le within
  have otherReaches := behind_le otherWithin
  unfold previous at found_eq get_eq
  cases behind : position.behind with
  | zero =>
      cases otherBehind : other.behind with
      | zero =>
          rfl
      | succ otherPlace =>
          rw [behind, otherBehind] at found_eq
          contradiction
  | succ place =>
      cases otherBehind : other.behind with
      | zero =>
          rw [behind, otherBehind] at found_eq
          contradiction
      | succ otherPlace =>
          rw [behind] at reaches
          rw [otherBehind] at otherReaches
          rw [behind, otherBehind, get, get, List.getElem?_eq_getElem reaches,
            List.getElem?_eq_getElem otherReaches] at get_eq
          have place_eq := (List.Nodup.getElem_inj_iff distinct).mp (Except.ok.inj get_eq)
          rw [place_eq]

/-- A position is known by the elements in front of it and those in front of the next one. -/
theorem eq_of_sides
    (behind_eq : position.behind = other.behind)
    (ahead_eq : position.ahead = other.ahead) :
    position = other := by
  cases position with
  | on place =>
      cases other with
      | on otherPlace =>
          rw [show place = otherPlace from behind_eq]
      | gap otherPlace =>
          exact absurd (ahead_eq.trans behind_eq.symm) (Nat.succ_ne_self place)
  | gap place =>
      cases other with
      | on otherPlace =>
          exact absurd (ahead_eq.symm.trans behind_eq) (Nat.succ_ne_self otherPlace)
      | gap otherPlace =>
          rw [show place = otherPlace from behind_eq]

end Apart

/-! ## Beside an element -/

/-- Whether a position is on the element with that many others in front of it, or beside it. -/
def Touches (position : Position) (place : Nat) : Prop :=
  position = .on place ∨ position = .gap place ∨ position = .gap (place + 1)

/-- The gap in front of a position beside an element is beside it too. -/
theorem Touches.ahead
    {position : Position}
    {place : Nat}
    (touches : position.Touches place) :
    (gap position.ahead).Touches place := by
  rcases touches with rfl | rfl | rfl
  · exact Or.inr (Or.inr rfl)
  · exact Or.inr (Or.inl rfl)
  · exact Or.inr (Or.inr rfl)

/-- The gap behind a position beside an element is beside it too. -/
theorem Touches.behind
    {position : Position}
    {place : Nat}
    (touches : position.Touches place) :
    (gap position.behind).Touches place := by
  rcases touches with rfl | rfl | rfl
  · exact Or.inr (Or.inl rfl)
  · exact Or.inr (Or.inl rfl)
  · exact Or.inr (Or.inr rfl)

/-- A step forward goes past the touched element, or onto it from the gap in front. -/
theorem Touches.next_eq
    {position : Position}
    {place length : Nat}
    (touches : position.Touches place)
    (found : (position.next length).1 = true) :
    (position.next length).2 = .on (if position = .gap place then place else place + 1) := by
  unfold next at found ⊢
  split at found
  next inside =>
    rw [if_pos inside]
    rcases touches with rfl | rfl | rfl <;> simp [Position.ahead]
  next =>
    contradiction

/-- A step backward goes before the touched element, or onto it from the gap behind. -/
theorem Touches.previous_eq
    {position : Position}
    {place : Nat}
    (touches : position.Touches place)
    (found : position.previous.1 = true) :
    position.previous.2 =
      .on (if position = .gap (place + 1) then place else place - 1) := by
  unfold previous at found ⊢
  split at found
  next =>
    contradiction
  next front behind =>
    rcases touches with rfl | rfl | rfl <;> simp_all [Position.behind]

/-! ## Scans -/

/-- A position on an element shows it. -/
theorem get_on (front : List Element) (element : Element) (back : List Element) :
    (on front.length).get (front ++ element :: back) = .ok element := by
  simp [get]

section Scans

variable
  {Kind : Type}
  {kind : Kind}
  {elements : List Element}
  {reference : Position → Kind → Report × Position}

/-- Stepping forward shows the elements ahead in order and then none. -/
theorem run_forward
    (steps : ∀ position, reference position kind = found (position.next elements.length))
    {front back : List Element}
    (elements_eq : elements = front ++ back)
    {position : Position}
    (ahead : position.ahead = front.length) :
    (run elements reference position (List.replicate (back.length + 1) kind)).1.map
        (·.element) =
      back.map .ok ++ [.error .invalidPosition] := by
  induction back generalizing front position with
  | nil =>
      have atEnd : position.next elements.length = (false, .gap elements.length) := by
        simp [next, ahead, elements_eq]
      simp [run, steps, found, atEnd, get]
  | cons element back inductionHypothesis =>
      have moved : position.next elements.length = (true, .on front.length) := by
        simp [next, ahead, elements_eq]
      have shown : (on front.length).get elements = .ok element := by
        rw [elements_eq, get_on]
      have regrouped : elements = (front ++ [element]) ++ back := by
        rw [elements_eq, List.append_assoc, List.singleton_append]
      have reached : (on front.length).ahead = (front ++ [element]).length := by
        rw [List.length_append]
        rfl
      have rest := inductionHypothesis regrouped reached
      rw [List.length_cons, List.replicate_succ, run_cons, List.map_cons, steps, moved]
      rw [found, shown, rest]
      rfl

/-- Stepping backward shows the elements behind in the opposite order and then none. -/
theorem run_backward
    (steps : ∀ position, reference position kind = found position.previous)
    {front back : List Element}
    (elements_eq : elements = front.reverse ++ back)
    {position : Position}
    (behind : position.behind = front.length) :
    (run elements reference position (List.replicate (front.length + 1) kind)).1.map
        (·.element) =
      front.map .ok ++ [.error .invalidPosition] := by
  induction front generalizing back position with
  | nil =>
      have atFront : position.previous = (false, .gap 0) := by
        simp [previous, behind]
      simp [run, steps, found, atFront, get]
  | cons element front inductionHypothesis =>
      have moved : position.previous = (true, .on front.length) := by
        simp [previous, behind]
      have regrouped : elements = front.reverse ++ element :: back := by
        rw [elements_eq, List.reverse_cons, List.append_assoc, List.singleton_append]
      have shown : (on front.length).get elements = .ok element := by
        rw [regrouped, ← List.length_reverse, get_on]
      have reached : (on front.length).behind = front.length := rfl
      have rest := inductionHypothesis regrouped reached
      rw [List.length_cons, List.replicate_succ, run_cons, List.map_cons, steps, moved]
      rw [found, shown, rest]
      rfl

end Scans

end Position

end OrderedIndex

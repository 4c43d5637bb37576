import OrderedIndex.Proofs.Cursor.Position
import OrderedIndex.Proofs.Reversal

namespace OrderedIndex.Position

/-!
# Positions read from the end

A list that is read from its end has the same positions, counted from the other
side.  A step forward becomes one backward, and with the opposite order the
placements before and after an element trade places.  So whatever moves are
made, the turned moves show the same.
-/

variable {Element : Type} {elements : List Element} {length : Nat} {position : Position}

/-- The same position, counted from the end of a list of the given length. -/
def mirrored (length : Nat) : Position → Position
  | .on place => .on (length - 1 - place)
  | .gap place => .gap (length - place)

@[simp] theorem isOn_mirrored : (position.mirrored length).isOn = position.isOn := by
  cases position <;> rfl

theorem within_mirrored (within : position.Within length) :
    (position.mirrored length).Within length := by
  cases position with
  | on place =>
      have inside : place < length := within
      change length - 1 - place < length
      omega
  | gap place =>
      exact Nat.sub_le length place

theorem get_mirrored (within : position.Within elements.length) :
    (position.mirrored elements.length).get elements.reverse = position.get elements := by
  cases position with
  | on place =>
      have inside : place < elements.length := within
      have opposite : elements.length - 1 - place < elements.length := by omega
      have back : elements.length - 1 - (elements.length - 1 - place) = place := by omega
      rw [mirrored, get, get, List.getElem?_reverse opposite, back]
  | gap place =>
      rfl

theorem mirrored_mirrored (within : position.Within length) :
    (position.mirrored length).mirrored length = position := by
  cases position with
  | on place =>
      have inside : place < length := within
      have back : length - 1 - (length - 1 - place) = place := by omega
      rw [mirrored, mirrored, back]
  | gap place =>
      have inside : place ≤ length := within
      rw [mirrored, mirrored, Nat.sub_sub_self inside]

/-- The elements ahead of a position are behind the mirrored one. -/
theorem behind_mirrored (within : position.Within length) :
    (position.mirrored length).behind = length - position.ahead := by
  cases position with
  | on place =>
      have inside : place < length := within
      change length - 1 - place = length - (place + 1)
      omega
  | gap place =>
      rfl

/-! ## Moves -/

/-- A step backward from the mirrored position is the mirrored step forward. -/
theorem previous_mirrored (within : position.Within length) :
    (position.mirrored length).previous =
      ((position.next length).1, (position.next length).2.mirrored length) := by
  have reaches := ahead_le within
  rw [previous, behind_mirrored within, next]
  by_cases inside : position.ahead < length
  · obtain ⟨rest, rest_eq⟩ := Nat.exists_eq_add_of_lt inside
    have left : length - position.ahead = rest + 1 := by omega
    have opposite : length - 1 - position.ahead = rest := by omega
    rw [if_pos inside, left, mirrored, opposite]
  · have nothing : length - position.ahead = 0 := by omega
    rw [if_neg inside, nothing, mirrored, Nat.sub_self]

/-- A step forward from the mirrored position is the mirrored step backward. -/
theorem next_mirrored (within : position.Within length) :
    (position.mirrored length).next length =
      (position.previous.1, position.previous.2.mirrored length) := by
  have turned := previous_mirrored (within_mirrored within)
  rw [mirrored_mirrored within] at turned
  rw [turned, mirrored_mirrored within_next]

section Placements

variable {probe : Element → Ordering}

theorem before_reverse (parts : Order.Parts probe elements) :
    before (Order.swapped probe) elements.reverse =
      (after probe elements).mirrored elements.length := by
  have lengths :
      (Order.notUpper probe elements).length + (Order.upper probe elements).length =
        elements.length := by
    rw [← List.length_append, Order.notUpper_append_upper]
  rw [before, after, parts.lower_reverse, List.length_reverse, mirrored, ← lengths,
    Nat.add_sub_cancel_left]

theorem after_reverse (parts : Order.Parts probe elements) :
    after (Order.swapped probe) elements.reverse =
      (before probe elements).mirrored elements.length := by
  have lengths :
      (Order.lower probe elements).length + (Order.notLower probe elements).length =
        elements.length := by
    rw [← List.length_append, Order.lower_append_notLower]
  rw [before, after, parts.notUpper_reverse, List.length_reverse, mirrored, ← lengths,
    Nat.add_sub_cancel_left]

end Placements

/-- The turned move from the mirrored position reports the same and leads to the mirrored place. -/
theorem perform_mirrored
    {order : Order Element}
    [Std.TransCmp order]
    (ascending : Order.Ascending order elements)
    (within : position.Within elements.length)
    (move : Move Element) :
    (position.mirrored elements.length).perform order.reversed elements.reverse move.reversed =
      ((position.perform order elements move).1,
        (position.perform order elements move).2.mirrored elements.length) := by
  simp only [perform.eq_def order.reversed, perform.eq_def order, List.length_reverse]
  cases move with
  | next =>
      exact congrArg found (previous_mirrored within)
  | previous =>
      exact congrArg found (next_mirrored within)
  | first =>
      have atFront : (gap 0).Within elements.length := Nat.zero_le elements.length
      exact congrArg found (previous_mirrored atFront)
  | last =>
      have atEnd : (gap elements.length).Within elements.length := Nat.le_refl elements.length
      have turned := next_mirrored atEnd
      rw [mirrored, Nat.sub_self] at turned
      exact congrArg found turned
  | beforeFirst =>
      rfl
  | afterLast =>
      exact congrArg (Report.placed, gap ·) (Nat.sub_self elements.length).symm
  | before element =>
      rw [← after_reverse (ascending.separates element).parts, ← Order.reversed_eq_swapped]
      rfl
  | after element =>
      rw [← before_reverse (ascending.separates element).parts, ← Order.reversed_eq_swapped]
      rfl

/-- If every turned move shows the same from the mirrored position, so does every run of them. -/
theorem run_mirrored
    {Kind : Type}
    {reference opposite : Position → Kind → Report × Position}
    {turn : Kind → Kind}
    (stays :
      ∀ {position} (kind : Kind),
        position.Within elements.length →
        (reference position kind).2.Within elements.length)
    (turns :
      ∀ {position} (kind : Kind),
        position.Within elements.length →
        opposite (position.mirrored elements.length) (turn kind) =
          ((reference position kind).1, (reference position kind).2.mirrored elements.length))
    (within : position.Within elements.length)
    (kinds : List Kind) :
    (run elements.reverse opposite (position.mirrored elements.length) (kinds.map turn)).1 =
      (run elements reference position kinds).1 := by
  induction kinds generalizing position with
  | nil =>
      rfl
  | cons kind rest inductionHypothesis =>
      have moved := stays kind within
      rw [List.map_cons, run_cons, run_cons, turns kind within, inductionHypothesis moved,
        isOn_mirrored, get_mirrored moved]

/-- The turned moves show from the mirrored position what the moves show. -/
theorem run_perform_mirrored
    {order : Order Element}
    [Std.TransCmp order]
    (ascending : Order.Ascending order elements)
    (within : position.Within elements.length)
    (moves : List (Move Element)) :
    (run elements.reverse (perform order.reversed elements.reverse)
          (position.mirrored elements.length) (moves.map Move.reversed)).1 =
      (run elements (perform order elements) position moves).1 :=
  run_mirrored (fun move stays => within_perform order stays move)
    (fun move stays => perform_mirrored ascending stays move) within moves

end OrderedIndex.Position

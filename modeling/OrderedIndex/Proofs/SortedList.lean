import OrderedIndex.Proofs.Order

namespace OrderedIndex.Order

/-!
# Reference operations on ascending lists

What the containers of the index are compared with: ascending lists that are
searched from the front.  An element is sought by a probe, its comparison with
the elements that are there.
-/

variable {Element : Type} {probe : Element → Ordering}

/-- The element that the probe finds equal. -/
def lookup? (probe : Element → Ordering) (elements : List Element) : Option Element :=
  elements.find? fun element => probe element == .eq

/-- Put a new element where the probe says; an equal one that is there stays instead. -/
def place (probe : Element → Ordering) (added : Element) : List Element → List Element
  | [] => [added]
  | element :: rest =>
      match probe element with
      | .lt => added :: element :: rest
      | .eq => element :: rest
      | .gt => element :: place probe added rest

/-- Take out what the probe finds equal. -/
def discard (probe : Element → Ordering) (elements : List Element) : List Element :=
  elements.filter fun element => probe element != .eq

/-- Change what the probe finds equal. -/
def adjust
    (probe : Element → Ordering)
    (change : Element → Element)
    (elements : List Element) :
    List Element :=
  elements.map fun element => if probe element = .eq then change element else element

/-- Where a probe splits a list. -/
inductive Split (probe : Element → Ordering) (elements : List Element) : Prop where
  /-- At an element that it finds equal. -/
  | present
      (below above : List Element)
      (element : Element)
      (elements_eq : elements = below ++ element :: above)
      (equal : probe element = .eq)
      (allBelow : AllBelow probe below)
      (allAbove : AllAbove probe above)
  /-- Between two neighbours or at an end. -/
  | absent
      (below above : List Element)
      (elements_eq : elements = below ++ above)
      (allBelow : AllBelow probe below)
      (allAbove : AllAbove probe above)

/-- A probe that separates a list splits it. -/
theorem Separates.split
    {elements : List Element}
    (separates : Separates probe elements) :
    Split probe elements := by
  induction elements with
  | nil =>
      exact .absent [] [] rfl (by simp [AllBelow]) (by simp [AllAbove])
  | cons first rest inductionHypothesis =>
      have atFront : Separates probe ([] ++ first :: rest) := separates
      cases compared : probe first with
      | lt =>
          refine .absent [] (first :: rest) rfl (by simp [AllBelow]) ?_
          refine List.forall_mem_cons.mpr ⟨compared, ?_⟩
          exact atFront.allAbove (by simp [compared])
      | eq =>
          exact .present [] rest first rfl compared (by simp [AllBelow])
            (atFront.allAbove (by simp [compared]))
      | gt =>
          have restSeparates := (List.pairwise_cons.mp separates).2
          rcases inductionHypothesis restSeparates with
            ⟨below, above, element, rfl, equal, allBelow, allAbove⟩ |
              ⟨below, above, rfl, allBelow, allAbove⟩
          · exact .present (first :: below) above element rfl equal
              (List.forall_mem_cons.mpr ⟨compared, allBelow⟩) allAbove
          · exact .absent (first :: below) above rfl
              (List.forall_mem_cons.mpr ⟨compared, allBelow⟩) allAbove

/-! ## The operations on a split list -/

/-- No element below what is sought is equal to it. -/
theorem AllBelow.ne_eq
    {elements : List Element}
    (allBelow : AllBelow probe elements) :
    ∀ element ∈ elements, probe element ≠ .eq := by
  intro element member
  simp [allBelow element member]

/-- No element above what is sought is equal to it. -/
theorem AllAbove.ne_eq
    {elements : List Element}
    (allAbove : AllAbove probe elements) :
    ∀ element ∈ elements, probe element ≠ .eq := by
  intro element member
  simp [allAbove element member]

/-- What is equal to no element is not found. -/
theorem lookup?_eq_none
    {elements : List Element}
    (strange : ∀ element ∈ elements, probe element ≠ .eq) :
    lookup? probe elements = none := by
  refine List.find?_eq_none.mpr ?_
  intro element member
  simp [strange element member]

/-- Nothing is taken out where no element is equal. -/
theorem discard_eq_self
    {elements : List Element}
    (strange : ∀ element ∈ elements, probe element ≠ .eq) :
    discard probe elements = elements := by
  refine List.filter_eq_self.mpr ?_
  intro element member
  simp [strange element member]

/-- Nothing changes where no element is equal. -/
theorem adjust_eq_self
    (change : Element → Element)
    {elements : List Element}
    (strange : ∀ element ∈ elements, probe element ≠ .eq) :
    adjust probe change elements = elements := by
  refine (List.map_congr_left ?_).trans (List.map_id elements)
  intro element member
  simp [strange element member]

variable {below above : List Element} {element : Element}

/-- The search for a place passes over everything below. -/
theorem place_append
    (allBelow : AllBelow probe below)
    (added : Element)
    (rest : List Element) :
    place probe added (below ++ rest) = below ++ place probe added rest := by
  induction below with
  | nil =>
      rfl
  | cons first below inductionHypothesis =>
      obtain ⟨compared, restBelow⟩ := List.forall_mem_cons.mp allBelow
      rw [List.cons_append, place, compared]
      exact congrArg (first :: ·) (inductionHypothesis restBelow)

/-- A new element goes between the two parts. -/
theorem place_absent
    (allBelow : AllBelow probe below)
    (allAbove : AllAbove probe above)
    (added : Element) :
    place probe added (below ++ above) = below ++ added :: above := by
  rw [place_append allBelow]
  cases above with
  | nil =>
      rfl
  | cons first above =>
      rw [place, allAbove first List.mem_cons_self]

/-- An element that is there already stays, and the new one is dropped. -/
theorem place_present
    (allBelow : AllBelow probe below)
    (equal : probe element = .eq)
    (added : Element) :
    place probe added (below ++ element :: above) = below ++ element :: above := by
  rw [place_append allBelow, place, equal]

/-- The only equal element is the one that is found. -/
theorem lookup?_present
    (allBelow : AllBelow probe below)
    (equal : probe element = .eq) :
    lookup? probe (below ++ element :: above) = some element := by
  have notBelow : lookup? probe below = none := lookup?_eq_none allBelow.ne_eq
  rw [lookup?] at notBelow ⊢
  rw [List.find?_append, notBelow, List.find?_cons_of_pos (by simp [equal])]
  rfl

theorem ne_eq_of_absent
    (allBelow : AllBelow probe below)
    (allAbove : AllAbove probe above) :
    ∀ element ∈ below ++ above, probe element ≠ .eq := by
  intro other member
  rcases List.mem_append.mp member with inBelow | inAbove
  · exact allBelow.ne_eq other inBelow
  · exact allAbove.ne_eq other inAbove

/-- Nothing is found between the two parts. -/
theorem lookup?_absent
    (allBelow : AllBelow probe below)
    (allAbove : AllAbove probe above) :
    lookup? probe (below ++ above) = none :=
  lookup?_eq_none (ne_eq_of_absent allBelow allAbove)

/-- There is nothing to take out between the two parts. -/
theorem discard_absent
    (allBelow : AllBelow probe below)
    (allAbove : AllAbove probe above) :
    discard probe (below ++ above) = below ++ above :=
  discard_eq_self (ne_eq_of_absent allBelow allAbove)

theorem adjust_absent
    (allBelow : AllBelow probe below)
    (allAbove : AllAbove probe above)
    (change : Element → Element) :
    adjust probe change (below ++ above) = below ++ above :=
  adjust_eq_self change (ne_eq_of_absent allBelow allAbove)

/-- The equal element alone is taken out. -/
theorem discard_present
    (allBelow : AllBelow probe below)
    (equal : probe element = .eq)
    (allAbove : AllAbove probe above) :
    discard probe (below ++ element :: above) = below ++ above := by
  have belowStays := discard_eq_self allBelow.ne_eq
  have aboveStays := discard_eq_self allAbove.ne_eq
  rw [discard] at belowStays aboveStays ⊢
  rw [List.filter_append, belowStays, List.filter_cons_of_neg (by simp [equal]), aboveStays]

/-- The equal element alone is changed. -/
theorem adjust_present
    (allBelow : AllBelow probe below)
    (equal : probe element = .eq)
    (allAbove : AllAbove probe above)
    (change : Element → Element) :
    adjust probe change (below ++ element :: above) = below ++ change element :: above := by
  have belowStays := adjust_eq_self change allBelow.ne_eq
  have aboveStays := adjust_eq_self change allAbove.ne_eq
  rw [adjust] at belowStays aboveStays ⊢
  rw [List.map_append, belowStays, List.map_cons, if_pos equal, aboveStays]

/-! ## What a change leaves -/

/-- Placing brings no other element than the new one. -/
theorem mem_place
    {added element : Element}
    {elements : List Element}
    (member : element ∈ place probe added elements) :
    element = added ∨ element ∈ elements := by
  induction elements with
  | nil =>
      exact Or.inl (List.mem_singleton.mp member)
  | cons first rest inductionHypothesis =>
      rw [place] at member
      cases compared : probe first with
      | lt =>
          rw [compared] at member
          exact List.mem_cons.mp member
      | eq =>
          rw [compared] at member
          exact Or.inr member
      | gt =>
          rw [compared] at member
          rcases List.mem_cons.mp member with isFirst | inRest
          · exact Or.inr (List.mem_cons.mpr (Or.inl isFirst))
          · exact (inductionHypothesis inRest).imp_right (List.mem_cons_of_mem first)

/-- An element of a changed list was changed or was there before. -/
theorem mem_adjust
    {change : Element → Element}
    {element : Element}
    {elements : List Element}
    (member : element ∈ adjust probe change elements) :
    (∃ original ∈ elements, element = change original) ∨ element ∈ elements := by
  obtain ⟨original, inElements, rfl⟩ := List.mem_map.mp member
  split
  · exact Or.inl ⟨original, inElements, rfl⟩
  · exact Or.inr inElements

/-- Taking out brings no new element. -/
theorem mem_discard
    {element : Element}
    {elements : List Element}
    (member : element ∈ discard probe elements) :
    element ∈ elements :=
  (List.mem_filter.mp member).1

theorem place_ne_nil (added : Element) (elements : List Element) :
    place probe added elements ≠ [] := by
  cases elements with
  | nil =>
      simp [place]
  | cons first rest =>
      rw [place]
      cases probe first <;> simp

/-- A change that keeps the comparison has no effect on what is taken out anyway. -/
theorem discard_adjust
    {change : Element → Element}
    (same : ∀ element, probe (change element) = probe element)
    (elements : List Element) :
    discard probe (adjust probe change elements) = discard probe elements := by
  induction elements with
  | nil =>
      rfl
  | cons first rest inductionHypothesis =>
      rw [adjust, List.map_cons, discard, List.filter_cons]
      rw [adjust, discard] at inductionHypothesis
      by_cases equal : probe first = .eq
      · simp [equal, same, inductionHypothesis, discard]
      · simp [equal, inductionHypothesis, discard]

/-- A list grows by one if nothing equal was there. -/
theorem Split.length_place
    {elements : List Element}
    (split : Split probe elements)
    (added : Element) :
    (place probe added elements).length =
      elements.length + (lookup? probe elements).isNone.toNat := by
  rcases split with
    ⟨below, above, element, rfl, equal, allBelow, _⟩ | ⟨below, above, rfl, allBelow, allAbove⟩
  · rw [place_present allBelow equal, lookup?_present allBelow equal]
    rfl
  · rw [place_absent allBelow allAbove, lookup?_absent allBelow allAbove]
    simp [Nat.add_assoc]

/-- A list shrinks by one if something equal was there. -/
theorem Split.length_discard
    {elements : List Element}
    (split : Split probe elements) :
    (discard probe elements).length + (lookup? probe elements).isSome.toNat =
      elements.length := by
  rcases split with
    ⟨below, above, element, rfl, equal, allBelow, allAbove⟩ |
      ⟨below, above, rfl, allBelow, allAbove⟩
  · rw [discard_present allBelow equal allAbove, lookup?_present allBelow equal]
    simp [Nat.add_assoc]
  · rw [discard_absent allBelow allAbove, lookup?_absent allBelow allAbove]
    rfl

/-- Discarding what is not there changes nothing. -/
theorem Split.discard_of_lookup?_none
    {elements : List Element}
    (split : Split probe elements)
    (missing : lookup? probe elements = none) :
    discard probe elements = elements := by
  rcases split with
    ⟨below, above, element, rfl, equal, allBelow, _⟩ | ⟨below, above, rfl, allBelow, allAbove⟩
  · rw [lookup?_present allBelow equal] at missing
    contradiction
  · exact discard_absent allBelow allAbove

/-! ## Looking up after a change -/

section Lookups

variable {other : Element → Ordering} {change : Element → Element} {added : Element}

/-- What is found after a change is what was found before, changed. -/
theorem lookup?_adjust
    (same : ∀ element, probe (change element) = probe element)
    (elements : List Element) :
    lookup? probe (adjust probe change elements) = (lookup? probe elements).map change := by
  unfold lookup? adjust
  induction elements with
  | nil =>
      rfl
  | cons first rest inductionHypothesis =>
      by_cases equal : probe first = .eq
      · simp [equal, same]
      · simp [equal, inductionHypothesis]

/-- What is adjusted, discarded or placed elsewhere is not what another probe finds. -/
theorem lookup?_adjust_apart
    (apart : ∀ element, probe element = .eq → other element ≠ .eq)
    (same : ∀ element, other (change element) = other element)
    (elements : List Element) :
    lookup? other (adjust probe change elements) = lookup? other elements := by
  unfold lookup? adjust
  induction elements with
  | nil =>
      rfl
  | cons first rest inductionHypothesis =>
      by_cases equal : probe first = .eq
      · simp [equal, same, apart first equal, inductionHypothesis]
      · simp [equal, List.find?_cons, inductionHypothesis]

/-- What was taken out is no longer found. -/
theorem lookup?_discard (elements : List Element) :
    lookup? probe (discard probe elements) = none := by
  refine lookup?_eq_none ?_
  intro element kept
  exact bne_iff_ne.mp (List.mem_filter.mp kept).2

/-- Taking out hides nothing from a probe that finds other elements. -/
theorem lookup?_discard_apart
    (apart : ∀ element, probe element = .eq → other element ≠ .eq)
    (elements : List Element) :
    lookup? other (discard probe elements) = lookup? other elements := by
  unfold lookup? discard
  induction elements with
  | nil =>
      rfl
  | cons first rest inductionHypothesis =>
      by_cases equal : probe first = .eq
      · simp [equal, apart first equal, inductionHypothesis]
      · simp [equal, List.find?_cons, inductionHypothesis]

/-- A new element is found where it was placed. -/
theorem Split.lookup?_place
    {elements : List Element}
    (split : Split probe elements)
    (absent : lookup? probe elements = none)
    (equal : probe added = .eq) :
    lookup? probe (place probe added elements) = some added := by
  rcases split with
    ⟨below, above, element, rfl, found, allBelow, _⟩ | ⟨below, above, rfl, allBelow, allAbove⟩
  · rw [lookup?_present allBelow found] at absent
    contradiction
  · rw [place_absent allBelow allAbove, lookup?_present allBelow equal]

/-- Placing hides nothing from a probe that does not find the new element. -/
theorem lookup?_place_apart
    (apart : other added ≠ .eq)
    (elements : List Element) :
    lookup? other (place probe added elements) = lookup? other elements := by
  induction elements with
  | nil =>
      simp [place, lookup?, apart]
  | cons first rest inductionHypothesis =>
      unfold lookup? at inductionHypothesis ⊢
      rw [place]
      cases probe first with
      | lt =>
          simp [List.find?_cons, apart]
      | eq =>
          rfl
      | gt =>
          simp [List.find?_cons, inductionHypothesis]

end Lookups

/-! ## The operations on images -/

section Images

variable {Item : Type} (probe : Item → Ordering) (image : Element → Item)

/-- Finding in the image of a list finds the image. -/
theorem lookup?_map (elements : List Element) :
    lookup? probe (elements.map image) =
      (lookup? (fun element => probe (image element)) elements).map image :=
  List.find?_map

/-- Placing commutes with taking the image of a list. -/
theorem place_map (added : Element) (elements : List Element) :
    (place (fun element => probe (image element)) added elements).map image =
      place probe (image added) (elements.map image) := by
  induction elements with
  | nil =>
      rfl
  | cons element rest inductionHypothesis =>
      rw [place, List.map_cons, place]
      cases probe (image element) with
      | lt =>
          rfl
      | eq =>
          rfl
      | gt =>
          rw [List.map_cons, inductionHypothesis]

/-- Taking out commutes with taking the image of a list. -/
theorem discard_map (elements : List Element) :
    (discard (fun element => probe (image element)) elements).map image =
      discard probe (elements.map image) := by
  rw [discard, discard, List.filter_map]
  rfl

/-- A change commutes with taking the image of a list if it does so on each element. -/
theorem adjust_map
    (change : Element → Element)
    (imageChange : Item → Item)
    (same : ∀ element, image (change element) = imageChange (image element))
    (elements : List Element) :
    (adjust (fun element => probe (image element)) change elements).map image =
      adjust probe imageChange (elements.map image) := by
  rw [adjust, adjust, List.map_map, List.map_map]
  refine List.map_congr_left ?_
  intro element _
  rw [Function.comp_apply, Function.comp_apply, apply_ite image, same]

end Images

/-! ## The sides of a split -/

section Sides

variable {condition : Element → Bool} {front back : List Element}

/-- Taking while a condition holds takes the part in front where it holds. -/
theorem takeWhile_front
    (holds : ∀ element ∈ front, condition element = true)
    (stops : ∀ element ∈ back.head?, condition element = false) :
    (front ++ back).takeWhile condition = front := by
  rw [List.takeWhile_append_of_pos holds]
  cases back with
  | nil =>
      simp
  | cons element back =>
      rw [List.takeWhile_cons_of_neg (by simp [stops element rfl]), List.append_nil]

/-- Dropping while a condition holds leaves the part behind. -/
theorem dropWhile_front
    (holds : ∀ element ∈ front, condition element = true)
    (stops : ∀ element ∈ back.head?, condition element = false) :
    (front ++ back).dropWhile condition = back := by
  have whole := List.takeWhile_append_dropWhile (p := condition) (l := front ++ back)
  rw [takeWhile_front holds stops] at whole
  exact List.append_cancel_left whole

end Sides

/-! ## Borders -/

/-- The elements that the sought one is above. -/
def lower (probe : Element → Ordering) (elements : List Element) : List Element :=
  elements.takeWhile fun element => probe element == .gt

/-- The elements from the first on that the sought one is not above. -/
def notLower (probe : Element → Ordering) (elements : List Element) : List Element :=
  elements.dropWhile fun element => probe element == .gt

/-- The elements up to the last that the sought one is not below. -/
def notUpper (probe : Element → Ordering) (elements : List Element) : List Element :=
  elements.takeWhile fun element => probe element != .lt

/-- The elements that the sought one is below. -/
def upper (probe : Element → Ordering) (elements : List Element) : List Element :=
  elements.dropWhile fun element => probe element != .lt

/-- The lower border cuts a list in two. -/
theorem lower_append_notLower (elements : List Element) :
    lower probe elements ++ notLower probe elements = elements :=
  List.takeWhile_append_dropWhile

/-- The upper border cuts a list in two. -/
theorem notUpper_append_upper (elements : List Element) :
    notUpper probe elements ++ upper probe elements = elements :=
  List.takeWhile_append_dropWhile

/-- As many elements as are below are the elements below. -/
theorem take_lower (probe : Element → Ordering) (elements : List Element) :
    elements.take (lower probe elements).length = lower probe elements :=
  (congrArg (List.take _) (lower_append_notLower elements).symm).trans List.take_left

/-- What follows as many elements as are below is not below. -/
theorem drop_lower (probe : Element → Ordering) (elements : List Element) :
    elements.drop (lower probe elements).length = notLower probe elements :=
  (congrArg (List.drop _) (lower_append_notLower elements).symm).trans List.drop_left

/-- As many elements as are not above are the elements that are not above. -/
theorem take_notUpper (probe : Element → Ordering) (elements : List Element) :
    elements.take (notUpper probe elements).length = notUpper probe elements :=
  (congrArg (List.take _) (notUpper_append_upper elements).symm).trans List.take_left

/-- What follows as many elements as are not above is above. -/
theorem drop_notUpper (probe : Element → Ordering) (elements : List Element) :
    elements.drop (notUpper probe elements).length = upper probe elements :=
  (congrArg (List.drop _) (notUpper_append_upper elements).symm).trans List.drop_left

section BorderImages

variable {Item : Type} (probe : Item → Ordering) (image : Element → Item)

theorem lower_map (elements : List Element) :
    lower probe (elements.map image) =
      (lower (fun element => probe (image element)) elements).map image :=
  List.takeWhile_map

theorem notUpper_map (elements : List Element) :
    notUpper probe (elements.map image) =
      (notUpper (fun element => probe (image element)) elements).map image :=
  List.takeWhile_map

theorem notLower_map (elements : List Element) :
    notLower probe (elements.map image) =
      (notLower (fun element => probe (image element)) elements).map image :=
  List.dropWhile_map

theorem upper_map (elements : List Element) :
    upper probe (elements.map image) =
      (upper (fun element => probe (image element)) elements).map image :=
  List.dropWhile_map

end BorderImages

/-- The lower border is between a part that is below and one whose first element is not. -/
theorem lower_append
    (allBelow : AllBelow probe below)
    (notBelow : ∀ stored ∈ above.head?, probe stored ≠ .gt) :
    lower probe (below ++ above) = below ∧ notLower probe (below ++ above) = above := by
  have holds : ∀ stored ∈ below, (probe stored == .gt) = true := by
    intro stored member
    simp [allBelow stored member]
  have stops : ∀ stored ∈ above.head?, (probe stored == .gt) = false := by
    intro stored member
    simp [notBelow stored member]
  exact ⟨takeWhile_front holds stops, dropWhile_front holds stops⟩

/-- The upper border is between a part that is not above and one that is. -/
theorem upper_append
    (notAbove : ∀ stored ∈ below, probe stored ≠ .lt)
    (allAbove : AllAbove probe above) :
    notUpper probe (below ++ above) = below ∧ upper probe (below ++ above) = above := by
  have holds : ∀ stored ∈ below, (probe stored != .lt) = true := by
    intro stored member
    simp [notAbove stored member]
  have stops : ∀ stored ∈ above.head?, (probe stored != .lt) = false := by
    intro stored member
    simp [allAbove stored (List.mem_of_mem_head? member)]
  exact ⟨takeWhile_front holds stops, dropWhile_front holds stops⟩

/-- Elements that are all below and all above on the outside leave the borders in the middle. -/
theorem borders_between
    (allBelow : AllBelow probe below)
    (allAbove : AllAbove probe above)
    (middle : List Element) :
    lower probe (below ++ (middle ++ above)) = below ++ lower probe middle ∧
      notUpper probe (below ++ (middle ++ above)) = below ++ notUpper probe middle := by
  have stops
      (condition : Element → Bool)
      (fails : ∀ element ∈ above, condition element = false) :
      (middle ++ above).takeWhile condition = middle.takeWhile condition := by
    induction middle with
    | nil =>
        cases above with
        | nil =>
            rfl
        | cons element above =>
            exact List.takeWhile_cons_of_neg (by simp [fails element List.mem_cons_self])
    | cons element middle inductionHypothesis =>
        rw [List.cons_append, List.takeWhile_cons, List.takeWhile_cons, inductionHypothesis]
  constructor
  · rw [lower, List.takeWhile_append_of_pos (fun element member => by
      simp [allBelow element member]), stops]
    · rfl
    · intro element member
      simp [allAbove element member]
  · rw [notUpper, List.takeWhile_append_of_pos (fun element member => by
      simp [allBelow element member]), stops]
    · rfl
    · intro element member
      simp [allAbove element member]

/-- The borders of elements that are all equal to the sought one are their ends. -/
theorem borders_equal
    {elements : List Element}
    (allEqual : ∀ element ∈ elements, probe element = .eq) :
    lower probe elements = [] ∧ notUpper probe elements = elements := by
  constructor
  · cases elements with
    | nil =>
        rfl
    | cons element rest =>
        exact List.takeWhile_cons_of_neg (by simp [allEqual element List.mem_cons_self])
  · have whole : notUpper probe (elements ++ []) = elements := by
      refine (upper_append ?_ (by simp [AllAbove])).1
      intro element member
      simp [allEqual element member]
    rwa [List.append_nil] at whole

/-- The borders at an equal element lie on its two sides. -/
theorem lower_present
    (allBelow : AllBelow probe below)
    (equal : probe element = .eq) :
    lower probe (below ++ element :: above) = below ∧
      notLower probe (below ++ element :: above) = element :: above :=
  lower_append allBelow (by simp [equal])

/-- An equal element is in front of the upper border. -/
theorem upper_present
    (allBelow : AllBelow probe below)
    (equal : probe element = .eq)
    (allAbove : AllAbove probe above) :
    notUpper probe (below ++ element :: above) = below ++ [element] ∧
      upper probe (below ++ element :: above) = above := by
  have regrouped : below ++ element :: above = (below ++ [element]) ++ above := by
    simp
  rw [regrouped]
  refine upper_append ?_ allAbove
  intro stored member
  rcases List.mem_append.mp member with inBelow | isElement
  · simp [allBelow stored inBelow]
  · rw [List.mem_singleton.mp isElement, equal]
    decide

/-- The borders of an absent element coincide. -/
theorem borders_absent
    (allBelow : AllBelow probe below)
    (allAbove : AllAbove probe above) :
    (lower probe (below ++ above) = below ∧ notLower probe (below ++ above) = above) ∧
      (notUpper probe (below ++ above) = below ∧ upper probe (below ++ above) = above) := by
  refine ⟨lower_append allBelow ?_, upper_append ?_ allAbove⟩
  · intro stored member
    simp [allAbove stored (List.mem_of_mem_head? member)]
  · intro stored member
    simp [allBelow stored member]

/-- Some element is not below the sought one if any lies behind its lower border. -/
theorem any_notLower (probe : Element → Ordering) (elements : List Element) :
    (elements.any fun element => probe element != .gt) = !(notLower probe elements).isEmpty := by
  induction elements with
  | nil =>
      rfl
  | cons element rest inductionHypothesis =>
      rw [List.any_cons, notLower, List.dropWhile_cons]
      by_cases greater : probe element = .gt
      · simp only [greater, beq_self_eq_true, ↓reduceIte, bne_self_eq_false, Bool.false_or]
        exact inductionHypothesis
      · simp [greater]

/-- Some element is not above the sought one if any lies in front of its upper border. -/
theorem any_notUpper
    {elements : List Element}
    (separates : Separates probe elements) :
    (elements.any fun element => probe element != .lt) = !(notUpper probe elements).isEmpty := by
  cases elements with
  | nil =>
      rfl
  | cons element rest =>
      rw [List.any_cons, notUpper, List.takeWhile_cons]
      by_cases less : probe element = .lt
      · have noneLeft : (rest.any fun other => probe other != .lt) = false := by
          refine List.any_eq_false.mpr ?_
          intro other member
          have above := (List.pairwise_cons.mp separates).1 other member
          simp [above.resolve_left (by simp [less])]
        simp [less, noneLeft]
      · simp [less]

/-! ## Borders as filters -/

section Filters

variable {condition : Element → Bool} {elements : List Element}

/-- What meets a condition that later elements meet only with earlier ones is a front. -/
theorem takeWhile_eq_filter
    (isFront :
      elements.Pairwise fun earlier later => condition later = true → condition earlier = true) :
    elements.takeWhile condition = elements.filter condition := by
  induction elements with
  | nil =>
      rfl
  | cons element rest inductionHypothesis =>
      obtain ⟨first, others⟩ := List.pairwise_cons.mp isFront
      by_cases holds : condition element = true
      · rw [List.takeWhile_cons_of_pos holds, List.filter_cons_of_pos holds,
          inductionHypothesis others]
      · have noneLater : rest.filter condition = [] := by
          refine List.filter_eq_nil_iff.mpr ?_
          intro later member laterHolds
          exact holds (first later member laterHolds)
        rw [List.takeWhile_cons_of_neg holds, List.filter_cons_of_neg holds, noneLater]

/-- Where a condition holds in front only, dropping while it holds is filtering. -/
theorem dropWhile_eq_filter
    (isFront :
      elements.Pairwise fun earlier later => condition later = true → condition earlier = true) :
    elements.dropWhile condition = elements.filter fun element => !condition element := by
  induction elements with
  | nil =>
      rfl
  | cons element rest inductionHypothesis =>
      obtain ⟨first, others⟩ := List.pairwise_cons.mp isFront
      by_cases holds : condition element = true
      · rw [List.dropWhile_cons_of_pos holds, List.filter_cons_of_neg (by simp [holds]),
          inductionHypothesis others]
      · have allLater : ∀ later ∈ element :: rest, (!condition later) = true := by
          refine List.forall_mem_cons.mpr ⟨by simp [holds], ?_⟩
          intro later member
          have fails : condition later = false := by
            rw [Bool.eq_false_iff]
            exact fun laterHolds => holds (first later member laterHolds)
          simp [fails]
        rw [List.dropWhile_cons_of_neg holds, List.filter_eq_self.mpr allLater]

namespace Separates

/-- Nothing below follows what is not below. -/
theorem isFront_lower (separates : Separates probe elements) :
    elements.Pairwise fun earlier later =>
      (probe later == .gt) = true → (probe earlier == .gt) = true := by
  refine separates.imp ?_
  rintro earlier later (earlierBelow | laterAbove) laterBelow
  · simp [earlierBelow]
  · simp [laterAbove] at laterBelow

/-- Nothing that is not above follows what is above. -/
theorem isFront_notUpper (separates : Separates probe elements) :
    elements.Pairwise fun earlier later =>
      (probe later != .lt) = true → (probe earlier != .lt) = true := by
  refine separates.imp ?_
  rintro earlier later (earlierBelow | laterAbove) laterNotAbove
  · simp [earlierBelow]
  · simp [laterAbove] at laterNotAbove

/-- The elements in front of the lower border are all that are below. -/
theorem lower_eq_filter (separates : Separates probe elements) :
    lower probe elements = elements.filter fun element => probe element == .gt :=
  takeWhile_eq_filter separates.isFront_lower

/-- The elements behind the lower border are all that are not below. -/
theorem notLower_eq_filter (separates : Separates probe elements) :
    notLower probe elements = elements.filter fun element => probe element != .gt :=
  dropWhile_eq_filter separates.isFront_lower

/-- The elements in front of the upper border are all that are not above. -/
theorem notUpper_eq_filter (separates : Separates probe elements) :
    notUpper probe elements = elements.filter fun element => probe element != .lt :=
  takeWhile_eq_filter separates.isFront_notUpper

/-- The elements behind the upper border are all that are above. -/
theorem upper_eq_filter (separates : Separates probe elements) :
    upper probe elements = elements.filter fun element => probe element == .lt := by
  have negated (element : Element) : (probe element == .lt) = !(probe element != .lt) :=
    (Bool.not_not _).symm
  simp only [negated]
  exact dropWhile_eq_filter separates.isFront_notUpper

end Separates

end Filters

/-! ## Ascending lists stay ascending -/

/-- Every sought element splits an ascending list. -/
theorem Ascending.split
    {order : Order Element}
    [Std.TransCmp order]
    {elements : List Element}
    (ascending : Ascending order elements)
    (sought : Element) :
    Split (order sought) elements :=
  (ascending.separates sought).split

/-- A list still ascends with a new element in its place. -/
theorem Ascending.place
    {order : Order Element}
    [Std.TransCmp order]
    {elements : List Element}
    (ascending : Ascending order elements)
    (added : Element) :
    Ascending order (place (order added) added elements) := by
  rcases ascending.split added with
    ⟨below, above, element, rfl, equal, allBelow, _⟩ | ⟨below, above, rfl, allBelow, allAbove⟩
  · rw [place_present allBelow equal]
    exact ascending
  · rw [place_absent allBelow allAbove]
    exact ascending.insert allBelow allAbove

/-- A list still ascends without what is taken out. -/
theorem Ascending.discard
    {order : Order Element}
    {elements : List Element}
    (ascending : Ascending order elements)
    (probe : Element → Ordering) :
    Ascending order (discard probe elements) :=
  List.Pairwise.filter _ ascending

end OrderedIndex.Order

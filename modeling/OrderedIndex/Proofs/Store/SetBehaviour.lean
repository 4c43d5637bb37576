import OrderedIndex.Proofs.Store.Array
import OrderedIndex.Proofs.Store.Requests
import OrderedIndex.Proofs.Store.Sorted

namespace OrderedIndex

/-!
# Stores as ordered sets

Whether a store keeps its values in an array or in a list, and its browsers
count the values in front of their gap or hold them, every run of requests is
answered as by an ordered set of values.
-/

variable {Value : Type} {values : List Value} {gap : Nat}

/-! ## Browsers -/

instance : BrowserLike (ArrayBrowser Value) Value where
  next := ArrayBrowser.next
  previous := ArrayBrowser.previous

instance : BrowserLike (Browser Value) Value where
  next := Browser.next
  previous := Browser.previous

namespace ArrayBrowser

variable {browser : ArrayBrowser Value}

theorem next_inside (inside : browser.gap < browser.values.size) :
    browser.next =
      (some browser.values[browser.gap], ⟨browser.values, browser.gap + 1, inside⟩) :=
  dif_pos inside

theorem next_end (atEnd : ¬ browser.gap < browser.values.size) :
    browser.next = (none, browser) :=
  dif_neg atEnd

/-- A browser in a gap of the values of its array. -/
structure InGap (values : List Value) (browser : ArrayBrowser Value) (gap : Nat) : Prop where
  values_eq : browser.values.toList = values
  gap_eq : browser.gap = gap

/-- A step crosses the value beside the gap. -/
theorem InGap.take
    (inGap : InGap values browser gap)
    (step : BrowserStep) :
    (step.take browser).1 = (step.takeInList values gap).1 ∧
      InGap values (step.take browser).2 (step.takeInList values gap).2 := by
  obtain ⟨rfl, rfl⟩ := inGap
  cases step with
  | next =>
      dsimp only [BrowserStep.take, BrowserLike.next]
      by_cases inside : browser.gap < browser.values.size
      · rw [next_inside inside, BrowserStep.takeInList_next inside]
        exact ⟨rfl, rfl, rfl⟩
      · rw [next_end inside, BrowserStep.takeInList_next_end (Nat.le_of_not_lt inside)]
        exact ⟨rfl, rfl, rfl⟩
  | previous =>
      obtain ⟨kept, place, within⟩ := browser
      cases place with
      | zero =>
          exact ⟨rfl, rfl, rfl⟩
      | succ place =>
          rw [BrowserStep.takeInList_previous within]
          exact ⟨rfl, rfl, rfl⟩

end ArrayBrowser

namespace Browser

theorem next_ofSplit (inside : gap < values.length) :
    (ofSplit values gap).next = (some values[gap], ofSplit values (gap + 1)) := by
  rw [ofSplit, List.drop_eq_getElem_cons inside, next, ofSplit,
    List.take_succ_eq_append_getElem inside, List.reverse_append]
  rfl

theorem next_ofSplit_end (atEnd : values.length ≤ gap) :
    (ofSplit values gap).next = (none, ofSplit values gap) := by
  rw [ofSplit, List.drop_eq_nil_of_le atEnd]
  rfl

theorem previous_ofSplit (inside : gap < values.length) :
    (ofSplit values (gap + 1)).previous = (some values[gap], ofSplit values gap) := by
  rw [ofSplit, List.take_succ_eq_append_getElem inside, List.reverse_append, ofSplit,
    List.drop_eq_getElem_cons inside]
  rfl

/-- A browser that holds the values on either side of a gap. -/
structure InGap (values : List Value) (browser : Browser Value) (gap : Nat) : Prop where
  browser_eq : browser = .ofSplit values gap
  within : gap ≤ values.length

/-- A step crosses the value beside the gap. -/
theorem InGap.take
    {browser : Browser Value}
    (inGap : InGap values browser gap)
    (step : BrowserStep) :
    (step.take browser).1 = (step.takeInList values gap).1 ∧
      InGap values (step.take browser).2 (step.takeInList values gap).2 := by
  obtain ⟨rfl, within⟩ := inGap
  cases step with
  | next =>
      dsimp only [BrowserStep.take, BrowserLike.next]
      by_cases inside : gap < values.length
      · rw [next_ofSplit inside, BrowserStep.takeInList_next inside]
        exact ⟨rfl, rfl, inside⟩
      · have atEnd : values.length ≤ gap := Nat.le_of_not_lt inside
        rw [next_ofSplit_end atEnd, BrowserStep.takeInList_next_end atEnd]
        exact ⟨rfl, rfl, within⟩
  | previous =>
      dsimp only [BrowserStep.take, BrowserLike.previous]
      cases gap with
      | zero =>
          exact ⟨rfl, rfl, within⟩
      | succ place =>
          rw [previous_ofSplit within, BrowserStep.takeInList_previous within]
          exact ⟨rfl, rfl, Nat.le_of_succ_le within⟩

end Browser

/-! ## Stores in arrays -/

namespace ArrayStore

instance : StoreLike (ArrayStore Value) Value (ArrayBrowser Value) where
  id := ArrayStore.id
  values store := store.values.toList
  insert := ArrayStore.insert
  remove := ArrayStore.remove
  contains := ArrayStore.contains
  size := ArrayStore.size
  isEmpty := ArrayStore.isEmpty
  browse := ArrayStore.browse
  close := ArrayStore.close

/-- A browser starts in the gap that is asked for. -/
theorem Sound.browse_eq
    {store : ArrayStore Value}
    [Std.TransCmp store.order]
    (sound : store.Sound)
    (start : BrowseStart Value) :
    ∃ browser,
      store.browse start = .ok browser ∧
        ArrayBrowser.InGap store.values.toList browser
          (start.gap store.order store.values.toList) := by
  unfold browse
  rw [sound.checkOpen_eq]
  cases start with
  | first =>
      exact ⟨_, rfl, rfl, rfl⟩
  | last =>
      exact ⟨_, rfl, rfl, rfl⟩
  | before value =>
      exact ⟨_, rfl, rfl, sound.lowerBound_eq_countP value⟩
  | after value =>
      exact ⟨_, rfl, rfl, sound.upperBound_eq_countP value⟩

/-- A store that keeps these values, or none since it is closed. -/
inductive Keeps (id : StoreId) (order : Order Value) :
    ArrayStore Value → Option (List Value) → Prop where
  | isOpen (kept : Array Value) : Keeps id order ⟨id, order, kept, false⟩ (some kept.toList)
  | isClosed : Keeps id order ⟨id, order, #[], true⟩ none

/-- Stores in arrays stand for the list of their values in every call. -/
theorem simulates
    (id : StoreId)
    (order : Order Value)
    [Std.TransCmp order] :
    StoreLike.Simulates id order (Keeps id order) ArrayBrowser.InGap where
  id_eq keeps := by
    cases keeps <;> rfl
  values_eq keeps := by
    cases keeps <;> rfl
  closes keeps := by
    cases keeps <;> exact .isClosed
  refuses keeps task := by
    cases keeps
    cases task <;> rfl
  inserts := by
    rintro _ _ ⟨kept⟩ ascending value
    have sound : Sound ⟨id, order, kept, false⟩ := ⟨rfl, ascending⟩
    obtain ⟨changed, inserted, changed_eq⟩ := sound.insert_eq value
    exact ⟨_, inserted, changed_eq ▸ .isOpen changed⟩
  removes := by
    rintro _ _ ⟨kept⟩ ascending value
    have sound : Sound ⟨id, order, kept, false⟩ := ⟨rfl, ascending⟩
    obtain ⟨changed, removed, changed_eq⟩ := sound.remove_eq value
    exact ⟨_, removed, changed_eq ▸ .isOpen changed⟩
  contains_eq := by
    rintro _ _ ⟨kept⟩ ascending value
    have sound : Sound ⟨id, order, kept, false⟩ := ⟨rfl, ascending⟩
    exact sound.contains_eq value
  size_eq := by
    rintro _ _ ⟨kept⟩
    rfl
  isEmpty_eq := by
    rintro _ _ ⟨kept⟩
    rw [Array.isEmpty_toList]
    rfl
  browses := by
    rintro _ _ ⟨kept⟩ ascending start
    have sound : Sound ⟨id, order, kept, false⟩ := ⟨rfl, ascending⟩
    exact sound.browse_eq start
  steps := ArrayBrowser.InGap.take

end ArrayStore

/-! ## Stores in lists -/

namespace OrderedStore

instance : StoreLike (OrderedStore Value) Value (Browser Value) where
  id := OrderedStore.id
  values := OrderedStore.values
  insert := OrderedStore.insert
  remove := OrderedStore.remove
  contains := OrderedStore.contains
  size := OrderedStore.size
  isEmpty := OrderedStore.isEmpty
  browse := OrderedStore.browse
  close := OrderedStore.close

/-- A browser starts in the gap that is asked for. -/
theorem Sound.browse_eq
    {store : OrderedStore Value}
    [Std.TransCmp store.order]
    (sound : store.Sound)
    (start : BrowseStart Value) :
    store.browse start = .ok (.ofSplit store.values (start.gap store.order store.values)) := by
  unfold browse
  rw [sound.checkOpen_eq]
  cases start with
  | first =>
      rfl
  | last =>
      rfl
  | before value =>
      rw [BrowseStart.gap, ← sound.lowerBound_eq_countP value]
      rfl
  | after value =>
      rw [BrowseStart.gap, ← sound.upperBound_eq_countP value]
      rfl

/-- A store that keeps these values, or none since it is closed. -/
inductive Keeps (id : StoreId) (order : Order Value) :
    OrderedStore Value → Option (List Value) → Prop where
  | isOpen (kept : List Value) : Keeps id order ⟨id, order, kept, false⟩ (some kept)
  | isClosed : Keeps id order ⟨id, order, [], true⟩ none

/-- Stores in lists stand for that list in every call. -/
theorem simulates
    (id : StoreId)
    (order : Order Value)
    [Std.TransCmp order] :
    StoreLike.Simulates id order (Keeps id order) Browser.InGap where
  id_eq keeps := by
    cases keeps <;> rfl
  values_eq keeps := by
    cases keeps <;> rfl
  closes keeps := by
    cases keeps <;> exact .isClosed
  refuses keeps task := by
    cases keeps
    cases task <;> rfl
  inserts := by
    rintro _ values ⟨⟩ ascending value
    have sound : Sound ⟨id, order, values, false⟩ := ⟨rfl, ascending⟩
    exact ⟨_, sound.insert_eq value, .isOpen _⟩
  removes := by
    rintro _ values ⟨⟩ ascending value
    have sound : Sound ⟨id, order, values, false⟩ := ⟨rfl, ascending⟩
    exact ⟨_, sound.remove_eq value, .isOpen _⟩
  contains_eq := by
    rintro _ values ⟨⟩ ascending value
    have sound : Sound ⟨id, order, values, false⟩ := ⟨rfl, ascending⟩
    exact sound.contains_eq value
  size_eq := by
    rintro _ values ⟨⟩
    rfl
  isEmpty_eq := by
    rintro _ values ⟨⟩
    cases values <;> rfl
  browses := by
    rintro _ values ⟨⟩ ascending start
    have sound : Sound ⟨id, order, values, false⟩ := ⟨rfl, ascending⟩
    exact ⟨_, sound.browse_eq start, rfl, start.gap_le order values⟩
  steps := Browser.InGap.take

end OrderedStore

/-! ## Every run -/

namespace StoreLike

/-- Stores of both kinds answer every run of requests as an ordered set. -/
theorem behaveAsSets
    (id : StoreId)
    (order : Order Value)
    [Std.TransCmp order] :
    BehavesAsSet id order (ArrayStore.empty id order) ∧
      BehavesAsSet id order (OrderedStore.empty id order) :=
  ⟨(ArrayStore.simulates id order).behavesAsSet (.isOpen #[]),
    (OrderedStore.simulates id order).behavesAsSet (.isOpen [])⟩

/-- Halving makes `8` and `9` one value, which keeps the spelling `8` that came first. -/
theorem behaveAsSets_halves :
    let order : Order Nat := Order.byRank fun number => number / 2
    let requests : List (StoreRequest Nat) :=
      [.use (.insert 8), .use (.insert 4), .use (.insert 9),
        .use (.browse (.after 9) [.previous, .previous, .previous, .next]),
        .use (.browse (.before 9) [.next, .next]), .close, .use .size, .id]
    (StoreRequest.run (ArrayStore.empty 7 order) requests).1 =
      [.ok (.flag true), .ok (.flag true), .ok (.flag false),
        .ok (.crossed [some 8, some 4, none, some 4]), .ok (.crossed [some 8, none]), .ok .done,
        .error (.closed 7), .ok (.number 7)] := by
  intro order requests
  have behaves := (behaveAsSets 7 order).1
  exact behaves.replies_eq requests

end StoreLike

end OrderedIndex

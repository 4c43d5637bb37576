import OrderedIndex.Proofs.Store.PlannedFailures
import OrderedIndex.Proofs.Table.Group

namespace OrderedIndex

/-!
# Moves between layouts

A group that moves into a store or back into a tree is counted in the journal.
Nothing else touches these two counters, so what a computation adds to them are
the moves that it has made, also where the moved group does not outlive it.
-/

/-- The ways in which a group moves between layouts. -/
inductive Relocation where
  /-- Into a secondary store. -/
  | promotion
  /-- Back inline. -/
  | demotion
  deriving Repr, DecidableEq

/-- The counter of such moves. -/
def Relocation.metric : Relocation → Metric
  | .promotion => .duplicatePromotions
  | .demotion => .duplicateDemotions

/-! ## Counters -/

namespace Journal

/-- The total of a counter; one that was never touched stands at zero. -/
def total (metric : Metric) (journal : Journal) : Nat :=
  (journal.counters.lookup metric).getD 0

/-- Updating a counter changes what is found under its own metric alone. -/
theorem lookup_update
    (metric other : Metric)
    (counters : List (Metric × Nat)) :
    ((update 0 (· + 1) metric counters).lookup other).getD 0 =
      (counters.lookup other).getD 0 + if other = metric then 1 else 0 := by
  induction counters with
  | nil =>
      by_cases same : other = metric
      · simp [update, same]
      · simp [update, List.lookup_cons, same, beq_false_of_ne same]
  | cons first rest inductionHypothesis =>
      obtain ⟨counted, total⟩ := first
      rw [update]
      by_cases here : counted = metric
      · subst here
        rw [if_pos rfl, List.lookup_cons, List.lookup_cons]
        by_cases same : other = counted
        · simp [same]
        · simp [same, beq_false_of_ne same]
      · rw [if_neg here, List.lookup_cons, List.lookup_cons]
        by_cases same : other = counted
        · subst same
          simp [here]
        · simp [beq_false_of_ne same, inductionHypothesis]

/-- Counting adds one to its own total and nothing to another. -/
theorem total_count (metric other : Metric) (journal : Journal) :
    (journal.count metric).total other =
      journal.total other + if other = metric then 1 else 0 :=
  lookup_update metric other journal.counters

end Journal

/-- Number of moves of a kind that a backend has counted. -/
def Backend.tally (kind : Relocation) (backend : Backend) : Nat :=
  backend.journal.total kind.metric

/-! ## Computations that make no moves -/

/-- A computation that makes no moves. -/
def Quiet {Answer : Type} (computation : StoreM Answer) : Prop :=
  ∀ backend kind, (computation backend).2.tally kind = backend.tally kind

namespace Quiet

variable {Answer Other : Type}

/-- A computation without calls is quiet. -/
theorem pure (answer : Answer) : Quiet (pure answer) := fun _ _ => rfl

/-- Two quiet computations in a row are quiet. -/
theorem bind
    {computation : StoreM Other}
    {next : Other → StoreM Answer}
    (first : Quiet computation)
    (second : ∀ answer, Quiet (next answer)) :
    Quiet (computation >>= next) :=
  fun backend kind => (second _ _ kind).trans (first backend kind)

theorem get : Quiet (get : StoreM Backend) := fun _ _ => rfl

end Quiet

namespace Backend

variable {Value : Type}

/-- Remembering a call counts no relocation. -/
theorem quiet_remember (call : StoreCall) (store : StoreId) : Quiet (remember call store) :=
  fun _ _ => rfl

/-- A change of the journal that counts no relocation is quiet. -/
theorem quiet_record
    {change : Journal → Journal}
    (uncounted :
      ∀ journal (kind : Relocation),
        (change journal).total kind.metric = journal.total kind.metric) :
    Quiet (record change) :=
  fun backend kind => uncounted backend.journal kind

/-- A notice counts no relocation. -/
theorem quiet_note (notice : Notice) : Quiet (record (·.note notice)) :=
  quiet_record fun _ _ => rfl

/-- What the stores count are not moves. -/
theorem total_count_ofStores
    {metric : Metric}
    (isOfStores : metric ∈ Metric.ofStores)
    (journal : Journal)
    (kind : Relocation) :
    (journal.count metric).total kind.metric = journal.total kind.metric := by
  have differs : kind.metric ≠ metric := by
    rintro rfl
    cases kind <;> revert isOfStores <;> decide
  rw [Journal.total_count, if_neg differs, Nat.add_zero]

theorem quiet_meet (call : StoreCall) : Quiet (meet call) := by
  rintro ⟨name, exact, tunable, failures?, nextId, settings, history, journal⟩ kind
  cases failures? with
  | none =>
      rfl
  | some planned =>
      rw [meet_eq_of_planned rfl]
      rfl

theorem quiet_consult
    {Answer : Type}
    (call : StoreCall)
    (store : OrderedStore Value)
    (answer : Except StoreError Answer) :
    Quiet (consult call store answer) := by
  refine (quiet_remember call store.id).bind fun _ => (quiet_meet call).bind ?_
  rintro (cause | ⟨⟩)
  · exact .pure _
  · exact .pure _

theorem quiet_create (order : Order Value) : Quiet (create order) := by
  refine (quiet_meet .create).bind ?_
  rintro (cause | ⟨⟩)
  · exact .pure _
  · exact fun backend kind => total_count_ofStores (by decide) backend.journal kind

theorem quiet_checkCapacity (store : OrderedStore Value) : Quiet (checkCapacity store) := by
  refine Quiet.get.bind ?_
  intro backend
  cases backend.failures?.bind (·.capacity) with
  | none =>
      exact .pure _
  | some capacity =>
      rcases store.size with cause | size
      · exact .pure _
      · dsimp only
        split
        · exact .pure _
        · exact .pure _

/-- An insertion into a store counts no relocation by itself. -/
theorem quiet_insert (store : OrderedStore Value) (value : Value) :
    Quiet (insert store value) := by
  refine (quiet_remember .insert store.id).bind fun _ => (quiet_meet .insert).bind ?_
  rintro (cause | ⟨⟩)
  · exact .pure _
  · refine (quiet_checkCapacity store).bind ?_
    rintro (cause | ⟨⟩)
    · exact .pure _
    · rcases store.insert value with cause | ⟨added, result⟩
      · exact .pure _
      · cases added with
        | false =>
            exact .pure _
        | true =>
            exact (quiet_record (total_count_ofStores (by decide))).bind fun _ => .pure _

/-- A removal from a store counts no relocation by itself. -/
theorem quiet_remove (store : OrderedStore Value) (value : Value) :
    Quiet (remove store value) := by
  refine (quiet_remember .remove store.id).bind fun _ => (quiet_meet .remove).bind ?_
  rintro (cause | ⟨⟩)
  · exact .pure _
  · rcases store.remove value with cause | ⟨removed, result⟩
    · exact .pure _
    · cases removed with
      | false =>
          exact .pure _
      | true =>
          exact (quiet_record (total_count_ofStores (by decide))).bind fun _ => .pure _

theorem quiet_close (store : OrderedStore Value) : Quiet (close store) := by
  refine (quiet_remember .close store.id).bind fun _ => (quiet_meet .close).bind ?_
  rintro (cause | ⟨⟩)
  · exact .pure _
  · dsimp only
    split
    · refine Quiet.bind (quiet_record ?_) fun _ => .pure _
      exact fun journal kind => total_count_ofStores (by decide) journal kind
    · exact .pure _

/-- Filling a store counts no relocation by itself. -/
theorem quiet_fill (store : OrderedStore Value) (values : List Value) :
    Quiet (fill store values) := by
  induction values generalizing store with
  | nil =>
      exact .pure _
  | cons value values inductionHypothesis =>
      refine (quiet_insert store value).bind ?_
      rintro ⟨cause | added, grown⟩
      · exact .pure _
      · exact inductionHypothesis grown

/-- Reading a store counts no relocation by itself. -/
theorem quiet_readAhead (behind ahead : List Value) : Quiet (readAhead behind ahead) := by
  induction ahead generalizing behind with
  | nil =>
      refine (quiet_meet .next).bind ?_
      rintro (cause | ⟨⟩)
      · exact .pure _
      · exact .pure _
  | cons value ahead inductionHypothesis =>
      refine (quiet_meet .next).bind ?_
      rintro (cause | ⟨⟩)
      · exact .pure _
      · refine (inductionHypothesis (value :: behind)).bind ?_
        rintro (cause | values)
        · exact .pure _
        · exact .pure _

end Backend

namespace Group

variable {Value : Type}

/-- Asking a group for its size counts no relocation. -/
theorem quiet_size (group : Group Value) : Quiet group.size := by
  cases group with
  | inline tree =>
      exact .pure _
  | redirected store =>
      exact (Backend.quiet_consult .size store _).bind fun _ => .pure _

/-- Closing a group counts no relocation. -/
theorem quiet_close (group : Group Value) : Quiet group.close := by
  cases group with
  | inline tree =>
      exact .pure _
  | redirected store =>
      exact (Backend.quiet_close store).bind fun _ => .pure _

end Group

/-! ## Computations that may make moves -/

/-- Under a regime, a computation makes moves, the latest first, and answers as described. -/
def Relocates
    {Answer : Type}
    (regime : Regime)
    (computation : StoreM Answer)
    (post : Answer → List Relocation → Prop) :
    Prop :=
  ∀ backend,
    regime.admits backend.failures? →
    ∃ moves,
      (∀ kind, (computation backend).2.tally kind = backend.tally kind + moves.count kind) ∧
        post (computation backend).1 moves ∧
          regime.admits (computation backend).2.failures?

namespace Relocates

variable {regime : Regime} {Answer Other : Type}

/-- A computation without calls relocates nothing. -/
theorem pure
    {post : Answer → List Relocation → Prop}
    {answer : Answer}
    (holds : post answer []) :
    Relocates regime (pure answer) post :=
  fun _ admitted => ⟨[], fun _ => rfl, holds, admitted⟩

/-- The moves of a second step come on top of those of the first. -/
theorem bind
    {computation : StoreM Other}
    {next : Other → StoreM Answer}
    {middle : Other → List Relocation → Prop}
    {post : Answer → List Relocation → Prop}
    (first : Relocates regime computation middle)
    (second :
      ∀ answer earlier,
        middle answer earlier →
        Relocates regime (next answer) fun result later => post result (later ++ earlier)) :
    Relocates regime (computation >>= next) post := by
  intro backend admitted
  obtain ⟨earlier, began, answered, between⟩ := first backend admitted
  obtain ⟨later, continued, holds, stays⟩ := second _ _ answered _ between
  refine ⟨later ++ earlier, ?_, holds, stays⟩
  intro kind
  rw [bind_apply, continued, began, List.count_append]
  omega

/-- What a computation ensures holds beside what is said of its moves. -/
theorem and_ensures
    {computation : StoreM Answer}
    {post : Answer → List Relocation → Prop}
    {answered : Answer → Prop}
    (relocates : Relocates regime computation post)
    (ensures : Ensures regime computation answered) :
    Relocates regime computation fun answer moves => answered answer ∧ post answer moves := by
  intro backend admitted
  obtain ⟨moves, counted, holds, stays⟩ := relocates backend admitted
  exact ⟨moves, counted, ⟨(ensures backend admitted).1, holds⟩, stays⟩

/-- A first step that makes no moves can be left out of the account. -/
theorem bind_quiet
    {computation : StoreM Other}
    {next : Other → StoreM Answer}
    {middle : Other → Prop}
    {post : Answer → List Relocation → Prop}
    (ensures : Ensures regime computation middle)
    (quiet : Quiet computation)
    (second : ∀ answer, middle answer → Relocates regime (next answer) post) :
    Relocates regime (computation >>= next) post := by
  intro backend admitted
  obtain ⟨answered, between⟩ := ensures backend admitted
  obtain ⟨moves, counted, holds, stays⟩ := second _ answered _ between
  refine ⟨moves, ?_, holds, stays⟩
  intro kind
  rw [bind_apply, counted, quiet]

/-- Counting a move makes it. -/
theorem record
    (kind : Relocation)
    {notes : Journal → Journal}
    (counters_eq : ∀ journal, (notes journal).counters = (journal.count kind.metric).counters) :
    Relocates regime (Backend.record notes) fun _ moves => moves = [kind] := by
  intro backend admitted
  refine ⟨[kind], ?_, rfl, admitted⟩
  intro other
  have same : other.metric = kind.metric ↔ kind = other := by
    cases other <;> cases kind <;> decide
  rw [List.count_singleton]
  show ((notes backend.journal).counters.lookup other.metric).getD 0 = _
  rw [counters_eq]
  refine (Journal.total_count kind.metric other.metric backend.journal).trans ?_
  simp only [same, beq_iff_eq]
  rfl

end Relocates

end OrderedIndex

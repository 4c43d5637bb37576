import OrderedIndex.Proofs.Cursor.Simulation

namespace OrderedIndex

/-!
# Cursors that look alike

A cursor over stores that do not fail is known by the position that it shows:
two cursors that show the same position in the same list look alike, whatever
they move over.  A cursor that keeps its place when a move fails can have failed
moves left out of its run.
-/

namespace Move

variable {Element : Type}

/-- Whether the move is a single step or placement; the others are a placement and then a step. -/
def isSingle : Move Element → Bool
  | .first | .last => false
  | _ => true

end Move

namespace Cursor

variable
  {State Other Element : Type}
  [Cursor State Element]
  [Cursor Other Element]
  {regime : Regime}
  {order : Order Element}
  {elements : List Element}
  {stands : State → Position → Prop}
  {state : State}
  {other : Other}
  {position : Position}

/-! ## What cursors show -/

/-- Over stores that do not fail, a cursor is seen where a position of a list is. -/
structure Shows
    (order : Order Element)
    (elements : List Element)
    (state : State)
    (position : Position) :
    Prop where
  within : position.Within elements.length
  available_eq : available state = position.isOn
  get_eq : get state = position.get elements
  run_eq :
    ∀ backend,
      backend.Reliable →
      ∀ moves,
        (run state moves backend).1.1 =
          (Position.run elements (Position.perform order elements) position moves).1

/-- Two cursors that cannot be told apart, now or by moves over stores that do not fail. -/
structure LooksLike (state : State) (other : Other) : Prop where
  available_eq : available state = available other
  get_eq : get state = get other
  run_eq :
    ∀ backend otherBackend,
      backend.Reliable →
      otherBackend.Reliable →
      ∀ moves, (run state moves backend).1.1 = (run other moves otherBackend).1.1

/-- Two cursors that show one position look alike. -/
theorem Shows.looksLike
    (shows : Shows order elements state position)
    (otherShows : Shows order elements other position) :
    LooksLike state other where
  available_eq := shows.available_eq.trans otherShows.available_eq.symm
  get_eq := shows.get_eq.trans otherShows.get_eq.symm
  run_eq backend otherBackend reliable otherReliable moves :=
    (shows.run_eq backend reliable moves).trans
      (otherShows.run_eq otherBackend otherReliable moves).symm

/-- A cursor that follows a position shows it. -/
theorem Follows.shows
    (follows : Follows .reliable order elements stands)
    (standing : stands state position) :
    Shows order elements state position where
  within := follows.within standing
  available_eq := follows.available_eq standing
  get_eq := follows.get_eq standing
  run_eq backend reliable moves := (follows.run standing moves backend reliable).1.1

/-! ## Moves that may fail -/

/--
The expected answer and place, or where calls may fail a failure that leaves the
cursor at some place, and at the same place if the move was a single one.
-/
def Settles
    (regime : Regime)
    (stands : State → Position → Prop)
    (isSingle : Bool)
    (before : Position)
    (expected : Report × Position) :
    Moved Report State → Prop
  | (.ok report, state) => report = expected.1 ∧ stands state expected.2
  | (.error _, state) =>
      regime.mayFail ∧ (∃ place, stands state place) ∧ (isSingle = true → stands state before)

theorem settles_found
    {isSingle : Bool}
    {before : Position}
    {expected : Bool × Position}
    {step : StoreM (Moved Bool State)}
    (leads : Ensures regime step (regime.Leads stands before expected)) :
    Ensures regime (do return reportFound (← step))
      (Settles regime stands isSingle before (Position.found expected)) := by
  refine leads.bind ?_
  rintro ⟨cause | answer, moved⟩ led
  · exact Ensures.pure ⟨led.1, ⟨before, led.2⟩, fun _ => led.2⟩
  · obtain ⟨rfl, standsThere⟩ := led
    exact Ensures.pure ⟨rfl, standsThere⟩

theorem settles_placed
    {isSingle : Bool}
    {before place : Position}
    {placement : StoreM (Moved Unit State)}
    (leads : Ensures regime placement (regime.Leads stands before ((), place))) :
    Ensures regime (do return reportPlaced (← placement))
      (Settles regime stands isSingle before (.placed, place)) := by
  refine leads.bind ?_
  rintro ⟨cause | ⟨⟩, moved⟩ led
  · exact Ensures.pure ⟨led.1, ⟨before, led.2⟩, fun _ => led.2⟩
  · exact Ensures.pure ⟨rfl, led.2⟩

/-- A placement and then a step may stop halfway, but at some place. -/
theorem settles_thenStep
    {before place : Position}
    {placement : StoreM (Moved Unit State)}
    {step : State → StoreM (Moved Bool State)}
    {expected : Bool × Position}
    (placed : Ensures regime placement (regime.Leads stands before ((), place)))
    (stepped :
      ∀ state, stands state place → Ensures regime (step state) (regime.Leads stands place expected)) :
    Ensures regime (do return reportFound (← (do thenStep step (← placement))))
      (Settles regime stands false before (Position.found expected)) := by
  have halfway :
      Ensures regime (do thenStep step (← placement)) fun moved =>
        match moved with
        | (.ok answer, state) => answer = expected.1 ∧ stands state expected.2
        | (.error _, state) => regime.mayFail ∧ ∃ place, stands state place := by
    refine placed.bind ?_
    rintro ⟨cause | ⟨⟩, moved⟩ led
    · exact Ensures.pure ⟨led.1, before, led.2⟩
    · refine (stepped moved led.2).weaken ?_
      rintro ⟨cause | answer, state⟩ ledOn
      · exact ⟨ledOn.1, place, ledOn.2⟩
      · exact ledOn
  refine halfway.bind ?_
  rintro ⟨cause | answer, moved⟩ stopped
  · exact Ensures.pure ⟨stopped.1, stopped.2, fun isSingle => nomatch isSingle⟩
  · obtain ⟨rfl, standsThere⟩ := stopped
    exact Ensures.pure ⟨rfl, standsThere⟩

/-- A move leads where it leads the position; a single one that fails leaves the cursor there. -/
theorem Follows.settles
    (follows : Follows regime order elements stands)
    (standing : stands state position)
    (move : Move Element) :
    Ensures regime (Cursor.perform state move)
      (Settles regime stands move.isSingle position (position.perform order elements move)) := by
  cases move with
  | next =>
      exact settles_found (follows.next standing)
  | previous =>
      exact settles_found (follows.previous standing)
  | first =>
      exact settles_thenStep (follows.beforeFirst standing) fun _ => follows.next
  | last =>
      exact settles_thenStep (follows.afterLast standing) fun _ => follows.previous
  | beforeFirst =>
      exact settles_placed (follows.beforeFirst standing)
  | afterLast =>
      exact settles_placed (follows.afterLast standing)
  | before element =>
      exact settles_placed (follows.before element standing)
  | after element =>
      exact settles_placed (follows.after element standing)

theorem Settles.exists_stands
    {isSingle : Bool}
    {before : Position}
    {expected : Report × Position}
    {moved : Moved Report State}
    (settled : Settles regime stands isSingle before expected moved) :
    ∃ place, stands moved.2 place := by
  obtain ⟨cause | report, state⟩ := moved
  · exact settled.2.1
  · exact ⟨expected.2, settled.2⟩

/-! ## Runs with failed moves -/

/-- The moves of a run that did not fail, each with what was seen after it. -/
def answered
    (moves : List (Move Element))
    (seen : List (Observation Element)) :
    List (Move Element × Observation Element) :=
  (moves.zip seen).filter fun made => made.2.result.isOk

/-- If all moves that failed are single ones, the others are made as if these were not there. -/
theorem Follows.run_answered
    (follows : Follows regime order elements stands)
    (standing : stands state position)
    (moves : List (Move Element)) :
    Ensures regime (Cursor.run state moves) fun outcome =>
      (∀ made ∈ moves.zip outcome.1,
        made.2.result.isOk = false → made.1.isSingle = true) →
      (answered moves outcome.1).map Prod.snd =
        (Position.run elements (Position.perform order elements) position
          ((answered moves outcome.1).map Prod.fst)).1 := by
  induction moves generalizing state position with
  | nil =>
      exact Ensures.pure fun _ => rfl
  | cons move rest inductionHypothesis =>
      refine (follows.settles standing move).bind ?_
      rintro ⟨cause | report, moved⟩ settled
      · by_cases isSingle : move.isSingle = true
        · refine (inductionHypothesis (settled.2.2 isSingle)).bind ?_
          rintro ⟨observations, final⟩ observed
          refine Ensures.pure ?_
          intro single
          exact observed (List.forall_mem_cons.mp single).2
        · obtain ⟨place, standsThere⟩ := settled.2.1
          refine (inductionHypothesis standsThere).bind ?_
          rintro ⟨observations, final⟩ _
          refine Ensures.pure ?_
          intro single
          exact absurd ((List.forall_mem_cons.mp single).1 rfl) isSingle
      · obtain ⟨rfl, standsThere⟩ := settled
        refine (inductionHypothesis standsThere).bind ?_
        rintro ⟨observations, final⟩ observed
        refine Ensures.pure ?_
        intro single
        have seen := observed (List.forall_mem_cons.mp single).2
        have shown :
            answered (move :: rest)
                (⟨.ok (position.perform order elements move).1, available moved, get moved⟩ ::
                  observations) =
              (move, ⟨.ok (position.perform order elements move).1, available moved, get moved⟩) ::
                answered rest observations :=
          rfl
        dsimp only at seen ⊢
        rw [shown, List.map_cons, List.map_cons, Position.run_cons, ← seen,
          follows.available_eq standsThere, follows.get_eq standsThere]

end Cursor

end OrderedIndex

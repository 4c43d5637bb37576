import OrderedIndex.Proofs.Master.Reachable
import OrderedIndex.Proofs.Master.Replacement

namespace OrderedIndex

/-!
# Identifiers

A master table advances its sequence when it hands out an identifier, when an
entry is stored above it, and when it takes over a snapshot.  So the sequence
covers every identifier that was ever used, and a new one is above them all.
-/

variable {Value : Type}

/-- Whether a call stores an entry. -/
def MasterCall.stores : MasterCall Value → Bool
  | .put _ _ => true
  | _ => false

namespace MasterEvent

/-- The identifier that was handed out. -/
def allotted? (event : MasterEvent Value) : Option UInt64 :=
  match event.answer with
  | .allotted answer => answer.toOption
  | _ => none

/-- The identifier that was handed out, or that an entry was put under. -/
def used? (event : MasterEvent Value) : Option UInt64 :=
  match event.call with
  | .put id _ => some id
  | _ => event.allotted?

end MasterEvent

namespace MasterTable

variable
  {config : MasterTableConfig}
  {codec : Codec Value}
  {start master final : MasterTable Value}
  {history later : List (MasterEvent Value)}

/-! ## One call -/

section Call

variable {call : MasterCall Value} {answer : MasterAnswer} {after : MasterTable Value}

/-- Where the sequence moves with an event. -/
inductive Moves (sequence : UInt64) (event : MasterEvent Value) : UInt64 → Prop where
  | stays
      (unused : event.used? = none)
      (withheld : event.allotted? = none) :
      Moves sequence event sequence
  | steps
      {id : UInt64}
      (used : event.used? = some id)
      (allotted : event.allotted? = some id)
      (id_eq : id.toNat = sequence.toNat + 1) :
      Moves sequence event id
  | rises
      {id : UInt64}
      (used : event.used? = some id)
      (withheld : event.allotted? = none)
      (stores : event.call.stores = true) :
      Moves sequence event (max sequence id)

theorem Becomes.moves (becomes : master.Becomes call answer after) :
    Moves master.sequence ⟨call, answer⟩ after.sequence := by
  cases becomes with
  | allotted more =>
      exact .steps rfl rfl (toNat_add_one more)
  | exhausted last =>
      exact .stays rfl rfl
  | stored became =>
      exact .rises rfl rfl rfl
  | deleted became =>
      exact .stays rfl rfl
  | noted name value =>
      exact .stays rfl rfl
  | synced answer =>
      exact .stays rfl rfl

namespace Moves

variable {sequence moved : UInt64} {event : MasterEvent Value}

/-- The sequence is not lowered, and what was used is covered. -/
theorem le (moves : Moves sequence event moved) :
    sequence ≤ moved ∧ ∀ id, event.used? = some id → id ≤ moved := by
  cases moves with
  | stays unused withheld =>
      rw [unused]
      exact ⟨UInt64.le_refl _, nofun⟩
  | steps used allotted id_eq =>
      rw [used]
      refine ⟨UInt64.le_iff_toNat_le.mpr ?_, ?_⟩
      · rw [id_eq]
        exact Nat.le_succ _
      · rintro id ⟨⟩
        exact UInt64.le_refl _
  | rises used withheld stores =>
      rw [used]
      refine ⟨le_max_of_le_left (UInt64.le_refl _) _, ?_⟩
      rintro id ⟨⟩
      exact le_max_of_le_right _ (UInt64.le_refl _)

/-- What is handed out is above the sequence. -/
theorem lt_of_allotted
    (moves : Moves sequence event moved)
    {id : UInt64}
    (isAllotted : event.allotted? = some id) :
    sequence < id := by
  cases moves with
  | stays unused withheld =>
      rw [withheld] at isAllotted
      contradiction
  | steps used allotted id_eq =>
      cases allotted.symm.trans isAllotted
      rw [UInt64.lt_iff_toNat_lt, id_eq]
      exact Nat.lt_succ_self _
  | rises used withheld stores =>
      rw [withheld] at isAllotted
      contradiction

/-- Without an entry being stored, the sequence moves to what is handed out. -/
theorem eq_of_stores_eq_false
    (moves : Moves sequence event moved)
    (storesNot : event.call.stores = false) :
    (event.allotted? = none ∧ moved = sequence) ∨
      ∃ id, event.allotted? = some id ∧ id.toNat = sequence.toNat + 1 ∧ moved = id := by
  cases moves with
  | stays unused withheld =>
      exact Or.inl ⟨withheld, rfl⟩
  | steps used allotted id_eq =>
      exact Or.inr ⟨_, allotted, id_eq, rfl⟩
  | rises used withheld stores =>
      rw [stores] at storesNot
      contradiction

end Moves

/-- A table whose sequence is at the end hands out nothing. -/
theorem nextId_of_last (last : master.sequence = lastId) :
    master.nextId = (.error (.idsExhausted master.table.name), master) := by
  rw [nextId, if_pos last]

end Call

/-! ## Runs of calls -/

/-- A run does not lower the sequence, and whatever it has used is covered. -/
theorem Ran.sequence_le
    (sound : Sound config codec start)
    (ran : Ran start history master) :
    start.sequence ≤ master.sequence ∧
      ∀ event ∈ history, ∀ id, event.used? = some id → id ≤ master.sequence := by
  induction ran with
  | started =>
      refine ⟨UInt64.le_refl _, ?_⟩
      intro event member
      contradiction
  | called before call host inductionHypothesis =>
      obtain ⟨grown, covered⟩ := inductionHypothesis
      obtain ⟨grows, coversLast⟩ := ((sound.ran before).becomes call host).moves.le
      refine ⟨UInt64.le_trans grown grows, ?_⟩
      intro event member id used
      rcases List.mem_append.mp member with inHistory | isLast
      · exact UInt64.le_trans (covered event inHistory id used) grows
      · rw [List.mem_singleton.mp isLast] at used
        exact coversLast id used

/-- Whatever a run hands out is above where it started. -/
theorem Ran.lt_of_allotted
    (sound : Sound config codec start)
    (ran : Ran start history master) :
    ∀ id ∈ history.filterMap MasterEvent.allotted?, start.sequence < id := by
  induction ran with
  | started =>
      intro id member
      contradiction
  | called before call host inductionHypothesis =>
      intro id member
      rw [List.filterMap_append] at member
      rcases List.mem_append.mp member with earlier | isLast
      · exact inductionHypothesis id earlier
      · obtain ⟨event, isEvent, allotted⟩ := List.mem_filterMap.mp isLast
        rw [List.mem_singleton.mp isEvent] at allotted
        have above := ((sound.ran before).becomes call host).moves.lt_of_allotted allotted
        have grown := (before.sequence_le sound).1
        rw [UInt64.lt_iff_toNat_lt] at above ⊢
        rw [UInt64.le_iff_toNat_le] at grown
        exact Nat.lt_of_le_of_lt grown above

/-- Whatever a run hands out is above all that it has used before. -/
theorem Ran.above_earlier
    (sound : Sound config codec start)
    (ran : Ran start history master) :
    history.Pairwise fun earlier later =>
      ∀ used id, earlier.used? = some used → later.allotted? = some id → used < id := by
  induction ran with
  | started =>
      exact List.Pairwise.nil
  | called before call host inductionHypothesis =>
      refine List.pairwise_append.mpr ⟨inductionHypothesis, List.pairwise_singleton _ _, ?_⟩
      intro earlier member last isLast used id isUsed allotted
      rw [List.mem_singleton.mp isLast] at allotted
      have covered := (before.sequence_le sound).2 earlier member used isUsed
      have above := ((sound.ran before).becomes call host).moves.lt_of_allotted allotted
      rw [UInt64.lt_iff_toNat_lt] at above ⊢
      rw [UInt64.le_iff_toNat_le] at covered
      exact Nat.lt_of_le_of_lt covered above

/-- Once the sequence is at its end it stays there. -/
theorem Ran.sequence_eq_last
    (sound : Sound config codec start)
    (ran : Ran start history master)
    (last : start.sequence = lastId) :
    master.sequence = lastId := by
  have grown := (ran.sequence_le sound).1
  have bounded := master.sequence.toNat_lt
  rw [last, UInt64.le_iff_toNat_le] at grown
  have last_eq : lastId.toNat = 2 ^ 64 - 1 := rfl
  exact UInt64.toNat_inj.mp (by omega)

/-- Where no entry is stored, a run hands out consecutive numbers. -/
theorem Ran.consecutive
    (sound : Sound config codec start)
    (ran : Ran start history master)
    (storesNot : ∀ event ∈ history, event.call.stores = false) :
    (history.filterMap MasterEvent.allotted?).map UInt64.toNat =
        List.range' (start.sequence.toNat + 1)
          (history.filterMap MasterEvent.allotted?).length ∧
      master.sequence.toNat =
        start.sequence.toNat + (history.filterMap MasterEvent.allotted?).length := by
  induction ran with
  | started =>
      exact ⟨rfl, rfl⟩
  | called before call host inductionHypothesis =>
      obtain ⟨earlierStoresNot, lastStoresNot⟩ := List.forall_mem_append.mp storesNot
      obtain ⟨numbers, reached⟩ := inductionHypothesis earlierStoresNot
      have moves := ((sound.ran before).becomes call host).moves
      rw [List.filterMap_append]
      rcases moves.eq_of_stores_eq_false (lastStoresNot _ (List.mem_singleton_self _)) with
        ⟨nothing, sequence_eq⟩ | ⟨id, allotted, id_eq, sequence_eq⟩
      · rw [List.filterMap_cons_none nothing, List.filterMap_nil, List.append_nil, sequence_eq]
        exact ⟨numbers, reached⟩
      · have next_eq :
            id.toNat =
              start.sequence.toNat + 1 + (List.filterMap MasterEvent.allotted? _).length :=
          id_eq.trans (by rw [reached]; exact Nat.add_right_comm _ _ _)
        rw [List.filterMap_cons_some allotted, List.filterMap_nil, List.length_append,
          List.length_singleton, List.range'_1_concat, List.map_append, numbers, sequence_eq]
        refine ⟨?_, ?_⟩
        · exact congrArg (_ ++ [·]) next_eq
        · rw [next_eq]
          exact Nat.add_right_comm _ _ _

/-- How the identifiers of a run compare with all that have been used, and go on after it. -/
structure HandsOutFresh
    (start : MasterTable Value)
    (history : List (MasterEvent Value))
    (master : MasterTable Value) :
    Prop where
  above_start :
    ∀ id ∈ history.filterMap MasterEvent.allotted?,
      1 ≤ id ∧ ∀ entry ∈ start.table.toList, entry.1 < id
  above_earlier :
    history.Pairwise fun earlier later =>
      ∀ used id, earlier.used? = some used → later.allotted? = some id → used < id
  /-- The sequence covers what is stored and what was ever used. -/
  covers_stored : ∀ entry ∈ master.table.toList, entry.1 ≤ master.sequence
  covers_used : ∀ event ∈ history, ∀ id, event.used? = some id → id ≤ master.sequence
  /-- The sequence never decreases. -/
  sequence_le : ∀ {later final}, Ran master later final → master.sequence ≤ final.sequence
  nextId_eq :
    master.sequence ≠ lastId →
    ∃ id,
      master.nextId = (.ok id, { master with sequence := id }) ∧
        id.toNat = master.sequence.toNat + 1
  /-- Once the last identifier is handed out or stored, no call changes that. -/
  exhausted :
    master.sequence = lastId →
    ∀ {later final},
      Ran master later final →
      final.nextId = (.error (.idsExhausted start.table.name), final)
  /-- Without an entry being stored, identifiers are consecutive. -/
  consecutive :
    ∀ {later final},
      Ran master later final →
      (∀ event ∈ later, event.call.stores = false) →
      (later.filterMap MasterEvent.allotted?).map UInt64.toNat =
          List.range' (master.sequence.toNat + 1)
            (later.filterMap MasterEvent.allotted?).length ∧
        final.sequence.toNat =
          master.sequence.toNat + (later.filterMap MasterEvent.allotted?).length

/-- However a table was opened and whatever calls were made of it, no identifier is used again. -/
theorem Ran.handsOutFresh
    {host : Host}
    (opens : (ofConfig config codec host).1 = .ok start)
    (ran : Ran start history master) :
    HandsOutFresh start history master := by
  have startSound := sound_of_ofConfig opens
  have sound := startSound.ran ran
  refine
    ⟨?_, ran.above_earlier startSound, fun _ => sound.le_sequence,
      (ran.sequence_le startSound).2, fun ranOn => (ranOn.sequence_le sound).1, ?_, ?_,
      fun ranOn => ranOn.consecutive sound⟩
  · intro id allotted
    have above := UInt64.lt_iff_toNat_lt.mp (ran.lt_of_allotted startSound id allotted)
    constructor
    · rw [UInt64.le_iff_toNat_le]
      exact Nat.succ_le_of_lt (Nat.zero_lt_of_lt above)
    · intro entry member
      have covered := UInt64.le_iff_toNat_le.mp (startSound.le_sequence member)
      rw [UInt64.lt_iff_toNat_lt]
      exact Nat.lt_of_le_of_lt covered above
  · intro more
    refine ⟨master.sequence + 1, ?_, toNat_add_one more⟩
    rw [nextId, if_neg more]
  · intro last later final ranOn
    have finalSound := sound.ran ranOn
    rw [nextId_of_last (ranOn.sequence_eq_last sound last), finalSound.name_eq,
      startSound.name_eq]

/-- A snapshot whose sequence is below the identifier that it stores. -/
def lateSnapshot : Bytes :=
  Snapshot.encode
    ⟨3, [], TreeFormat.bytesUnder 0 [⟨noNode, noNode, 0, Bytes.ofUInt64 9, []⟩]⟩

/-- A host with that snapshot in its working directory. -/
def lateHost : Host :=
  ⟨.undescribed Backend.firstId .empty,
    FileSystem.empty.put (Place.workingDirectory.child "t") (.file lateSnapshot)⟩

/-- After `9` was loaded and `20` was stored, `10` and `21` are handed out. -/
theorem handsOutFresh_lateHost :
    ∃ start history master,
      (ofConfig ⟨"t", some "t"⟩ .unit lateHost).1 = .ok start ∧
        start.table.toList = [(9, ())] ∧
          Ran start history master ∧
            history.filterMap MasterEvent.allotted? = [10, 21] ∧
              HandsOutFresh start history master := by
  have plain : FileSystem.PlainName "t" := by
    constructor <;> decide
  have read : lateHost.files.read "t" = .ok lateSnapshot :=
    FileSystem.read_eq_ok_iff.mpr ⟨_, plain.resolve_eq, rfl⟩
  have opens :
      (ofConfig ⟨"t", some "t"⟩ .unit lateHost).1 =
        opened ⟨"t", some "t"⟩ .unit (lateHost.files.read "t") :=
    ofConfig_eq _ _ _
  rw [read] at opens
  have ran (start : MasterTable Unit) :=
    (((@Ran.started Unit start).called .nextId lateHost).called (.put 20 ()) lateHost).called
      .nextId lateHost
  exact ⟨_, _, _, opens, rfl, ran _, rfl, (ran _).handsOutFresh opens⟩

end MasterTable

end OrderedIndex

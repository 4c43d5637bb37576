import Mathlib.Data.List.Forall2
import OrderedIndex.Bytes.Utf8

namespace OrderedIndex.Utf8

/-!
# Well-formed UTF-8

A byte string is well-formed if it is one sequence after the other, each with
a lead byte and the bytes that may follow it: no longer form than needed, no
surrogate, nothing past U+10FFFF and nothing that breaks off.  The sequences are
those of the table that faults are found with, and the encodings of characters.
So the byte strings that decode are the well-formed ones, and any other one has
a first fault.
-/

/-- Whether a byte continues a sequence. -/
def Continues (byte : UInt8) : Prop := 0x80 ≤ byte.toNat ∧ byte.toNat ≤ 0xBF

/-- The sequences by their number of bytes. -/
inductive Sequence : Bytes → Prop where
  | one
      {lead : UInt8}
      (leadRange : lead.toNat ≤ 0x7F) :
      Sequence [lead]
  | two
      {lead second : UInt8}
      (leadRange : 0xC2 ≤ lead.toNat ∧ lead.toNat ≤ 0xDF)
      (secondContinues : Continues second) :
      Sequence [lead, second]
  | three
      {lead second third : UInt8}
      (leadRange : 0xE0 ≤ lead.toNat ∧ lead.toNat ≤ 0xEF)
      (secondContinues : Continues second)
      (thirdContinues : Continues third)
      (shortest : lead.toNat = 0xE0 → 0xA0 ≤ second.toNat)
      (noSurrogate : lead.toNat = 0xED → second.toNat ≤ 0x9F) :
      Sequence [lead, second, third]
  | four
      {lead second third fourth : UInt8}
      (leadRange : 0xF0 ≤ lead.toNat ∧ lead.toNat ≤ 0xF4)
      (secondContinues : Continues second)
      (thirdContinues : Continues third)
      (fourthContinues : Continues fourth)
      (shortest : lead.toNat = 0xF0 → 0x90 ≤ second.toNat)
      (notPast : lead.toNat = 0xF4 → second.toNat ≤ 0x8F) :
      Sequence [lead, second, third, fourth]

/-- One sequence after the other. -/
inductive WellFormed : Bytes → Prop where
  | nil : WellFormed []
  | cons
      {first rest : Bytes}
      (sequence : Sequence first)
      (restFormed : WellFormed rest) :
      WellFormed (first ++ rest)

variable {bytes : Bytes}

/-! ## The table -/

/-- One byte for each range. -/
abbrev Within (ranges : List ByteRange) (bytes : Bytes) : Prop :=
  List.Forall₂ (fun range byte => ByteRange.contains range byte = true) ranges bytes

/-- A lead byte with one byte for each range that may follow it. -/
def IsTabled (bytes : Bytes) : Prop :=
  ∃ lead ranges rest, bytes = lead :: rest ∧ following? lead = some ranges ∧ Within ranges rest

/-- What may follow a lead byte, by the number of the byte. -/
theorem following?_eq (lead : UInt8) :
    following? lead =
      if lead.toNat < 0x80 then some []
      else if lead.toNat < 0xC2 then none
      else if lead.toNat < 0xE0 then some [.continuation]
      else if lead.toNat = 0xE0 then some [⟨0xA0, 0xBF⟩, .continuation]
      else if lead.toNat = 0xED then some [⟨0x80, 0x9F⟩, .continuation]
      else if lead.toNat < 0xF0 then some [.continuation, .continuation]
      else if lead.toNat = 0xF0 then some [⟨0x90, 0xBF⟩, .continuation, .continuation]
      else if lead.toNat < 0xF4 then some [.continuation, .continuation, .continuation]
      else if lead.toNat = 0xF4 then some [⟨0x80, 0x8F⟩, .continuation, .continuation]
      else none := by
  simp only [following?, UInt8.lt_iff_toNat_lt, ← UInt8.toNat_inj, UInt8.reduceToNat]

/-- A byte is in a range if its number is between the ends. -/
theorem contains_iff {low high byte : UInt8} :
    ByteRange.contains ⟨low, high⟩ byte = true ↔
      low.toNat ≤ byte.toNat ∧ byte.toNat ≤ high.toNat := by
  simp [ByteRange.contains, UInt8.le_iff_toNat_le]

theorem contains_continuation {byte : UInt8} :
    ByteRange.continuation.contains byte = true ↔ Continues byte :=
  contains_iff

/-- A sequence that the table admits is one of the well-formed ones. -/
theorem Sequence.of_isTabled (isTabled : IsTabled bytes) : Sequence bytes := by
  obtain ⟨lead, ranges, rest, rfl, following, within⟩ := isTabled
  rw [following?_eq] at following
  split_ifs at following <;>
    cases following <;>
      simp only [List.forall₂_cons_left_iff, List.forall₂_nil_left_iff, contains_iff,
        contains_continuation, UInt8.reduceToNat] at within
  · subst within
    exact .one (by omega)
  · obtain ⟨second, _, continues, rfl, rfl⟩ := within
    exact .two (by omega) continues
  all_goals unfold Continues at within
  iterate 3
    · obtain ⟨second, _, secondRange, ⟨third, _, thirdRange, rfl, rfl⟩, rfl⟩ := within
      exact .three (by omega) ⟨by omega, by omega⟩ thirdRange (by omega) (by omega)
  iterate 3
    · obtain ⟨second, _, secondRange, ⟨third, _, thirdRange, ⟨fourth, _, fourthRange, rfl, rfl⟩,
        rfl⟩, rfl⟩ := within
      exact .four (by omega) ⟨by omega, by omega⟩ thirdRange fourthRange (by omega) (by omega)

/-- A lead byte and what may follow it are admitted by the table. -/
theorem isTabled_of_following
    {lead : UInt8}
    {ranges : List ByteRange}
    {rest : Bytes}
    (following : following? lead = some ranges)
    (within : Within ranges rest) :
    IsTabled (lead :: rest) :=
  ⟨lead, ranges, rest, rfl, following, within⟩

/-- A well-formed sequence is admitted by the table. -/
theorem Sequence.isTabled (sequence : Sequence bytes) : IsTabled bytes := by
  cases sequence with
  | @one lead leadRange =>
      have following := following?_eq lead
      rw [if_pos (by omega)] at following
      exact isTabled_of_following following .nil
  | @two lead second leadRange continues =>
      have following := following?_eq lead
      rw [if_neg (by omega), if_neg (by omega), if_pos (by omega)] at following
      exact isTabled_of_following following (.cons (contains_continuation.mpr continues) .nil)
  | @three lead second third leadRange secondContinues thirdContinues shortest noSurrogate =>
      have following := following?_eq lead
      rw [if_neg (by omega), if_neg (by omega), if_neg (by omega)] at following
      have last : Within [.continuation] [third] :=
        .cons (contains_continuation.mpr thirdContinues) .nil
      have secondRange : 0x80 ≤ second.toNat ∧ second.toNat ≤ 0xBF := secondContinues
      split_ifs at following with least beforeSurrogates below
      · exact isTabled_of_following following
          (.cons (contains_iff.mpr ⟨shortest least, secondRange.2⟩) last)
      · exact isTabled_of_following following
          (.cons (contains_iff.mpr ⟨secondRange.1, noSurrogate beforeSurrogates⟩) last)
      · exact isTabled_of_following following
          (.cons (contains_continuation.mpr secondContinues) last)
      all_goals omega
  | @four lead second third fourth leadRange secondContinues thirdContinues fourthContinues
      shortest notPast =>
      have following := following?_eq lead
      rw [if_neg (by omega), if_neg (by omega), if_neg (by omega), if_neg (by omega),
        if_neg (by omega), if_neg (by omega)] at following
      have last : Within [.continuation, .continuation] [third, fourth] :=
        .cons (contains_continuation.mpr thirdContinues)
          (.cons (contains_continuation.mpr fourthContinues) .nil)
      have secondRange : 0x80 ≤ second.toNat ∧ second.toNat ≤ 0xBF := secondContinues
      split_ifs at following with least below greatest
      · exact isTabled_of_following following
          (.cons (contains_iff.mpr ⟨shortest least, secondRange.2⟩) last)
      · exact isTabled_of_following following
          (.cons (contains_continuation.mpr secondContinues) last)
      · exact isTabled_of_following following
          (.cons (contains_iff.mpr ⟨secondRange.1, notPast greatest⟩) last)
      all_goals omega

/-! ## Code points in numbers -/

/-- The numbers that the bytes of a code point are. -/
def codeUnits (point : Nat) : List Nat :=
  if point ≤ 0x7F then [point]
  else if point ≤ 0x7FF then [0xC0 + point / 64, 0x80 + point % 64]
  else if point ≤ 0xFFFF then
    [0xE0 + point / 4096, 0x80 + point / 64 % 64, 0x80 + point % 64]
  else
    [0xF0 + point / 262144, 0x80 + point / 4096 % 64, 0x80 + point / 64 % 64,
      0x80 + point % 64]

/-- The bytes of a character are the code units of its number. -/
theorem encodeChar_eq (character : Char) :
    (String.utf8EncodeChar character).map UInt8.toNat = codeUnits character.toNat := by
  have valid : character.toNat.isValidChar := character.valid
  unfold String.utf8EncodeChar codeUnits
  dsimp only [Char.toNat] at valid ⊢
  split_ifs <;>
    simp only [List.map_cons, List.map_nil, UInt8.toNat_ofNat', List.cons.injEq, and_true] <;>
      omega

/-- Bytes are those of a character if they are the code units of its number. -/
theorem encodeChar_eq_iff {character : Char} :
    String.utf8EncodeChar character = bytes ↔
      bytes.map UInt8.toNat = codeUnits character.toNat := by
  rw [← encodeChar_eq, eq_comm]
  exact (List.map_injective_iff.mpr fun _ _ => UInt8.toNat_inj.mp).eq_iff.symm

/-- The bytes of a character are a well-formed sequence. -/
theorem sequence_encodeChar (character : Char) : Sequence (String.utf8EncodeChar character) := by
  have valid : character.toNat.isValidChar := character.valid
  have units := encodeChar_eq character
  generalize String.utf8EncodeChar character = bytes at units ⊢
  unfold codeUnits at units
  split_ifs at units <;> simp only [List.map_eq_cons_iff, List.map_eq_nil_iff] at units
  · obtain ⟨lead, _, rfl, leadUnit, rfl⟩ := units
    exact .one (by omega)
  · obtain ⟨lead, _, rfl, leadUnit, second, _, rfl, secondUnit, rfl⟩ := units
    exact .two (by omega) ⟨by omega, by omega⟩
  · obtain ⟨lead, _, rfl, leadUnit, second, _, rfl, secondUnit, third, _, rfl, thirdUnit, rfl⟩ :=
      units
    exact .three (by omega) ⟨by omega, by omega⟩ ⟨by omega, by omega⟩ (by omega) (by omega)
  · obtain ⟨lead, _, rfl, leadUnit, second, _, rfl, secondUnit, third, _, rfl, thirdUnit, fourth,
      _, rfl, fourthUnit, rfl⟩ := units
    exact .four (by omega) ⟨by omega, by omega⟩ ⟨by omega, by omega⟩ ⟨by omega, by omega⟩
      (by omega) (by omega)

/-- Bytes with the numbers of a code point are those of its character. -/
theorem exists_encodeChar_eq
    (point : Nat)
    (valid : point.isValidChar)
    (units : bytes.map UInt8.toNat = codeUnits point) :
    ∃ character, String.utf8EncodeChar character = bytes :=
  ⟨Char.ofNatAux point valid, encodeChar_eq_iff.mpr units⟩

/-- Every well-formed sequence is that of a character. -/
theorem Sequence.exists_encodeChar (sequence : Sequence bytes) :
    ∃ character, String.utf8EncodeChar character = bytes := by
  cases sequence with
  | @one lead leadRange =>
      refine exists_encodeChar_eq lead.toNat (.inl (by omega)) ?_
      rw [codeUnits, if_pos leadRange]
      rfl
  | @two lead second leadRange continues =>
      obtain ⟨secondLow, secondHigh⟩ := continues
      let point := (lead.toNat - 0xC0) * 64 + (second.toNat - 0x80)
      refine exists_encodeChar_eq point (.inl (by omega)) ?_
      rw [codeUnits, if_neg (by omega), if_pos (by omega)]
      simp only [List.map_cons, List.map_nil, List.cons.injEq, and_true]
      omega
  | @three lead second third leadRange secondContinues thirdContinues shortest noSurrogate =>
      unfold Continues at secondContinues thirdContinues
      let point :=
        (lead.toNat - 0xE0) * 4096 + (second.toNat - 0x80) * 64 + (third.toNat - 0x80)
      have valid : point.isValidChar := by
        unfold Nat.isValidChar
        omega
      refine exists_encodeChar_eq point valid ?_
      rw [codeUnits, if_neg (by omega), if_neg (by omega), if_pos (by omega)]
      simp only [List.map_cons, List.map_nil, List.cons.injEq, and_true]
      omega
  | @four lead second third fourth leadRange secondContinues thirdContinues fourthContinues
      shortest notPast =>
      unfold Continues at secondContinues thirdContinues fourthContinues
      let point :=
        (lead.toNat - 0xF0) * 262144 + (second.toNat - 0x80) * 4096 + (third.toNat - 0x80) * 64 +
          (fourth.toNat - 0x80)
      refine exists_encodeChar_eq point (.inr (by omega)) ?_
      rw [codeUnits, if_neg (by omega), if_neg (by omega), if_neg (by omega)]
      simp only [List.map_cons, List.map_nil, List.cons.injEq, and_true]
      omega

/-! ## Byte strings that decode -/

/-- A byte string is well-formed exactly if it is the encoding of characters. -/
theorem wellFormed_iff :
    WellFormed bytes ↔
      ∃ characters : List Char, characters.flatMap String.utf8EncodeChar = bytes := by
  constructor
  · intro wellFormed
    induction wellFormed with
    | nil =>
        exact ⟨[], rfl⟩
    | cons sequence _ inductionHypothesis =>
        obtain ⟨character, rfl⟩ := sequence.exists_encodeChar
        obtain ⟨characters, rfl⟩ := inductionHypothesis
        exact ⟨character :: characters, rfl⟩
  · rintro ⟨characters, rfl⟩
    induction characters with
    | nil =>
        exact .nil
    | cons character rest inductionHypothesis =>
        exact .cons (sequence_encodeChar character) inductionHypothesis

/-- A byte string decodes exactly if it is well-formed. -/
theorem exists_decode_eq_ok_iff : (∃ text, decode bytes = .ok text) ↔ WellFormed bytes := by
  have encode_eq (characters : List Char) :
      encode (String.ofList characters) = characters.flatMap String.utf8EncodeChar := by
    simp [encode, List.utf8Encode]
  rw [wellFormed_iff]
  constructor
  · rintro ⟨text, decoded⟩
    refine ⟨text.toList, ?_⟩
    rw [← encode_eq, String.ofList_toList, encode_of_decode decoded]
  · rintro ⟨characters, rfl⟩
    exact ⟨String.ofList characters, by rw [← encode_eq, decode_encode]⟩

/-! ## The first fault -/

/-- A byte string is well formed if its first sequence is and the rest is. -/
theorem wellFormed_cons_iff
    {lead : UInt8}
    {others : Bytes} :
    WellFormed (lead :: others) ↔
      ∃ ranges, following? lead = some ranges ∧
        ∃ front rest, others = front ++ rest ∧ Within ranges front ∧ WellFormed rest := by
  constructor
  · generalize split : lead :: others = bytes
    intro wellFormed
    cases wellFormed with
    | nil =>
        cases split
    | cons sequence restFormed =>
        obtain ⟨_, ranges, front, rfl, following, within⟩ := sequence.isTabled
        obtain ⟨rfl, rfl⟩ := List.cons.inj split
        exact ⟨ranges, following, front, _, rfl, within, restFormed⟩
  · rintro ⟨ranges, following, front, rest, rfl, within, restFormed⟩
    exact .cons (Sequence.of_isTabled ⟨lead, ranges, front, rfl, following, within⟩) restFormed

/-- No fault is found if what is pending follows and the rest is well-formed. -/
theorem faultFrom?_eq_none_iff
    {start seen : Nat}
    {pending : List ByteRange} :
    faultFrom? start seen pending bytes = none ↔
      ∃ front rest, bytes = front ++ rest ∧ Within pending front ∧ WellFormed rest := by
  induction bytes generalizing start seen pending with
  | nil =>
      cases pending with
      | nil =>
          exact iff_of_true rfl ⟨[], [], rfl, .nil, .nil⟩
      | cons range ranges =>
          refine iff_of_false (by simp [faultFrom?]) ?_
          rintro ⟨front, rest, split, within, _⟩
          obtain ⟨rfl, rfl⟩ := List.append_eq_nil_iff.mp split.symm
          cases within
  | cons byte others inductionHypothesis =>
      cases pending with
      | nil =>
          rw [faultFrom?]
          have split : (∃ front rest, byte :: others = front ++ rest ∧ Within [] front ∧
              WellFormed rest) ↔ WellFormed (byte :: others) := by
            simp [Within]
          rw [split, wellFormed_cons_iff]
          cases following? byte with
          | none =>
              simp
          | some ranges =>
              simp only [inductionHypothesis, Option.some.injEq, exists_eq_left']
      | cons range ranges =>
          rw [faultFrom?]
          split
          next contains =>
            rw [inductionHypothesis]
            constructor
            · rintro ⟨front, rest, rfl, within, restFormed⟩
              exact ⟨byte :: front, rest, rfl, .cons contains within, restFormed⟩
            · rintro ⟨_, rest, split, within, restFormed⟩
              cases within with
              | cons _ othersWithin =>
                  obtain ⟨rfl, rfl⟩ := List.cons.inj split
                  exact ⟨_, rest, rfl, othersWithin, restFormed⟩
          next outside =>
            refine iff_of_false (by simp) ?_
            rintro ⟨_, rest, split, within, _⟩
            cases within with
            | cons contains _ =>
                obtain ⟨rfl, rfl⟩ := List.cons.inj split
                exact outside contains

/-- A byte string has no fault exactly if it is well-formed. -/
theorem fault?_eq_none_iff : fault? bytes = none ↔ WellFormed bytes := by
  rw [fault?, faultFrom?_eq_none_iff]
  constructor
  · rintro ⟨front, rest, rfl, within, restFormed⟩
    cases within
    exact restFormed
  · intro wellFormed
    exact ⟨[], bytes, rfl, .nil, wellFormed⟩

/-- A byte string that does not decode is refused with its first fault. -/
theorem decode_eq_error_iff {fault : Fault} :
    decode bytes = .error fault ↔ fault? bytes = some fault := by
  have decodes : (∃ text, decode bytes = .ok text) ↔ fault? bytes = none :=
    exists_decode_eq_ok_iff.trans fault?_eq_none_iff.symm
  unfold decode at decodes ⊢
  cases read : String.fromUTF8? ⟨bytes.toArray⟩ with
  | some text =>
      have faultless : fault? bytes = none := decodes.mp ⟨text, by rw [read]⟩
      simp [faultless]
  | none =>
      cases found : fault? bytes with
      | none =>
          obtain ⟨text, decoded⟩ := decodes.mpr found
          rw [read] at decoded
          cases decoded
      | some first =>
          simp

end OrderedIndex.Utf8

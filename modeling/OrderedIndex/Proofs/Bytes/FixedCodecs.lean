import Mathlib.Data.List.Induction
import Mathlib.Tactic.Ring
import OrderedIndex.Proofs.Bytes.Utf8
import OrderedIndex.Proofs.Codec

namespace OrderedIndex

/-!
# The fixed codecs as bijections

Each fixed codec pairs its values with a set of byte strings: it appends the
bytes of a value to whatever the buffer holds, reads them back, and reads no
other bytes.  Big-endian words keep numeric order besides, as the first byte
that differs is the most significant one that does.
-/

namespace BigEndian

theorem decode_cons
    (digit : UInt8)
    (digits : Bytes) :
    decode (digit :: digits) = digit.toNat * Nat.pow 256 digits.length + decode digits := by
  -- Digits come in at the end, so the induction takes them off there.
  induction digits using List.reverseRecOn with
  | nil =>
      simp [decode]
  | append_singleton digits last inductionHypothesis =>
      have power : Nat.pow 256 (digits.length + 1) = Nat.pow 256 digits.length * 256 := rfl
      rw [← List.cons_append, decode_append_singleton, decode_append_singleton,
        inductionHypothesis, List.length_append, List.length_singleton, power]
      ring

/-- Byte strings of one length are ordered as the numbers that they spell. -/
theorem decode_lt_decode_iff
    {first second : Bytes}
    (sameLength : first.length = second.length) :
    decode first < decode second ↔ first < second := by
  induction first generalizing second with
  | nil =>
      obtain rfl : second = [] := List.eq_nil_of_length_eq_zero sameLength.symm
      simp
  | cons digit digits inductionHypothesis =>
      obtain ⟨otherDigit, otherDigits, rfl⟩ := List.exists_cons_of_length_eq_add_one sameLength.symm
      have same : digits.length = otherDigits.length := Nat.succ.inj sameLength
      have below := decode_lt digits
      have otherBelow := decode_lt otherDigits
      rw [same] at below
      rw [List.cons_lt_cons_iff, ← inductionHypothesis same, decode_cons, decode_cons, same,
        UInt8.lt_iff_toNat_lt, ← UInt8.toNat_inj]
      generalize Nat.pow 256 otherDigits.length = place at below otherBelow ⊢
      -- A larger digit outweighs all that the digits behind it can spell.
      obtain less | equal | greater := Nat.lt_trichotomy digit.toNat otherDigit.toNat
      · have outweighs := Nat.mul_le_mul_right place (Nat.succ_le_of_lt less)
        rw [Nat.succ_mul] at outweighs
        exact iff_of_true (by omega) (.inl less)
      · simp [equal]
      · have outweighs := Nat.mul_le_mul_right place (Nat.succ_le_of_lt greater)
        rw [Nat.succ_mul] at outweighs
        exact iff_of_false (by omega) (by omega)

end BigEndian

/-- Written words are ordered as their numbers. -/
theorem Bytes.ofUInt64_lt_ofUInt64_iff {first second : UInt64} :
    Bytes.ofUInt64 first < Bytes.ofUInt64 second ↔ first < second := by
  have decode_word (number : UInt64) :
      BigEndian.decode (Bytes.ofUInt64 number) = number.toNat := by
    have small : number.toNat < Nat.pow 256 8 := number.toNat_lt
    rw [Bytes.ofUInt64, BigEndian.decode_encode, Nat.mod_eq_of_lt small]
  have sameLength : (Bytes.ofUInt64 first).length = (Bytes.ofUInt64 second).length := by
    simp [Bytes.ofUInt64]
  rw [← BigEndian.decode_lt_decode_iff sameLength, decode_word, decode_word,
    UInt64.lt_iff_toNat_lt]

namespace Codec

variable {Element : Type} {codec : Codec Element} {write : Element → Bytes}

/-- A codec pairs its values with the byte strings that it accepts. -/
structure Pairs
    (codec : Codec Element)
    (write : Element → Bytes)
    (accepted : Bytes → Prop) : Prop where
  /-- What the buffer held stays in front of the bytes of the value. -/
  append_eq : ∀ buffer value, codec.append buffer value = .ok (buffer ++ write value)
  decode_write : ∀ value, codec.decode (write value) = .ok value
  write_of_decode : ∀ bytes value, codec.decode bytes = .ok value → write value = bytes
  accepts_iff : ∀ bytes, (∃ value, codec.decode bytes = .ok value) ↔ accepted bytes

/-- An exact codec that writes every value accepts what it writes. -/
theorem Exact.pairs
    {accepted : Bytes → Prop}
    (exact : codec.Exact)
    (encodes : ∀ value, codec.encode value = .ok (write value))
    (accepts_iff : ∀ bytes, (∃ value, codec.decode bytes = .ok value) ↔ accepted bytes) :
    codec.Pairs write accepted where
  append_eq buffer value := by
    rw [append, encodes]
    rfl
  decode_write value := exact.roundTrips value _ (encodes value)
  write_of_decode bytes value decoded := by
    have encoded := exact.canonical bytes value decoded
    rw [encodes] at encoded
    exact Except.ok.inj encoded
  accepts_iff := accepts_iff

theorem unit_pairs : unit.Pairs (fun _ => []) fun bytes => bytes = [] := by
  refine exact_unit.pairs (fun _ => rfl) ?_
  intro bytes
  cases bytes <;> simp [unit]

theorem uint64_pairs : uint64.Pairs Bytes.ofUInt64 fun bytes => bytes.length = 8 := by
  refine exact_uint64.pairs (fun _ => rfl) ?_
  intro bytes
  by_cases eight : bytes.length = 8 <;> simp [uint64, eight]

theorem int64_pairs :
    int64.Pairs (fun number => Bytes.ofUInt64 number.toUInt64) fun bytes => bytes.length = 8 := by
  refine exact_int64.pairs (fun _ => rfl) ?_
  intro bytes
  by_cases eight : bytes.length = 8 <;> simp [int64, eight]

theorem string_pairs : string.Pairs Utf8.encode Utf8.WellFormed := by
  refine exact_string.pairs (fun _ => rfl) ?_
  intro bytes
  rw [← Utf8.exists_decode_eq_ok_iff]
  refine exists_congr fun text => exact_string.decode_eq_ok_iff.trans ?_
  constructor
  · intro encoded
    rw [← Except.ok.inj encoded, Utf8.decode_encode]
  · intro decoded
    exact congrArg Except.ok (Utf8.encode_of_decode decoded)

theorem bytes_pairs : bytes.Pairs (fun value => value) fun _ => True :=
  exact_bytes.pairs (fun _ => rfl) fun encoded => iff_of_true ⟨encoded, rfl⟩ trivial

/--
The fixed codecs pair their values with the byte strings that they accept, and
the codec of unsigned words keeps their order.
-/
theorem fixed_pairs :
    (unit.Pairs (fun _ => []) fun bytes => bytes = []) ∧
    (uint64.Pairs Bytes.ofUInt64 fun bytes => bytes.length = 8) ∧
    (int64.Pairs (fun number => Bytes.ofUInt64 number.toUInt64) fun bytes => bytes.length = 8) ∧
    string.Pairs Utf8.encode Utf8.WellFormed ∧
    (bytes.Pairs (fun value => value) fun _ => True) ∧
    ∀ first second : UInt64, first < second ↔ Bytes.ofUInt64 first < Bytes.ofUInt64 second :=
  ⟨unit_pairs, uint64_pairs, int64_pairs, string_pairs, bytes_pairs,
    fun _ _ => Bytes.ofUInt64_lt_ofUInt64_iff.symm⟩

end Codec

end OrderedIndex

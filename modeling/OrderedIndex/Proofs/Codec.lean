import OrderedIndex.Proofs.Bytes.Reading

namespace OrderedIndex.Codec

/-!
# Fixed codecs

The fixed codecs round trip at every value, and the bytes that they accept are
those that they produce.
-/

variable {Element : Type}

/-- An empty buffer then holds the bytes of the value and no more. -/
@[simp] theorem append_nil (codec : Codec Element) (value : Element) :
    codec.append [] value = codec.encode value := by
  cases encoded : codec.encode value <;> rw [append, encoded] <;> rfl

/-- Decoding undoes encoding at every value, and bytes that decode are an encoding. -/
structure Exact (codec : Codec Element) : Prop where
  roundTrips : ∀ value, codec.RoundTripsAt value
  canonical : codec.Canonical

/-- What canonical bytes decode to round trips, for they are the only ones that encode it. -/
theorem Canonical.roundTripsAt
    {codec : Codec Element}
    (canonical : codec.Canonical)
    {bytes : Bytes}
    {value : Element}
    (decoded : codec.decode bytes = .ok value) :
    codec.RoundTripsAt value := by
  intro encoding encoded
  rw [canonical bytes value decoded] at encoded
  exact Except.ok.inj encoded ▸ decoded

/-- An exact codec decodes precisely what it encodes. -/
theorem Exact.decode_eq_ok_iff
    {codec : Codec Element}
    (exact : codec.Exact)
    {bytes : Bytes}
    {value : Element} :
    codec.decode bytes = .ok value ↔ codec.encode value = .ok bytes :=
  ⟨exact.canonical bytes value, exact.roundTrips value bytes⟩

/-- A codec that encodes every value is exact if it decodes precisely its encodings. -/
theorem Exact.of_decode_iff
    {codec : Codec Element}
    {write : Element → Bytes}
    (encodes : ∀ value, codec.encode value = .ok (write value))
    (decodes : ∀ bytes value, codec.decode bytes = .ok value ↔ write value = bytes) :
    codec.Exact where
  roundTrips value bytes encoded := by
    rw [encodes, Except.ok.injEq] at encoded
    exact (decodes bytes value).mpr encoded
  canonical bytes value decoded := by
    rw [encodes, (decodes bytes value).mp decoded]

theorem exact_unit : unit.Exact := by
  refine .of_decode_iff (fun _ => rfl) ?_
  intro bytes value
  cases bytes <;> simp [unit]

/-- Eight bytes spell one 64-bit word. -/
theorem ofUInt64_eq_iff
    {bytes : Bytes}
    {number : UInt64} :
    Bytes.ofUInt64 number = bytes ↔
      bytes.length = 8 ∧ UInt64.ofNat (BigEndian.decode bytes) = number := by
  constructor
  · rintro rfl
    refine ⟨BigEndian.length_encode 8 number.toNat, ?_⟩
    have small : number.toNat < Nat.pow 256 8 := number.toNat_lt
    rw [Bytes.ofUInt64, BigEndian.decode_encode, Nat.mod_eq_of_lt small,
      UInt64.ofNat_toNat]
  · rintro ⟨eight, rfl⟩
    have small : BigEndian.decode bytes < UInt64.size := by
      have below := BigEndian.decode_lt bytes
      rwa [eight] at below
    rw [Bytes.ofUInt64, UInt64.toNat_ofNat_of_lt' small, ← eight, BigEndian.encode_decode]

theorem exact_uint64 : uint64.Exact := by
  refine .of_decode_iff (fun _ => rfl) ?_
  intro bytes number
  rw [ofUInt64_eq_iff]
  by_cases eight : bytes.length = 8 <;> simp [uint64, eight]

theorem exact_int64 : int64.Exact := by
  refine .of_decode_iff (fun _ => rfl) ?_
  intro bytes number
  rw [ofUInt64_eq_iff]
  by_cases eight : bytes.length = 8
  · simp only [int64, eight, ↓reduceIte, Except.ok.injEq, true_and]
    exact ⟨fun same => same ▸ (UInt64.toUInt64_toInt64 _).symm,
      fun same => same ▸ Int64.toInt64_toUInt64 _⟩
  · simp [int64, eight]

theorem exact_string : string.Exact := by
  refine .of_decode_iff (fun _ => rfl) ?_
  intro bytes text
  have decode_eq :
      string.decode bytes = (Utf8.decode bytes).mapError fun fault => .codec fault.message :=
    rfl
  rw [decode_eq]
  constructor
  · intro decoded
    apply Utf8.encode_of_decode
    cases found : Utf8.decode bytes with
    | ok other =>
        rw [found] at decoded
        cases decoded
        rfl
    | error fault =>
        rw [found] at decoded
        contradiction
  · rintro rfl
    rw [Utf8.decode_encode]
    rfl

theorem exact_bytes : bytes.Exact := by
  refine .of_decode_iff (fun _ => rfl) ?_
  intro encoded value
  simp [Codec.bytes, eq_comm]

end OrderedIndex.Codec

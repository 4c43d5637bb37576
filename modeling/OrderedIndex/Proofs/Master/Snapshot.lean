import OrderedIndex.Master.Snapshot
import OrderedIndex.Proofs.Computation
import OrderedIndex.Proofs.Codec

namespace OrderedIndex

/-!
# Stored snapshots

A snapshot is read back as it was written, and nothing else is read: the bytes
that decode are those that a snapshot with fitting lengths is written to.
-/

namespace StoredProperty

/-- Name and value of a property fit their length fields. -/
def Fits (property : StoredProperty) : Prop :=
  property.name.length ≤ payloadLimit ∧ property.value.length ≤ payloadLimit

/-- A property is taken from the bytes that spell it. -/
theorem takes_reader : reader.Takes toBytes Fits := by
  intro bytes property rest
  simp only [reader, Reader.run_bind_of_takes Reader.takes_counted, Reader.run_pure_eq_some_iff]
  constructor
  · rintro ⟨name, _, rfl, nameFits, value, _, rfl, valueFits, rfl, rfl⟩
    exact ⟨by simp [toBytes], nameFits, valueFits⟩
  · rintro ⟨rfl, nameFits, valueFits⟩
    exact ⟨property.name, _, by simp [toBytes], nameFits, property.value, rest, rfl, valueFits,
      rfl, rfl⟩

end StoredProperty

namespace Snapshot

/-- All lengths of a snapshot fit their fields. -/
structure Fits (snapshot : Snapshot) : Prop where
  properties : snapshot.properties.length ≤ payloadLimit
  each : ∀ property ∈ snapshot.properties, property.Fits
  entries : snapshot.entries.length ≤ payloadLimit

/-- What follows the version. -/
def body (snapshot : Snapshot) : Bytes :=
  Bytes.ofUInt64 snapshot.sequence ++
    (Bytes.ofUInt32 (UInt32.ofNat snapshot.properties.length) ++
      (snapshot.properties.flatMap StoredProperty.toBytes ++ Bytes.ofCounted snapshot.entries))

theorem encode_eq (snapshot : Snapshot) :
    snapshot.encode = magic ++ (Bytes.ofUInt32 version ++ snapshot.body) := by
  simp [encode, body]

/-- The body of a snapshot is taken from the bytes that spell it. -/
theorem takes_bodyReader : bodyReader.Takes body Fits := by
  intro bytes snapshot rest
  have takesProperties (count : Nat) := StoredProperty.takes_reader.repeated count
  simp only [bodyReader, Reader.run_bind_of_takes Reader.takes_uint64,
    Reader.run_bind_of_takes Reader.takes_uint32,
    Reader.run_bind_of_takes (takesProperties _),
    Reader.run_bind_of_takes Reader.takes_counted, Reader.run_pure_eq_some_iff]
  constructor
  · rintro ⟨sequence, _, rfl, -, count, _, rfl, -, properties, _, rfl, ⟨counts, each⟩, entries, _,
      rfl, entriesFit, rfl, rfl⟩
    have few : properties.length ≤ payloadLimit := Nat.le_sub_one_of_lt (counts ▸ count.toNat_lt)
    refine ⟨?_, few, each, entriesFit⟩
    simp [body, counts]
  · rintro ⟨rfl, few, each, entriesFit⟩
    have fits : snapshot.properties.length < UInt32.size := Nat.lt_of_le_pred (by decide) few
    exact ⟨snapshot.sequence, _, by simp [body], trivial,
      UInt32.ofNat snapshot.properties.length, _, rfl, trivial, snapshot.properties, _, rfl,
      ⟨(UInt32.toNat_ofNat_of_lt' fits).symm, each⟩, snapshot.entries, rest, rfl, entriesFit, rfl,
      rfl⟩

/-- The bytes of a snapshot that was read are those that it is written as. -/
theorem eq_encode_of_decode
    {bytes : Bytes}
    {snapshot : Snapshot}
    (decoded : decode bytes = .ok snapshot) :
    bytes = snapshot.encode ∧ snapshot.Fits := by
  unfold decode at decoded
  obtain ⟨⟨found, afterMagic⟩, magicRead, decoded⟩ := bind_eq_ok_iff.mp decoded
  obtain ⟨bytes_eq, -⟩ := (Reader.runFor_eq_ok_iff (Reader.takes_take magic.length)).mp magicRead
  dsimp only at decoded bytes_eq
  split at decoded
  next =>
    contradiction
  next isMagic =>
    obtain ⟨⟨foundVersion, afterVersion⟩, versionRead, decoded⟩ := bind_eq_ok_iff.mp decoded
    obtain ⟨afterMagic_eq, -⟩ := (Reader.runFor_eq_ok_iff Reader.takes_uint32).mp versionRead
    dsimp only at decoded
    split at decoded
    next =>
      contradiction
    next isVersion =>
      obtain ⟨⟨read, rest⟩, bodyRead, decoded⟩ := bind_eq_ok_iff.mp decoded
      obtain ⟨afterVersion_eq, fits⟩ := (Reader.runFor_eq_ok_iff takes_bodyReader).mp bodyRead
      cases rest with
      | nil =>
          cases decoded
          rw [Classical.not_not] at isMagic isVersion
          rw [encode_eq, bytes_eq, afterMagic_eq, afterVersion_eq, isMagic, isVersion,
            List.append_nil]
          exact ⟨rfl, fits⟩
      | cons byte rest =>
          contradiction

/-- The bytes that decode to a snapshot are those that it is written to, if its lengths fit. -/
theorem decode_eq_ok_iff
    {bytes : Bytes}
    {snapshot : Snapshot} :
    decode bytes = .ok snapshot ↔ bytes = snapshot.encode ∧ snapshot.Fits := by
  constructor
  · exact eq_encode_of_decode
  · rintro ⟨rfl, fits⟩
    unfold decode
    rw [encode_eq]
    refine bind_eq_ok_iff.mpr ⟨(magic, Bytes.ofUInt32 version ++ snapshot.body),
      (Reader.runFor_eq_ok_iff (Reader.takes_take magic.length)).mpr ⟨rfl, rfl⟩, ?_⟩
    dsimp only
    rw [if_neg (Classical.not_not.mpr rfl)]
    refine bind_eq_ok_iff.mpr ⟨(version, snapshot.body),
      (Reader.runFor_eq_ok_iff Reader.takes_uint32).mpr ⟨rfl, trivial⟩, ?_⟩
    dsimp only
    rw [if_neg (Classical.not_not.mpr rfl)]
    exact bind_eq_ok_iff.mpr ⟨(snapshot, []),
      (Reader.runFor_eq_ok_iff takes_bodyReader).mpr ⟨(List.append_nil _).symm, fits⟩, rfl⟩

end Snapshot

end OrderedIndex

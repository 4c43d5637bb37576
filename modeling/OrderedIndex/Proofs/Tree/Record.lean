import OrderedIndex.Proofs.Bytes.Reading
import OrderedIndex.Tree.Record

namespace OrderedIndex

/-!
# Stored node records

A record is read back as it was written, and the word for a child names that
child as long as the tree has no more nodes than there are indices.
-/

namespace NodeRecord

/-- Both payloads of a record fit their length fields. -/
def Fits (record : NodeRecord) : Prop :=
  record.key.length ≤ payloadLimit ∧ record.value.length ≤ payloadLimit

/-- A record is taken from the bytes that spell it. -/
theorem takes_reader : reader.Takes toBytes Fits := by
  intro bytes record rest
  simp only [reader, Reader.run_bind_of_takes Reader.takes_uint32,
    Reader.run_bind_of_takes Reader.takes_int8, Reader.run_bind_of_takes Reader.takes_counted,
    Reader.run_pure_eq_some_iff]
  constructor
  · rintro ⟨left, _, rfl, -, right, _, rfl, -, balance, _, rfl, -, key, _, rfl, keyFits, value, _,
      rfl, valueFits, rfl, rfl⟩
    exact ⟨by simp [toBytes], keyFits, valueFits⟩
  · rintro ⟨rfl, keyFits, valueFits⟩
    exact ⟨record.left, _, by simp [toBytes], trivial, record.right, _, rfl, trivial,
      record.balance, _, rfl, trivial, record.key, _, rfl, keyFits, record.value, rest, rfl,
      valueFits, rfl, rfl⟩

/-- No record is shorter than the least one. -/
theorem leastLength_le (record : NodeRecord) : leastLength ≤ record.toBytes.length := by
  simp only [leastLength, toBytes, Bytes.ofCounted, Bytes.ofUInt32, Bytes.ofInt8,
    List.length_append, BigEndian.length_encode, List.length_singleton]
  omega

theorem leastLength_mul_le (records : List NodeRecord) :
    records.length * leastLength ≤ (records.flatMap toBytes).length := by
  induction records with
  | nil =>
      simp
  | cons record rest inductionHypothesis =>
      have least := leastLength_le record
      rw [List.length_cons, List.flatMap_cons, List.length_append, Nat.succ_mul]
      omega

/-- A record says what the links of a node are. -/
structure Spells (links : NodeLinks) (record : NodeRecord) : Prop where
  left : record.left = childWord links.left
  right : record.right = childWord links.right
  balance : record.balance.toInt = links.balance

/-- A record that says what the links are is the one that is written for them. -/
theorem Spells.ofLinks_eq
    {links : NodeLinks}
    {record : NodeRecord}
    (spells : Spells links record) :
    ofLinks links record.key record.value = record := by
  rw [ofLinks, ← spells.left, ← spells.right, ← spells.balance, Int8.ofInt_toInt]

/-- A record spells the links that it was made of. -/
theorem spells_ofLinks
    {links : NodeLinks}
    (key value : Bytes)
    (near : links.balance ∈ [(-1 : Int), 0, 1]) :
    Spells links (ofLinks links key value) where
  left := rfl
  right := rfl
  balance := by
    obtain ⟨left, right, balance⟩ := links
    simp only [List.mem_cons, List.not_mem_nil, or_false] at near
    rcases near with rfl | rfl | rfl <;> rfl

end NodeRecord

end OrderedIndex

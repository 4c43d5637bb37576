namespace OrderedIndex

/-!
# Byte strings

Encoded keys, values, trees and snapshots are byte strings.  Words are written
most significant byte first, so that byte order agrees with numeric order.
Reading consumes a byte string from the front and stops as soon as it runs out.
-/

/-- A byte string. -/
abbrev Bytes := List UInt8

namespace BigEndian

/-- The last `width` base-256 digits of a number, most significant first. -/
def encode : (width : Nat) → Nat → Bytes
  | 0, _ => []
  | width + 1, number => encode width (number / 256) ++ [UInt8.ofNat number]

/-- The number that base-256 digits spell. -/
def decode (digits : Bytes) : Nat :=
  digits.foldl (fun number digit => number * 256 + digit.toNat) 0

@[simp] theorem length_encode (width number : Nat) :
    (encode width number).length = width := by
  induction width generalizing number with
  | zero => rfl
  | succ width inductionHypothesis => simp [encode, inductionHypothesis]

theorem decode_append_singleton (digits : Bytes) (digit : UInt8) :
    decode (digits ++ [digit]) = decode digits * 256 + digit.toNat := by
  simp [decode]

/-- Decoding gives back the encoded number up to the width. -/
theorem decode_encode (width number : Nat) :
    decode (encode width number) = number % Nat.pow 256 width := by
  induction width generalizing number with
  | zero => simp [encode, decode, Nat.mod_one]
  | succ width inductionHypothesis =>
      have power : Nat.pow 256 (width + 1) = 256 * Nat.pow 256 width := Nat.pow_succ'
      rw [encode, decode_append_singleton, inductionHypothesis, power, Nat.mod_mul]
      simp only [UInt8.toNat_ofNat']
      omega

/-- Encoding a decoded number at the length of its digits gives them back. -/
theorem encode_decode (digits : Bytes) :
    encode digits.length (decode digits) = digits := by
  obtain ⟨reversed, rfl⟩ : ∃ reversed : Bytes, digits = reversed.reverse :=
    ⟨digits.reverse, by simp⟩
  induction reversed with
  | nil => rfl
  | cons digit rest inductionHypothesis =>
      have below : digit.toNat < 256 := digit.toNat_lt
      have quotient : (decode rest.reverse * 256 + digit.toNat) / 256 =
          decode rest.reverse := by omega
      have remainder : UInt8.ofNat (decode rest.reverse * 256 + digit.toNat) =
          digit := by
        apply UInt8.toNat_inj.mp
        simp
      simp only [List.reverse_cons, List.length_append, List.length_singleton,
        decode_append_singleton, encode, quotient, remainder, inductionHypothesis]

end BigEndian

/-- A reader of a byte string's front; it fails only by running out of input. -/
abbrev Reader := StateT Bytes Option

namespace Reader

/-- Split off exactly `count` bytes. -/
def split? : (count : Nat) → Bytes → Option (Bytes × Bytes)
  | 0, bytes => some ([], bytes)
  | _ + 1, [] => none
  | count + 1, byte :: rest =>
      (split? count rest).map fun (taken, remaining) => (byte :: taken, remaining)

/-- Read exactly `count` bytes. -/
def take (count : Nat) : Reader Bytes := split? count

/-- Read a word of `width` bytes. -/
def word (width : Nat) : Reader Nat := do
  return BigEndian.decode (← take width)

/-- Read an unsigned 32-bit word. -/
def uint32 : Reader UInt32 := do
  return UInt32.ofNat (← word 4)

/-- Read an unsigned 64-bit word. -/
def uint64 : Reader UInt64 := do
  return UInt64.ofNat (← word 8)

/-- Read one byte as a two's complement number. -/
def int8 : Reader Int8 := do
  return (UInt8.ofNat (← word 1)).toInt8

/-- Read a 32-bit length and as many bytes. -/
def counted : Reader Bytes := do
  take (← uint32).toNat

/-- Read `count` items, one after the other. -/
def repeated {Item : Type} (item : Reader Item) : (count : Nat) → Reader (List Item)
  | 0 => pure []
  | count + 1 => do
      let first ← item
      let rest ← repeated item count
      return first :: rest

/-- Splitting succeeds exactly when the split bytes come first. -/
theorem split?_eq_some_iff
    {count : Nat}
    {bytes taken remaining : Bytes} :
    split? count bytes = some (taken, remaining) ↔
      bytes = taken ++ remaining ∧ taken.length = count := by
  induction count generalizing bytes taken with
  | zero => cases taken <;> simp [split?, eq_comm]
  | succ count inductionHypothesis =>
      cases bytes with
      | nil => cases taken <;> simp [split?]
      | cons byte rest =>
          cases taken with
          | nil => simp [split?]
          | cons head tail =>
              simp only [split?, Option.map_eq_some_iff, Prod.exists, Prod.mk.injEq,
                List.cons.injEq, List.cons_append, List.length_cons,
                Nat.add_right_cancel_iff]
              constructor
              · rintro ⟨_, _, found, ⟨rfl, rfl⟩, rfl⟩
                have ⟨shape, size⟩ := inductionHypothesis.mp found
                exact ⟨⟨rfl, shape⟩, size⟩
              · rintro ⟨⟨rfl, shape⟩, size⟩
                exact ⟨_, _, inductionHypothesis.mpr ⟨shape, size⟩, ⟨rfl, rfl⟩, rfl⟩

end Reader

namespace Bytes

/-- Write an unsigned 32-bit word. -/
def ofUInt32 (number : UInt32) : Bytes := BigEndian.encode 4 number.toNat

/-- Write an unsigned 64-bit word. -/
def ofUInt64 (number : UInt64) : Bytes := BigEndian.encode 8 number.toNat

/-- Write a two's complement number in one byte. -/
def ofInt8 (number : Int8) : Bytes := [number.toUInt8]

/-- Write a byte string after its 32-bit length. -/
def ofCounted (bytes : Bytes) : Bytes :=
  ofUInt32 (UInt32.ofNat bytes.length) ++ bytes

end Bytes

end OrderedIndex

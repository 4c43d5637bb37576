import OrderedIndex.Bytes.Basic

namespace OrderedIndex.Utf8

/-!
# Strings as UTF-8

Encoding a string never fails.  Decoding refuses ill-formed input and says
where the first ill-formed sequence starts and how many of its bytes could have
begun a well-formed one.  The two main statements are that decoding undoes
encoding and that a byte string decodes only if it is the encoding of the
result.
-/

/-- An inclusive range of byte values. -/
structure ByteRange where
  low : UInt8
  high : UInt8
  deriving Repr, DecidableEq

namespace ByteRange

/-- Whether a byte lies in the range. -/
def contains (range : ByteRange) (byte : UInt8) : Bool :=
  range.low ≤ byte && byte ≤ range.high

/-- The bytes that continue a sequence. -/
def continuation : ByteRange := ⟨0x80, 0xBF⟩

end ByteRange

/--
What may follow a lead byte: one range for each further byte of its sequence.
The second byte is narrowed where a wider one would spell a surrogate, a code
point past U+10FFFF, or a code point that has a shorter form.
-/
def following? (lead : UInt8) : Option (List ByteRange) :=
  if lead < 0x80 then some []
  else if lead < 0xC2 then none
  else if lead < 0xE0 then some [.continuation]
  else if lead = 0xE0 then some [⟨0xA0, 0xBF⟩, .continuation]
  else if lead = 0xED then some [⟨0x80, 0x9F⟩, .continuation]
  else if lead < 0xF0 then some [.continuation, .continuation]
  else if lead = 0xF0 then some [⟨0x90, 0xBF⟩, .continuation, .continuation]
  else if lead < 0xF4 then some [.continuation, .continuation, .continuation]
  else if lead = 0xF4 then some [⟨0x80, 0x8F⟩, .continuation, .continuation]
  else none

/-- The first ill-formed sequence of a byte string. -/
structure Fault where
  /-- Index of the sequence's first byte. -/
  start : Nat
  /--
  Number of bytes up to the one that cannot belong to the sequence, or `none`
  if the input ends inside it.
  -/
  length? : Option Nat
  deriving Repr, DecidableEq

namespace Fault

/-- The sentence that describes a fault. -/
def message (fault : Fault) : String :=
  match fault.length? with
  | some length =>
      s!"invalid utf-8 sequence of {length} bytes from index {fault.start}"
  | none => s!"incomplete utf-8 byte sequence from index {fault.start}"

end Fault

/--
Scan for the first fault, given where the current sequence starts, how many of
its bytes were seen and what must still follow.
-/
def faultFrom?
    (start seen : Nat)
    (pending : List ByteRange) :
    Bytes → Option Fault
  | [] => if pending.isEmpty then none else some ⟨start, none⟩
  | byte :: rest =>
      match pending with
      | [] =>
          match following? byte with
          | some ranges => faultFrom? (start + seen) 1 ranges rest
          | none => some ⟨start + seen, some 1⟩
      | range :: ranges =>
          if range.contains byte then faultFrom? start (seen + 1) ranges rest
          else some ⟨start, some seen⟩

/-- The first fault of a byte string, if it is ill-formed. -/
def fault? (bytes : Bytes) : Option Fault :=
  faultFrom? 0 0 [] bytes

/-- The bytes of a string. -/
def encode (text : String) : Bytes :=
  text.toByteArray.data.toList

/-- The string that a byte string encodes. -/
def decode (bytes : Bytes) : Except Fault String :=
  match String.fromUTF8? ⟨bytes.toArray⟩ with
  | some text => .ok text
  | none => .error ((fault? bytes).getD ⟨0, some 1⟩)

/-- Decoding undoes encoding. -/
@[simp] theorem decode_encode (text : String) :
    decode (encode text) = .ok text := by
  have valid : (⟨text.toByteArray.data⟩ : ByteArray).IsValidUTF8 := text.isValidUTF8
  simp [decode, encode, String.fromUTF8?, valid, String.fromUTF8]

/-- A byte string that decodes is the encoding of what it decodes to. -/
theorem encode_of_decode
    {bytes : Bytes}
    {text : String}
    (decoded : decode bytes = .ok text) :
    encode text = bytes := by
  unfold decode String.fromUTF8? at decoded
  split at decoded
  next found =>
    split at found
    · cases found
      cases decoded
      simp [encode, String.fromUTF8]
    · cases found
  next => cases decoded

end OrderedIndex.Utf8

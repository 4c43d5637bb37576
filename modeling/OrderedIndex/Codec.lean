import OrderedIndex.Error
import OrderedIndex.Json.Form

namespace OrderedIndex

/-!
# Codecs

A codec turns values into byte strings and back; whoever stores the bytes adds
their length.  The fixed codecs are canonical: decoding undoes encoding, and
bytes that decode are the encoding of what they decode to.
-/

/-- A pair of conversions between values and byte strings. -/
structure Codec (Element : Type) where
  /-- The bytes of a value. -/
  encode : Element → Except IndexError Bytes
  /-- The value that exactly these bytes encode. -/
  decode : Bytes → Except DecodeError Element

/-- The most bytes that a 32-bit length can announce. -/
def payloadLimit : Nat := UInt32.size - 1

/-- Refuse a payload whose length does not fit its 32-bit length field. -/
def checkPayload (part : String) (length : Nat) : Except IndexError Unit :=
  if length ≤ payloadLimit then .ok ()
  else
    .error (.encode
      s!"{part} is {length} bytes, more than the {payloadLimit} byte limit")

namespace Reader

/-- Read from the front of the input; running out of it is an error in `part`. -/
def runFor {Item : Type} (part : String) (reader : Reader Item) (bytes : Bytes) :
    Except DecodeError (Item × Bytes) :=
  match reader.run bytes with
  | some result => .ok result
  | none => .error (.truncated part)

end Reader

namespace Codec

variable {Element : Type}

/-- The bytes of a value behind those that a buffer holds. -/
def append (codec : Codec Element) (buffer : Bytes) (value : Element) :
    Except IndexError Bytes := do
  return buffer ++ (← codec.encode value)

/-- Decoding undoes encoding at a value. -/
def RoundTripsAt (codec : Codec Element) (value : Element) : Prop :=
  ∀ bytes, codec.encode value = .ok bytes → codec.decode bytes = .ok value

/-- Bytes that decode are the encoding of what they decode to. -/
def Canonical (codec : Codec Element) : Prop :=
  ∀ bytes value, codec.decode bytes = .ok value → codec.encode value = .ok bytes

/-- The codec of the single value, which takes no bytes. -/
def unit : Codec Unit where
  encode _ := .ok []
  decode bytes :=
    if bytes.isEmpty then .ok ()
    else .error (.codec s!"expected no bytes for a unit value, found {bytes.length}")

/-- The refusal of a byte string that is no 64-bit word. -/
def notAWord (bytes : Bytes) : DecodeError :=
  .codec s!"expected 8 bytes, found {bytes.length}"

/-- Unsigned integers in eight bytes, most significant first. -/
def uint64 : Codec UInt64 where
  encode number := .ok (Bytes.ofUInt64 number)
  decode bytes :=
    if bytes.length = 8 then .ok (UInt64.ofNat (BigEndian.decode bytes))
    else .error (notAWord bytes)

/-- Signed integers in eight bytes of two's complement, most significant first. -/
def int64 : Codec Int64 where
  encode number := .ok (Bytes.ofUInt64 number.toUInt64)
  decode bytes :=
    if bytes.length = 8 then .ok (UInt64.ofNat (BigEndian.decode bytes)).toInt64
    else .error (notAWord bytes)

/-- Strings in UTF-8. -/
def string : Codec String where
  encode text := .ok (Utf8.encode text)
  decode bytes := (Utf8.decode bytes).mapError fun fault => .codec fault.message

/-- Byte strings as themselves. -/
def bytes : Codec Bytes where
  encode value := .ok value
  decode value := .ok value

/-- Values with a JSON form, as JSON text in UTF-8. -/
def json [Json.Form Element] : Codec Element where
  encode value :=
    match Json.Form.write value with
    | .ok text => .ok (Utf8.encode text)
    | .error cause => .error (.encode cause.message)
  decode bytes :=
    match (Json.Value.parse? bytes).bind Json.Form.read? with
    | some value => .ok value
    | none => .error (.codec "json")

end Codec

end OrderedIndex

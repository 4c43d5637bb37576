import OrderedIndex.Codec

namespace OrderedIndex

/-!
# Snapshots of a master table

A snapshot starts with a magic number and a version.  It holds the sequence,
the properties in name order and the serialized tree of entries, each byte
string after its length.
-/

/-- A property as it is stored. -/
structure StoredProperty where
  name : Bytes
  value : Bytes
  deriving Repr, DecidableEq

/-- A saved master table. -/
structure Snapshot where
  /-- The last identifier that was handed out. -/
  sequence : UInt64
  properties : List StoredProperty
  /-- The serialized tree of entries. -/
  entries : Bytes
  deriving Repr, DecidableEq

namespace StoredProperty

/-- The bytes of a property. -/
def toBytes (property : StoredProperty) : Bytes :=
  Bytes.ofCounted property.name ++ Bytes.ofCounted property.value

/-- Read a property. -/
def reader : Reader StoredProperty := do
  let name ← Reader.counted
  let value ← Reader.counted
  return ⟨name, value⟩

/-- The strings of a property, its name first. -/
def decode (property : StoredProperty) : Except DecodeError (String × String) := do
  return (← Codec.string.decode property.name, ← Codec.string.decode property.value)

end StoredProperty

namespace Snapshot

/-- The four letters that every snapshot starts with. -/
def magic : Bytes := [0x44, 0x49, 0x4D, 0x54]

/-- The version of the snapshots that are written. -/
def version : UInt32 := 1

/-- The part that errors name. -/
def part : String := "master table snapshot"

/-- The bytes of a snapshot. -/
def encode (snapshot : Snapshot) : Bytes :=
  magic ++ Bytes.ofUInt32 version ++ Bytes.ofUInt64 snapshot.sequence ++
    Bytes.ofUInt32 (UInt32.ofNat snapshot.properties.length) ++
    snapshot.properties.flatMap StoredProperty.toBytes ++
    Bytes.ofCounted snapshot.entries

/-- Read what follows the version. -/
def bodyReader : Reader Snapshot := do
  let sequence ← Reader.uint64
  let count ← Reader.uint32
  let properties ← Reader.repeated StoredProperty.reader count.toNat
  let entries ← Reader.counted
  return ⟨sequence, properties, entries⟩

/-- The refusal of a snapshot whose first bytes are wrong. -/
def refusal (reason : String) : DecodeError :=
  .malformed s!"{part}: {reason} at 0x0"

/--
The snapshot that exactly these bytes encode.  The magic number is checked
before the version is read, and the version before the rest.
-/
def decode (bytes : Bytes) : Except DecodeError Snapshot := do
  let (found, afterMagic) ← (Reader.take magic.length).runFor part bytes
  if found ≠ magic then
    throw (refusal "snapshot has bad magic")
  let (foundVersion, afterVersion) ← Reader.uint32.runFor part afterMagic
  if foundVersion ≠ version then
    throw (refusal "unsupported snapshot version")
  let (snapshot, rest) ← bodyReader.runFor part afterVersion
  if rest.isEmpty then
    return snapshot
  else
    throw (.malformed "trailing bytes after snapshot")

end Snapshot

end OrderedIndex

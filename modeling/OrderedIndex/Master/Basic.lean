import OrderedIndex.Master.FileSystem
import OrderedIndex.Master.Snapshot
import OrderedIndex.SortedMap
import OrderedIndex.Table.Cursor
import OrderedIndex.Tree.Format

namespace OrderedIndex

/-!
# Master tables

A master table stores every entry of a directory once, under a number that it
hands out, together with a few string properties.  A table with a path saves
itself to a snapshot file and starts from that file when it is opened again.
-/

/-- What a master table runs on: a store backend and a working directory. -/
structure Host where
  backend : Backend
  files : FileSystem

/-- A computation that calls a backend and uses files. -/
abbrev HostM := StateM Host

namespace Host

/-- A host without files, whose journal is empty until a table is opened. -/
def empty : Host := ⟨.undescribed Backend.firstId .empty, .empty⟩

/-- Call the backend of a host. -/
def onBackend {Answer : Type} (action : StoreM Answer) : HostM Answer := do
  let host ← get
  let (answer, backend) := action.run host.backend
  set { host with backend := backend }
  return answer

/-- Change the journal of a host. -/
def record (change : Journal → Journal) : HostM Unit := onBackend (Backend.record change)

/-- Start over with a memory backend; the journal goes on. -/
def renewBackend : HostM Unit :=
  modify fun host =>
    { host with backend := .memory Backend.firstId host.backend.journal }

/-- Replace a file by way of a temporary one. -/
def replaceFile (path temporary : String) (content : Bytes) : HostM (Except IoKind Unit) := do
  let host ← get
  let (answer, files) := host.files.replace path temporary content
  set { host with files := files }
  return answer

end Host

/-- Entries by identifier, with an allocator of identifiers. -/
structure MasterTable (Value : Type) where
  table : Table UInt64 Value
  /-- The last identifier that was handed out or stored, or zero. -/
  sequence : UInt64
  /-- Properties in name order. -/
  properties : List (String × String)
  /-- The snapshot file. -/
  path? : Option String
  /-- The byte form of the tree of entries. -/
  format : TreeFormat UInt64 Value

namespace MasterTable

variable {Value : Type}

/-- The order of property names. -/
def nameOrder : Order String := .natural

/-- The byte form of a tree of entries. -/
def entryFormat (codec : Codec Value) : TreeFormat UInt64 Value :=
  ⟨.natural, .uint64, codec⟩

/-! ## Opening -/

/-- The contents of a snapshot file. -/
structure Contents (Value : Type) where
  sequence : UInt64
  properties : List (String × String)
  tree : OrderedTree UInt64 Value

/-- The greatest identifier of a tree, or zero. -/
def highestId (tree : OrderedTree UInt64 Value) : UInt64 :=
  (tree.last.bind tree.key?).getD 0

/--
The contents that a snapshot file holds.  The sequence is at least the greatest
identifier, so that no stored identifier is handed out again.
-/
def readSnapshot (format : TreeFormat UInt64 Value) (bytes : Bytes) :
    Except DecodeError (Contents Value) := do
  let snapshot ← Snapshot.decode bytes
  let properties ← snapshot.properties.mapM StoredProperty.decode
  let tree ← format.decode snapshot.entries
  return ⟨max snapshot.sequence (highestId tree), SortedMap.ofList nameOrder properties, tree⟩

/-- Fill a new table with the contents of a snapshot file. -/
def load (master : MasterTable Value) (bytes : Bytes) :
    HostM (Except IndexError (MasterTable Value)) := do
  match readSnapshot master.format bytes with
  | .error cause => return .error (.decode cause)
  | .ok contents =>
      Host.record (·.note
        (.snapshotLoaded master.table.name contents.tree.size contents.sequence))
      match master.table.loadUnique contents.tree with
      | .error cause => return .error cause
      | .ok table =>
          Host.record (·.count .snapshotLoads)
          return .ok
            { master with
              table := table
              sequence := contents.sequence
              properties := contents.properties }

/-- The table of a configuration, from its snapshot file if there is one. -/
def ofConfig (config : MasterTableConfig) (codec : Codec Value) :
    HostM (Except IndexError (MasterTable Value)) := do
  Host.renewBackend
  match ← Host.onBackend (Table.new (.ofName config.name false) .natural none) with
  | .error cause => return .error cause
  | .ok table =>
      let master : MasterTable Value := ⟨table, 0, [], config.path?, entryFormat codec⟩
      match config.path? with
      | none => return .ok master
      | some path =>
          match (← get).files.read path with
          | .ok bytes => master.load bytes
          | .error .notFound =>
              Host.record (·.note (.snapshotAbsent config.name path))
              return .ok master
          | .error kind => return .error (.io kind)

/-- A table that lives in memory only. -/
def inMemory (name : String) (codec : Codec Value) :
    HostM (Except IndexError (MasterTable Value)) :=
  ofConfig (.ofName name) codec

/-! ## Identifiers -/

/-- The greatest identifier. -/
def lastId : UInt64 := 0xFFFFFFFFFFFFFFFF

/-- Hand out an identifier, unless the greatest one is handed out or stored. -/
def nextId (master : MasterTable Value) : Except IndexError UInt64 × MasterTable Value :=
  if master.sequence = lastId then (.error (.idsExhausted master.table.name), master)
  else
    let id := master.sequence + 1
    (.ok id, { master with sequence := id })

/-! ## Entries -/

/-- The entry under an identifier. -/
def get? (master : MasterTable Value) (id : UInt64) : Except IndexError (Option Value) :=
  master.table.get id

/-- Store an entry under an identifier; no identifier up to it is handed out again. -/
def put (master : MasterTable Value) (id : UInt64) (entry : Value) :
    StoreM (Except IndexError Unit × MasterTable Value) := do
  match ← master.table.put id entry with
  | (.ok _, table) =>
      return (.ok (), { master with table := table, sequence := max master.sequence id })
  | (.error cause, table) => return (.error cause, { master with table := table })

/-- Delete the entry under an identifier; tell whether there was one. -/
def delete (master : MasterTable Value) (id : UInt64) :
    StoreM (Except IndexError Bool × MasterTable Value) := do
  let (answer, table) ← master.table.remove id
  return (answer, { master with table := table })

/-- Number of entries. -/
def count (master : MasterTable Value) : Nat := master.table.count

/-- A cursor before the first entry. -/
def cursor (master : MasterTable Value) : TableCursor UInt64 Value := master.table.cursor

/-! ## Properties -/

/-- The value of a property. -/
def property? (master : MasterTable Value) (name : String) : Option String :=
  SortedMap.get? nameOrder name master.properties

/-- Set a property. -/
def setProperty (master : MasterTable Value) (name value : String) : MasterTable Value :=
  { master with properties := SortedMap.insert nameOrder name value master.properties }

/-! ## Saving -/

/-- A property in the form in which it is stored. -/
def storeProperty (property : String × String) : Except IndexError StoredProperty := do
  let name := Utf8.encode property.1
  let value := Utf8.encode property.2
  checkPayload "property name" name.length
  checkPayload "property value" value.length
  return ⟨name, value⟩

/-- The bytes of the table's snapshot. -/
def encode (master : MasterTable Value) : Except IndexError Bytes := do
  match master.table.uniqueTree? with
  | none =>
      throw (.configuration master.table.name "a master table cannot allow duplicate keys")
  | some tree =>
      let properties ← master.properties.mapM storeProperty
      checkPayload "property list" properties.length
      let entries ← master.format.encode tree
      checkPayload "serialized entry tree" entries.length
      return Snapshot.encode ⟨master.sequence, properties, entries⟩

/-- The temporary file beside a snapshot file. -/
def temporaryPath (path : String) : String := path ++ ".mut"

/-- Write the snapshot file, if the table has one. -/
def sync (master : MasterTable Value) : HostM (Except IndexError Unit) := do
  match master.path? with
  | none => return .ok ()
  | some path =>
      match master.encode with
      | .error cause => return .error cause
      | .ok bytes =>
          match ← Host.replaceFile path (temporaryPath path) bytes with
          | .error kind => return .error (.io kind)
          | .ok () =>
              Host.record fun journal =>
                ((journal.count .snapshotWrites).measure .snapshotBytes bytes.length).note
                  (.snapshotWritten master.table.name path bytes.length)
              return .ok ()

/-- Write the snapshot file and release the table. -/
def close (master : MasterTable Value) : HostM (Except IndexError Unit) := do
  match ← master.sync with
  | .error cause => return .error cause
  | .ok () => Host.onBackend master.table.close

end MasterTable

end OrderedIndex

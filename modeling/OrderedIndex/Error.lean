import OrderedIndex.Text.Quoted

namespace OrderedIndex

/-!
# Errors

What can go wrong, by cause: in the secondary stores, in decoding bytes, and in
using an index.  Every error has one message and one input-output kind.
-/

/-- The number of a secondary store, unique among the stores of one counter. -/
abbrev StoreId := UInt64

/-- The kinds of input-output failure. -/
inductive IoKind where
  | notFound
  | permissionDenied
  | alreadyExists
  | brokenPipe
  | invalidInput
  | invalidData
  | timedOut
  | writeZero
  | storageFull
  | isADirectory
  | notADirectory
  | interrupted
  | unsupported
  | unexpectedEof
  | outOfMemory
  | invalidFilename
  | resourceBusy
  | other
  deriving Repr, DecidableEq

namespace IoKind

/-- The phrase for a kind of failure. -/
def message : IoKind → String
  | .notFound => "entity not found"
  | .permissionDenied => "permission denied"
  | .alreadyExists => "entity already exists"
  | .brokenPipe => "broken pipe"
  | .invalidInput => "invalid input parameter"
  | .invalidData => "invalid data"
  | .timedOut => "timed out"
  | .writeZero => "write zero"
  | .storageFull => "no storage space"
  | .isADirectory => "is a directory"
  | .notADirectory => "not a directory"
  | .interrupted => "operation interrupted"
  | .unsupported => "unsupported"
  | .unexpectedEof => "unexpected end of file"
  | .outOfMemory => "out of memory"
  | .invalidFilename => "invalid filename"
  | .resourceBusy => "resource busy"
  | .other => "other error"

end IoKind

/-- A failure of a secondary store or of its backend. -/
inductive StoreError where
  /-- The store's input or output failed. -/
  | io (kind : IoKind)
  /-- The store was released and can no longer be used. -/
  | closed (store : StoreId)
  /-- The backend has no such operation. -/
  | unsupported (backend operation : String)
  /-- The working directory given to the backend is not usable. -/
  | invalidPath (path : String)
  deriving Repr, DecidableEq

namespace StoreError

/-- The sentence that reports a store failure. -/
def message : StoreError → String
  | .io kind => kind.message
  | .closed store => s!"Secondary store #{store.toNat} is closed."
  | .unsupported backend operation =>
      s!"The {backend} store backend does not support {operation}."
  | .invalidPath path => s!"Invalid working directory: {path}"

/-- The input-output kind of a store failure. -/
def kind : StoreError → IoKind
  | .io kind => kind
  | .closed _ => .brokenPipe
  | .unsupported .. => .unsupported
  | .invalidPath _ => .invalidInput

end StoreError

/-- A failure to decode bytes.  Nothing is built from input that fails. -/
inductive DecodeError where
  /-- There was no input. -/
  | empty
  /-- The input ended inside the named part. -/
  | truncated (part : String)
  /-- The input has a structure that no encoder produces. -/
  | malformed (reason : String)
  /-- A codec refused the bytes of a key or value. -/
  | codec (reason : String)
  deriving Repr, DecidableEq

namespace DecodeError

/-- The sentence that reports a decoding failure. -/
def message : DecodeError → String
  | .empty => "Cannot decode an empty buffer."
  | .truncated part => s!"Input ended unexpectedly while decoding {part}."
  | .malformed reason => s!"Malformed input: {reason}"
  | .codec reason => s!"Codec failed to decode payload: {reason}"

end DecodeError

/-- A failure of an index operation. -/
inductive IndexError where
  /-- Serialized input could not be decoded. -/
  | decode (cause : DecodeError)
  /-- A codec refused a key or value. -/
  | encode (reason : String)
  /-- A cursor was read while it was in a gap. -/
  | invalidPosition
  /-- The operation has no meaning for this table or its backend. -/
  | unsupported (operation : String)
  /-- The table is configured in a way that does not allow the operation. -/
  | configuration (table reason : String)
  /-- Every identifier of a master table has been handed out. -/
  | idsExhausted (table : String)
  /-- A secondary store failed. -/
  | store (cause : StoreError)
  /-- Reading or writing a file failed. -/
  | io (kind : IoKind)
  deriving Repr, DecidableEq

namespace IndexError

/-- The sentence that reports an index failure. -/
def message : IndexError → String
  | .decode cause => cause.message
  | .encode reason => s!"Codec failed to encode payload: {reason}"
  | .invalidPosition => "Cursor is not positioned on a tuple."
  | .unsupported operation => s!"Unsupported operation: {operation}"
  | .configuration table reason =>
      s!"Invalid configuration for table {Text.quote table}: {reason}"
  | .idsExhausted table => s!"Master table {Text.quote table} has no identifiers left."
  | .store cause => cause.message
  | .io kind => kind.message

/-- The input-output kind of an index failure. -/
def kind : IndexError → IoKind
  | .decode _ => .invalidData
  | .encode _ => .invalidInput
  | .invalidPosition => .other
  | .unsupported _ => .unsupported
  | .configuration .. => .invalidInput
  | .idsExhausted _ => .storageFull
  | .store cause => cause.kind
  | .io kind => kind

/--
A store failure as an index reports it: what a backend does not support, the
index does not support either.
-/
def ofStore : StoreError → IndexError
  | .unsupported backend operation =>
      .unsupported (StoreError.unsupported backend operation).message
  | cause => .store cause

end IndexError

/-- Report a store's answer as an index does. -/
abbrev liftStore {Answer : Type} (answer : Except StoreError Answer) :
    Except IndexError Answer :=
  answer.mapError .ofStore

end OrderedIndex

import OrderedIndex.Tree.Basic
import OrderedIndex.Tree.Links

namespace OrderedIndex

/-!
# The byte form of a tree

A serialized tree is the number of its nodes, the index of its topmost node if
there is one, and a record for each node in key order.  The shape is kept
exactly.  Decoding accepts only what encoding produces from a valid tree, and
numbers the nodes in key order.
-/

/-- The byte form of the trees of one order, with codecs for keys and values. -/
structure TreeFormat (Key Value : Type) where
  order : Order Key
  keys : Codec Key
  values : Codec Value

namespace TreeFormat

variable {Key Value : Type}

/-- The byte form of the trees that are sets of keys. -/
def ofKeys (order : Order Key) (keys : Codec Key) : TreeFormat Key Unit :=
  ⟨order, keys, .unit⟩

/-! ## Encoding -/

/-- The record of an entry with the given links. -/
def record (format : TreeFormat Key Value) (links : NodeLinks) (entry : Entry Key Value) :
    Except IndexError NodeRecord := do
  let key ← format.keys.append [] entry.key
  let value ← format.values.append [] entry.value
  checkPayload "encoded key" key.length
  checkPayload "encoded value" value.length
  return .ofLinks links key value

/-- The records of entries with their links. -/
def records (format : TreeFormat Key Value) :
    List NodeLinks → List (Entry Key Value) → Except IndexError (List NodeRecord)
  | links :: moreLinks, entry :: moreEntries => do
      let first ← format.record links entry
      let rest ← format.records moreLinks moreEntries
      return first :: rest
  | _, _ => .ok []

/-- The bytes of a tree. -/
def encode (format : TreeFormat Key Value) (tree : OrderedTree Key Value) :
    Except IndexError Bytes := do
  if UInt32.size ≤ tree.size then
    throw (.encode "too many nodes")
  let records ← format.records (tree.shape.links 0) tree.entries
  let root := match tree.shape.rootIndex? 0 with
    | some index => Bytes.ofUInt32 (UInt32.ofNat index)
    | none => []
  return Bytes.ofUInt32 (UInt32.ofNat tree.size) ++ root ++
    records.flatMap NodeRecord.toBytes

/-! ## Decoding -/

/-- Refuse input after the tree. -/
def checkConsumed (rest : Bytes) : Except DecodeError Unit :=
  if rest.isEmpty then .ok ()
  else .error (.malformed s!"{rest.length} trailing bytes after tree")

/-- The keys and values of records in ascending key order. -/
def pairs (format : TreeFormat Key Value) (index : Nat) (previous : Option Key) :
    List NodeRecord → Except DecodeError (List (Key × Value))
  | [] => .ok []
  | record :: rest => do
      let key ← format.keys.decode record.key
      if previous.any fun before => format.order before key != .lt then
        throw (.malformed s!"key of node {index} is not greater than its predecessor")
      let value ← format.values.decode record.value
      let others ← format.pairs (index + 1) (some key) rest
      return (key, value) :: others

/-- The entry at a place among `count` neighbours. -/
def entryAtPlace (count : Nat) (place : Nat) (pair : Key × Value) : Entry Key Value where
  key := pair.1
  value := pair.2
  previous := if place = 0 then none else some (place - 1)
  next := if place + 1 < count then some (place + 1) else none

/-- The tree with the given shape over ascending keys, numbered in their order. -/
def assemble (order : Order Key) (links : LinkTree) (pairs : List (Key × Value)) :
    OrderedTree Key Value :=
  let count := pairs.length
  { order := order
    shape := links.toShape (pairs.map Prod.fst).toArray
    slots := (pairs.mapIdx fun place pair => some (entryAtPlace count place pair)).toArray
    free := []
    first := if count = 0 then none else some 0
    last := if count = 0 then none else some (count - 1)
    size := count }

/-- The tree that exactly these bytes encode. -/
def decode (format : TreeFormat Key Value) (bytes : Bytes) :
    Except DecodeError (OrderedTree Key Value) := do
  if bytes.isEmpty then
    throw .empty
  let (header, afterHeader) ← Reader.uint32.runFor "tree header" bytes
  let count := header.toNat
  if count = 0 then
    checkConsumed afterHeader
    return .empty format.order
  if bytes.length < count * NodeRecord.leastLength then
    throw (.truncated "node records")
  let (root, afterRoot) ← Reader.uint32.runFor "root index" afterHeader
  let (records, rest) ←
    (Reader.repeated NodeRecord.reader count).runFor "node record" afterRoot
  checkConsumed rest
  let links ← Links.ofRecords root records
  let tree ← links.checkShape records
  let pairs ← format.pairs 0 none records
  return assemble format.order tree pairs

end TreeFormat

end OrderedIndex

import OrderedIndex.Codec
import OrderedIndex.Tree.Shape

namespace OrderedIndex

/-!
# Node records

A serialized tree lists its nodes in key order, one record each.  A node's
index is its place in that list, and a record names the node's children by
their indices.
-/

/-- The child index that stands for no child. -/
def noNode : UInt32 := 0xFFFFFFFF

/-- The links of a node: the indices of its children and its balance. -/
structure NodeLinks where
  left : Option Nat
  right : Option Nat
  /-- Height of the left child minus height of the right child. -/
  balance : Int
  deriving Repr, DecidableEq

/-- One node as it is stored. -/
structure NodeRecord where
  /-- Index of the left child, or `noNode`. -/
  left : UInt32
  /-- Index of the right child, or `noNode`. -/
  right : UInt32
  /-- Height of the left child minus height of the right child. -/
  balance : Int8
  /-- The key in its codec's bytes. -/
  key : Bytes
  /-- The value in its codec's bytes. -/
  value : Bytes
  deriving Repr, DecidableEq

namespace NodeRecord

/-- The fewest bytes that a record takes. -/
def leastLength : Nat := 17

/-- The word for a child's index. -/
def childWord : Option Nat → UInt32
  | some index => UInt32.ofNat index
  | none => noNode

/-- The record of a node with encoded key and value. -/
def ofLinks (links : NodeLinks) (key value : Bytes) : NodeRecord where
  left := childWord links.left
  right := childWord links.right
  balance := Int8.ofInt links.balance
  key := key
  value := value

/-- The bytes of a record. -/
def toBytes (record : NodeRecord) : Bytes :=
  Bytes.ofUInt32 record.left ++ Bytes.ofUInt32 record.right ++
    Bytes.ofInt8 record.balance ++ Bytes.ofCounted record.key ++
    Bytes.ofCounted record.value

/-- Read a record. -/
def reader : Reader NodeRecord := do
  let left ← Reader.uint32
  let right ← Reader.uint32
  let balance ← Reader.int8
  let key ← Reader.counted
  let value ← Reader.counted
  return ⟨left, right, balance, key, value⟩

end NodeRecord

namespace Shape

variable {Key : Type}

/-- The index of a shape's topmost node, counting its leftmost one as `offset`. -/
def rootIndex? (offset : Nat) : Shape Key → Option Nat
  | .empty => none
  | .node left _ _ _ _ => some (offset + left.size)

/-- The links of all nodes in key order, counting the leftmost one as `offset`. -/
def links (offset : Nat) : Shape Key → List NodeLinks
  | .empty => []
  | .node left id key height right =>
      left.links offset ++
        ⟨left.rootIndex? offset, right.rootIndex? (offset + left.size + 1),
          (node left id key height right).balance⟩ ::
        right.links (offset + left.size + 1)

end Shape

end OrderedIndex

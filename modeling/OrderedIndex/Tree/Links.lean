import OrderedIndex.Tree.Record

namespace OrderedIndex

/-!
# Checked links

Records from outside may link to each other in any way.  The links are accepted
only if they form one binary tree that holds every record in key order and
whose balances are those of its subtrees.  A record that two links name is
refused first, so a walk along the links cannot return to a record.
-/

/-- A binary tree of record indices. -/
inductive LinkTree where
  | empty
  | node (left : LinkTree) (index : Nat) (right : LinkTree)
  deriving Repr, DecidableEq

namespace LinkTree

/-- The indices from left to right. -/
def toList : LinkTree → List Nat
  | .empty => []
  | .node left index right => left.toList ++ index :: right.toList

/-- The height. -/
def height : LinkTree → Nat
  | .empty => 0
  | .node left _ right => 1 + max left.height right.height

/--
The height of a tree whose balances are as stored.  The right subtree is
checked before the left one, and both before their parent.
-/
def checkBalance (balances : Array Int) : LinkTree → Except DecodeError Nat
  | .empty => .ok 0
  | .node left index right => do
      let rightHeight ← right.checkBalance balances
      let leftHeight ← left.checkBalance balances
      let stored := balances[index]?.getD 0
      let difference : Int := (leftHeight : Int) - rightHeight
      if stored = difference ∧ difference.natAbs ≤ 1 then
        .ok (1 + max leftHeight rightHeight)
      else
        .error (.malformed
          s!"node {index} has balance {stored} but its subtrees differ by {difference}")

/-- The shape with the key of each index. -/
def toShape {Key : Type} (keys : Array Key) : LinkTree → Shape Key
  | .empty => .empty
  | .node left index right =>
      match keys[index]? with
      | some key => .join (left.toShape keys) index key (right.toShape keys)
      | none => .empty

end LinkTree

/-- The child indices of every record and the index of the topmost one. -/
structure Links where
  root : Nat
  children : Array (Option Nat × Option Nat)
  deriving Repr, DecidableEq

namespace Links

/-- The index that a word names, which has to be below the number of nodes. -/
def index? (part : String) (count : Nat) (word : UInt32) :
    Except DecodeError (Option Nat) :=
  if word = noNode then .ok none
  else if word.toNat < count then .ok (some word.toNat)
  else
    .error (.malformed s!"{part} index {word.toNat} out of range for {count} nodes")

/-- Name a child; the claimed ones are those that were named before. -/
def claim (claimed : List Nat) : Option Nat → Except DecodeError (List Nat)
  | none => .ok claimed
  | some index =>
      if claimed.contains index then
        .error (.malformed s!"node {index} is referenced more than once")
      else .ok (index :: claimed)

/-- The child indices of the records, each named once at most. -/
def children? (count : Nat) (claimed : List Nat) :
    List NodeRecord → Except DecodeError (List (Option Nat × Option Nat))
  | [] => .ok []
  | record :: rest => do
      let left ← index? "child" count record.left
      let right ← index? "child" count record.right
      let claimedLeft ← claim claimed left
      let claimedBoth ← claim claimedLeft right
      return (left, right) :: (← children? count claimedBoth rest)

/-- The links of a list of records under a topmost one. -/
def ofRecords (root : UInt32) (records : List NodeRecord) : Except DecodeError Links := do
  match ← index? "root" records.length root with
  | none => .error (.malformed "non-empty tree without a root")
  | some index =>
      return ⟨index, (← children? records.length [index] records).toArray⟩

/-- The tree that the links make from an index on, at most `depth` levels of it. -/
def grow (links : Links) : (depth : Nat) → Option Nat → LinkTree
  | 0, _ => .empty
  | _, none => .empty
  | depth + 1, some index =>
      match links.children[index]? with
      | some (left, right) => .node (links.grow depth left) index (links.grow depth right)
      | none => .empty

/-- The tree that the links make. -/
def toTree (links : Links) : LinkTree := links.grow links.children.size (some links.root)

/-- The first index of a walk that is not the next in order. -/
def misplaced? (expected : Nat) : List Nat → Option Nat
  | [] => none
  | index :: rest =>
      if index = expected then misplaced? (expected + 1) rest else some index

/-- The tree of the links, if it holds the records in order and is balanced. -/
def checkShape (links : Links) (records : List NodeRecord) :
    Except DecodeError LinkTree := do
  let tree := links.toTree
  let walk := tree.toList
  if let some index := misplaced? 0 walk then
    throw (.malformed s!"node {index} is out of key order")
  if walk.length ≠ records.length then
    throw (.malformed
      s!"{records.length - walk.length} nodes are unreachable from the root")
  let balances := (records.map fun record => record.balance.toInt).toArray
  let _ ← tree.checkBalance balances
  return tree

end Links

end OrderedIndex

import OrderedIndex.Tree.Linked.Memory
import OrderedIndex.Tree.Links

namespace OrderedIndex

/-!
# Arithmetic of heights

Balancing computes no numbers but heights and differences of two heights.  All
operations that do so are written over any arithmetic of heights: the one of
bytes, which may overflow and misread a high byte as a negative one, and one
that computes without words and faults at the first height above 127.
-/

/-- A byte read as a signed one. -/
def signedByte (byte : Nat) : Int := (byte : Int).bmod 256

/-- How heights are computed. -/
structure HeightArithmetic where
  /-- The height of a node whose children have two heights. -/
  above : (left right : Nat) → Except TreeFault Nat
  /-- The first height minus the second one. -/
  minus : (left right : Nat) → Except TreeFault Int

namespace HeightArithmetic

/-- Heights are bytes; their differences are signed bytes of signed bytes. -/
def bytes : HeightArithmetic where
  above left right :=
    if 255 < 1 + max left right then .error (.overflow "add") else .ok (1 + max left right)
  minus left right :=
    let difference := signedByte left - signedByte right
    if difference < -128 ∨ 127 < difference then .error (.overflow "subtract") else .ok difference

/-- Heights are numbers, none of which may be above the greatest signed byte. -/
def limited : HeightArithmetic where
  above left right :=
    if 127 < 1 + max left right then .error (.overflow "add") else .ok (1 + max left right)
  minus left right :=
    if 127 < max left right then .error (.overflow "subtract") else .ok ((left : Int) - right)

end HeightArithmetic

/-! ## Decoding -/

/-- The height of a tree whose balances are as stored. -/
def LinkTree.checkBalanceBy (arithmetic : HeightArithmetic) (balances : Array Int) :
    LinkTree → Except TreeFault (Except DecodeError Nat)
  | .empty => .ok (.ok 0)
  | .node left index right => do
      match ← right.checkBalanceBy arithmetic balances with
      | .error cause => return .error cause
      | .ok rightHeight =>
          match ← left.checkBalanceBy arithmetic balances with
          | .error cause => return .error cause
          | .ok leftHeight =>
              let stored := balances[index]?.getD 0
              let difference : Int := (leftHeight : Int) - rightHeight
              if stored = difference ∧ difference.natAbs ≤ 1 then
                return .ok (← arithmetic.above leftHeight rightHeight)
              else
                return .error (.malformed
                  s!"node {index} has balance {stored} but its subtrees differ by {difference}")

/-- The tree of the links, if it holds the records in order and is balanced. -/
def Links.checkShapeBy (arithmetic : HeightArithmetic) (links : Links) (records : List NodeRecord) :
    Except TreeFault (Except DecodeError LinkTree) := do
  let tree := links.toTree
  let walk := tree.toList
  match misplaced? 0 walk with
  | some index => return .error (.malformed s!"node {index} is out of key order")
  | none =>
      if walk.length ≠ records.length then
        return .error (.malformed
          s!"{records.length - walk.length} nodes are unreachable from the root")
      else
        let balances := (records.map fun record => record.balance.toInt).toArray
        match ← tree.checkBalanceBy arithmetic balances with
        | .error cause => return .error cause
        | .ok _ => return .ok tree

end OrderedIndex

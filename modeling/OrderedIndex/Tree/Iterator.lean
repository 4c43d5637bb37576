import OrderedIndex.Text.Quoted
import OrderedIndex.Tree.Basic

namespace OrderedIndex

/-!
# Iteration from both ends

An iterator hands out the entries of a tree from the front, from the back, or
from both in turn, each entry once.
-/

/-- The entries of a tree that are still to come. -/
structure TreeIterator (Key Value : Type) where
  tree : OrderedTree Key Value
  /-- The node that the front hands out next. -/
  front : Option NodeId
  /-- The node that the back hands out next. -/
  back : Option NodeId
  /-- Number of entries still to come. -/
  remaining : Nat

namespace OrderedTree

variable {Key Value : Type}

/-- An iterator over all entries. -/
def iterator (tree : OrderedTree Key Value) : TreeIterator Key Value :=
  ⟨tree, tree.first, tree.last, tree.size⟩

instance [Text.Described Key] [Text.Described Value] :
    Text.Described (OrderedTree Key Value) where
  describe tree := Text.describeMap tree.toList

end OrderedTree

namespace TreeIterator

variable {Key Value : Type}

/-- The least and the greatest number of entries that may still come. -/
def sizeHint (iterator : TreeIterator Key Value) : Nat × Option Nat :=
  (iterator.remaining, some iterator.remaining)

/-- The number of entries still to come, if the two bounds agree on it. -/
def length? (iterator : TreeIterator Key Value) : Option Nat :=
  let (least, greatest?) := iterator.sizeHint
  if greatest? = some least then some least else none

/-- Hand out the entry at the front; `none` once all are handed out. -/
def next (iterator : TreeIterator Key Value) :
    Option (Key × Value) × TreeIterator Key Value :=
  if iterator.remaining = 0 then (none, iterator)
  else
    match iterator.front.bind iterator.tree.entry? with
    | none => (none, iterator)
    | some entry =>
        (some (entry.key, entry.value),
          { iterator with front := entry.next, remaining := iterator.remaining - 1 })

/-- Hand out the entry at the back; `none` once all are handed out. -/
def nextBack (iterator : TreeIterator Key Value) :
    Option (Key × Value) × TreeIterator Key Value :=
  if iterator.remaining = 0 then (none, iterator)
  else
    match iterator.back.bind iterator.tree.entry? with
    | none => (none, iterator)
    | some entry =>
        (some (entry.key, entry.value),
          { iterator with back := entry.previous, remaining := iterator.remaining - 1 })

end TreeIterator

end OrderedIndex

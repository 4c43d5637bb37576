import OrderedIndex.Tree.Basic

namespace OrderedIndex

/-!
# Handles

A caller may keep the number of a node and use it later.  The number stays good
until its node is removed; after that it is stale, unless the slot has been
given to another node.
-/

/-- The use of a number that no node of the tree has. -/
structure StaleHandle where
  id : NodeId
  deriving Repr, DecidableEq

/-- The sentence that reports a stale handle. -/
def StaleHandle.message (stale : StaleHandle) : String :=
  s!"NodeId({stale.id}) does not refer to a live node"

namespace OrderedTree

variable {Key Value : Type}

/-- The entry behind a handle. -/
def entryAt (tree : OrderedTree Key Value) (id : NodeId) :
    Except StaleHandle (Entry Key Value) :=
  match tree.entry? id with
  | some entry => .ok entry
  | none => .error ⟨id⟩

/-- The key behind a handle. -/
def keyAt (tree : OrderedTree Key Value) (id : NodeId) : Except StaleHandle Key :=
  (tree.entryAt id).map Entry.key

/-- The value behind a handle. -/
def valueAt (tree : OrderedTree Key Value) (id : NodeId) : Except StaleHandle Value :=
  (tree.entryAt id).map Entry.value

/-- The node after the one behind a handle. -/
def nextAt (tree : OrderedTree Key Value) (id : NodeId) :
    Except StaleHandle (Option NodeId) :=
  (tree.entryAt id).map Entry.next

/-- The node before the one behind a handle. -/
def previousAt (tree : OrderedTree Key Value) (id : NodeId) :
    Except StaleHandle (Option NodeId) :=
  (tree.entryAt id).map Entry.previous

/-- Replace the value behind a handle. -/
def setValueAt (tree : OrderedTree Key Value) (id : NodeId) (value : Value) :
    Except StaleHandle (OrderedTree Key Value) :=
  (tree.entryAt id).map fun _ => tree.setValue id value

/-- A handle is stale exactly when its slot holds no entry. -/
theorem entryAt_eq_error_iff
    {tree : OrderedTree Key Value}
    {id : NodeId}
    {stale : StaleHandle} :
    tree.entryAt id = .error stale ↔ tree.entry? id = none ∧ stale = ⟨id⟩ := by
  cases found : tree.entry? id <;> simp [entryAt, found, eq_comm]

end OrderedTree

end OrderedIndex

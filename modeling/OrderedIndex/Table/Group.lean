import OrderedIndex.Store.Backend
import OrderedIndex.Tree.Basic

namespace OrderedIndex

/-!
# Groups of duplicates

The values of one key in a table with duplicates.  A small group is a tree of
its own; a large one is redirected to a secondary store.  A group that outgrows
the policy is promoted to a store by the insertion that makes it too large, and
demoted by the removal that makes it small enough.
-/

/-- When the groups of a table move between inline and redirected storage. -/
structure DuplicatePolicy (Value : Type) where
  /-- Name of the table, for notices. -/
  table : String
  /-- The order of the values. -/
  order : Order Value
  /-- An inline group is promoted once it would hold more values than this. -/
  promoteAbove : Nat
  /-- A redirected group is demoted once it would hold fewer values than this. -/
  demoteBelow : Nat

/-- The values of one key in value order. -/
inductive Group (Value : Type) where
  /-- A small group, in a tree of its own. -/
  | inline (tree : OrderedTree Value Unit)
  /-- A large group, in a secondary store. -/
  | redirected (store : OrderedStore Value)

namespace Backend

variable {Value : Type}

/-- Add values to a store until one fails. -/
def fill (store : OrderedStore Value) :
    List Value → StoreM (Except StoreError Unit × OrderedStore Value)
  | [] => return (.ok (), store)
  | value :: rest => do
      match ← insert store value with
      | (.ok _, grown) => fill grown rest
      | (.error cause, unchanged) => return (.error cause, unchanged)

/-- Read all values after a browser's gap. -/
def readAhead (behind : List Value) : List Value → StoreM (Except StoreError (List Value))
  | [] => do
      match ← meet .next with
      | .ok () => return .ok []
      | .error cause => return .error cause
  | value :: ahead => do
      match ← meet .next with
      | .ok () =>
          match ← readAhead (value :: behind) ahead with
          | .ok values => return .ok (value :: values)
          | .error cause => return .error cause
      | .error cause => return .error cause

end Backend

namespace Group

variable {Value : Type}

/-- The group without values. -/
def empty (order : Order Value) : Group Value := .inline (.empty order)

/-- The values in order. -/
def toList : Group Value → List Value
  | .inline tree => tree.keys
  | .redirected store => store.values

/-- Whether the values are in a secondary store. -/
def isRedirected : Group Value → Bool
  | .inline _ => false
  | .redirected _ => true

/-- Number of values. -/
def size : Group Value → StoreM (Except IndexError Nat)
  | .inline tree => return .ok tree.size
  | .redirected store => return liftStore (← Backend.size store)

/-- Whether the group has a value. -/
def contains (group : Group Value) (value : Value) : StoreM (Except IndexError Bool) :=
  match group with
  | .inline tree => return .ok (tree.contains value)
  | .redirected store => return liftStore (← Backend.contains store value)

/-- The tree of a list of values. -/
def treeOf (order : Order Value) (values : List Value) : OrderedTree Value Unit :=
  values.foldl (fun tree value => (tree.insert value ()).2) (.empty order)

/--
Move an inline group with one more value into a new store.  If the store cannot
be created or filled, the group stays as it was and the store is closed.
-/
def promote
    (policy : DuplicatePolicy Value)
    (tree : OrderedTree Value Unit)
    (value : Value) :
    StoreM (Except IndexError Bool × Group Value) := do
  match ← Backend.create policy.order with
  | .error cause => return (.error (.ofStore cause), .inline tree)
  | .ok created =>
      match ← Backend.fill created (tree.keys ++ [value]) with
      | (.ok (), store) =>
          let backend := (← get).name
          Backend.record fun journal =>
            (journal.note (.promoted policy.table (tree.size + 1) backend store.id)).count
              .duplicatePromotions
          return (.ok true, .redirected store)
      | (.error cause, store) =>
          if let (.error closeCause, _) ← Backend.close store then
            Backend.record
              (·.note (.abandonedNotClosed policy.table store.id closeCause))
          return (.error (.ofStore cause), .inline tree)

/--
Add a value; tell whether it was absent.  An equal value that is present keeps
its own spelling.
-/
def insert (policy : DuplicatePolicy Value) (group : Group Value) (value : Value) :
    StoreM (Except IndexError Bool × Group Value) := do
  match group with
  | .redirected store =>
      let (answer, result) ← Backend.insert store value
      return (liftStore answer, .redirected result)
  | .inline tree =>
      if tree.size < policy.promoteAbove || tree.contains value then
        let (added, result) := tree.insert value ()
        return (.ok added, .inline result)
      else
        promote policy tree value

/--
Move a redirected group without one of its values back inline.  The whole group
is read first, so a store that fails leaves it as it was.
-/
def demote
    (policy : DuplicatePolicy Value)
    (store : OrderedStore Value)
    (value : Value) :
    StoreM (Except IndexError Bool × Group Value) := do
  match ← Backend.browse store .first with
  | .error cause => return (.error (.ofStore cause), .redirected store)
  | .ok browser =>
      match ← Backend.readAhead browser.behind browser.ahead with
      | .error cause => return (.error (.ofStore cause), .redirected store)
      | .ok values =>
          let remaining := values.filter fun stored => policy.order stored value != .eq
          let tree := treeOf policy.order remaining
          if let (.error cause, _) ← Backend.close store then
            Backend.record (·.note (.demotedNotClosed policy.table store.id cause))
          Backend.record fun journal =>
            (journal.note (.demoted policy.table tree.size store.id)).count
              .duplicateDemotions
          return (.ok true, .inline tree)

/-- Remove a value; tell whether it was present. -/
def remove (policy : DuplicatePolicy Value) (group : Group Value) (value : Value) :
    StoreM (Except IndexError Bool × Group Value) := do
  match group with
  | .inline tree =>
      let (removed, result) := tree.remove value
      return (.ok removed.isSome, .inline result)
  | .redirected store =>
      match ← Backend.size store with
      | .error cause => return (.error (.ofStore cause), group)
      | .ok size =>
          if policy.demoteBelow ≤ size - 1 then
            let (answer, result) ← Backend.remove store value
            return (liftStore answer, .redirected result)
          else
            match ← Backend.contains store value with
            | .error cause => return (.error (.ofStore cause), group)
            | .ok false =>
                let (answer, result) ← Backend.remove store value
                return (liftStore answer, .redirected result)
            | .ok true => demote policy store value

/-- Whether there is a value at or above the given one. -/
def hasAtLeast (group : Group Value) (value : Value) : StoreM (Except IndexError Bool) := do
  match group with
  | .inline tree => return .ok (tree.findAtLeast? value).isSome
  | .redirected store =>
      match ← Backend.browse store (.before value) with
      | .error cause => return .error (.ofStore cause)
      | .ok browser =>
          let (answer, _) ← Backend.next browser
          return liftStore (answer.map Option.isSome)

/-- Whether there is a value at or below the given one. -/
def hasAtMost (group : Group Value) (value : Value) : StoreM (Except IndexError Bool) := do
  match group with
  | .inline tree => return .ok (tree.findAtMost? value).isSome
  | .redirected store =>
      match ← Backend.browse store (.after value) with
      | .error cause => return .error (.ofStore cause)
      | .ok browser =>
          let (answer, _) ← Backend.previous browser
          return liftStore (answer.map Option.isSome)

/-- Release the secondary store, if there is one. -/
def close : Group Value → StoreM (Except IndexError Unit)
  | .inline _ => return .ok ()
  | .redirected store => do
      let (answer, _) ← Backend.close store
      return liftStore answer

end Group

end OrderedIndex

import OrderedIndex.Config
import OrderedIndex.Table.Group

namespace OrderedIndex

/-!
# Index tables

A table maps keys to values in key order.  Without duplicates a key has one
value; with duplicates it has a group of distinct values in value order.  The
number of tuples is counted as they come and go.
-/

/-- The contents of a table. -/
inductive Entries (Key Value : Type) where
  /-- One value for each key. -/
  | unique (tree : OrderedTree Key Value)
  /-- A group of values for each key. -/
  | duplicates (tree : OrderedTree Key (Group Value)) (policy : DuplicatePolicy Value)

namespace Entries

variable {Key Value Answer : Type}

/-- Ask the tree of keys, whatever is stored under them. -/
def ask
    (entries : Entries Key Value)
    (question : {Stored : Type} → OrderedTree Key Stored → Answer) :
    Answer :=
  match entries with
  | .unique tree => question tree
  | .duplicates tree _ => question tree

end Entries

/-- An ordered index from keys to values. -/
structure Table (Key Value : Type) where
  name : String
  keyOrder : Order Key
  /-- The order of the values; a table without duplicates may have none. -/
  valueOrder? : Option (Order Value)
  entries : Entries Key Value
  /-- Number of tuples. -/
  count : Nat
  /-- The most values that a key keeps inline. -/
  duplicateLimit : Nat

namespace Table

variable {Key Value : Type}

/-! ## Opening -/

/-- Give the backend the settings that a configuration has for it. -/
def configureBackend (config : TableConfig) : StoreM (Except StoreError Unit) := do
  let sized ← match config.cacheSize? with
    | some entries => Backend.setCacheSize entries
    | none => pure (.ok ())
  match sized, config.workingDirectory? with
  | .ok (), some path => Backend.setWorkingDirectory path
  | answer, _ => return answer

/-- The contents of a new table. -/
def initialEntries
    (config : TableConfig)
    (keyOrder : Order Key)
    (valueOrder? : Option (Order Value)) :
    Except IndexError (Entries Key Value) :=
  if config.duplicates then
    match valueOrder? with
    | none =>
        .error (.configuration config.name "duplicate keys require a value comparator")
    | some valueOrder =>
        .ok (.duplicates (.empty keyOrder)
          ⟨config.name, valueOrder, config.duplicateLimit, config.demotionLimit⟩)
  else .ok (.unique (.empty keyOrder))

/-- A new table with the given settings. -/
def new
    (config : TableConfig)
    (keyOrder : Order Key)
    (valueOrder? : Option (Order Value)) :
    StoreM (Except IndexError (Table Key Value)) := do
  Backend.record (·.describe Metric.ofTables)
  if config.duplicateLimit = 0 then
    return .error
      (.configuration config.name "the duplicate limit must be at least 1")
  match ← configureBackend config with
  | .error cause => return .error (.ofStore cause)
  | .ok () =>
      match initialEntries config keyOrder valueOrder? with
      | .error cause => return .error cause
      | .ok entries =>
          let backend := (← get).name
          Backend.record (·.note (.tableOpened config.name config.duplicates backend))
          return .ok ⟨config.name, keyOrder, valueOrder?, entries, 0, config.duplicateLimit⟩

/-! ## Settings -/

/-- Whether a key may have more than one value. -/
def allowsDuplicates (table : Table Key Value) : Bool :=
  match table.entries with
  | .unique _ => false
  | .duplicates .. => true

/-- Whether the counts that the table reports are exact. -/
def isCountExact (table : Table Key Value) : StoreM Bool :=
  match table.entries with
  | .unique _ => return true
  | .duplicates .. => return (← get).exact

/-- Set the number of entries that the secondary store backend may cache. -/
def setCacheSize (_ : Table Key Value) (entries : Nat) : StoreM (Except IndexError Unit) :=
  return liftStore (← Backend.setCacheSize entries)

/-- Set the directory where the secondary store backend keeps its files. -/
def setWorkingDirectory (_ : Table Key Value) (path : String) :
    StoreM (Except IndexError Unit) :=
  return liftStore (← Backend.setWorkingDirectory path)

/-- The order of the values, which an operation needs for the stated reason. -/
def requireValueOrder (table : Table Key Value) (reason : String) :
    Except IndexError (Order Value) :=
  match table.valueOrder? with
  | some order => .ok order
  | none => .error (.configuration table.name reason)

/-! ## Changing -/

/-- The same table with other contents and another count. -/
def withEntries (table : Table Key Value) (entries : Entries Key Value) (count : Nat) :
    Table Key Value :=
  { table with entries := entries, count := count }

/--
Add a tuple; tell whether the number of tuples grew.  Without duplicates the
value replaces the one that the key had.
-/
def put (table : Table Key Value) (key : Key) (value : Value) :
    StoreM (Except IndexError Bool × Table Key Value) := do
  match table.entries with
  | .unique tree =>
      match tree.find? key with
      | some id =>
          return (.ok false, table.withEntries (.unique (tree.setValue id value)) table.count)
      | none =>
          let (added, result) := tree.insert key value
          return (.ok added,
            table.withEntries (.unique result) (table.count + added.toNat))
  | .duplicates tree policy =>
      match tree.find? key with
      | some id =>
          match tree.value? id with
          | none => return (.ok false, table)
          | some group =>
              let (answer, result) ← group.insert policy value
              let entries := .duplicates (tree.setValue id result) policy
              match answer with
              | .ok added =>
                  return (.ok added, table.withEntries entries (table.count + added.toNat))
              | .error cause =>
                  return (.error cause, table.withEntries entries table.count)
      | none =>
          match ← (Group.empty policy.order).insert policy value with
          | (.ok _, group) =>
              let (added, result) := tree.insert key group
              return (.ok added,
                table.withEntries (.duplicates result policy) (table.count + added.toNat))
          | (.error cause, _) => return (.error cause, table)

/-- Remove all tuples with a key; tell whether there were any. -/
def remove (table : Table Key Value) (key : Key) :
    StoreM (Except IndexError Bool × Table Key Value) := do
  match table.entries with
  | .unique tree =>
      let (removed, result) := tree.remove key
      return (.ok removed.isSome,
        table.withEntries (.unique result) (table.count - removed.isSome.toNat))
  | .duplicates tree policy =>
      match tree.get? key with
      | none => return (.ok false, table)
      | some group =>
          match ← group.size with
          | .error cause => return (.error cause, table)
          | .ok size =>
              let (_, result) := tree.remove key
              let shrunk :=
                table.withEntries (.duplicates result policy) (table.count - size)
              match ← group.close with
              | .error cause => return (.error cause, shrunk)
              | .ok () => return (.ok true, shrunk)

/-- Remove a key whose group is empty and release its store. -/
def dropIfEmpty
    (table : Table Key Value)
    (tree : OrderedTree Key (Group Value))
    (policy : DuplicatePolicy Value)
    (key : Key)
    (group : Group Value) :
    StoreM (Except IndexError Bool × Table Key Value) := do
  match ← group.size with
  | .error cause => return (.error cause, table)
  | .ok size =>
      if size = 0 then
        let (_, result) := tree.remove key
        let shrunk := table.withEntries (.duplicates result policy) table.count
        match ← group.close with
        | .error cause => return (.error cause, shrunk)
        | .ok () => return (.ok true, shrunk)
      else return (.ok true, table)

/--
Remove one tuple; tell whether it was present.  Removing the last value of a
key removes the key.
-/
def removeValue (table : Table Key Value) (key : Key) (value : Value) :
    StoreM (Except IndexError Bool × Table Key Value) := do
  match table.entries with
  | .unique tree =>
      match table.requireValueOrder "matching values requires a value comparator" with
      | .error cause => return (.error cause, table)
      | .ok order =>
          if (tree.get? key).any fun stored => order stored value == .eq then
            let (_, result) := tree.remove key
            return (.ok true, table.withEntries (.unique result) (table.count - 1))
          else return (.ok false, table)
  | .duplicates tree policy =>
      match tree.find? key with
      | none => return (.ok false, table)
      | some id =>
          match tree.value? id with
          | none => return (.ok false, table)
          | some group =>
              let (answer, result) ← group.remove policy value
              let updated := tree.setValue id result
              let entries := .duplicates updated policy
              match answer with
              | .error cause =>
                  return (.error cause, table.withEntries entries table.count)
              | .ok false => return (.ok false, table.withEntries entries table.count)
              | .ok true =>
                  (table.withEntries entries (table.count - 1)).dropIfEmpty updated policy
                    key result

/-! ## Reading -/

/-- The value under a key of a table without duplicates. -/
def get (table : Table Key Value) (key : Key) : Except IndexError (Option Value) :=
  match table.entries with
  | .unique tree => .ok (tree.get? key)
  | .duplicates .. =>
      .error (.unsupported
        s!"table {table.name} allows duplicate keys, so a key has no single value")

/-- Whether any tuple has a key. -/
def has (table : Table Key Value) (key : Key) : Bool :=
  (table.entries.ask fun tree => tree.find? key).isSome

/-- Whether any tuple has a key at or above the given one. -/
def hasAtLeast (table : Table Key Value) (key : Key) : Bool :=
  (table.entries.ask fun tree => tree.findAtLeast? key).isSome

/-- Whether any tuple has a key at or below the given one. -/
def hasAtMost (table : Table Key Value) (key : Key) : Bool :=
  (table.entries.ask fun tree => tree.findAtMost? key).isSome

/--
Ask about the values of a key: the stored value by a comparison, a group by its
own question.  A key that is absent has no values.
-/
def askValues
    (table : Table Key Value)
    (key : Key)
    (compare : Order Value → Value → Bool)
    (question : Group Value → StoreM (Except IndexError Bool)) :
    StoreM (Except IndexError Bool) :=
  match table.entries with
  | .unique tree =>
      match table.requireValueOrder "comparing values requires a value comparator" with
      | .error cause => return .error cause
      | .ok order => return .ok ((tree.get? key).any (compare order))
  | .duplicates tree _ =>
      match tree.get? key with
      | some group => question group
      | none => return .ok false

/-- Whether a tuple is present. -/
def hasValue (table : Table Key Value) (key : Key) (value : Value) :
    StoreM (Except IndexError Bool) :=
  table.askValues key (fun order stored => order stored value == .eq)
    fun group => group.contains value

/-- Whether a key has a value at or above the given one. -/
def hasValueAtLeast (table : Table Key Value) (key : Key) (value : Value) :
    StoreM (Except IndexError Bool) :=
  table.askValues key (fun order stored => order stored value != .lt)
    fun group => group.hasAtLeast value

/-- Whether a key has a value at or below the given one. -/
def hasValueAtMost (table : Table Key Value) (key : Key) (value : Value) :
    StoreM (Except IndexError Bool) :=
  table.askValues key (fun order stored => order stored value != .gt)
    fun group => group.hasAtMost value

/-! ## Counting -/

/-- Number of distinct keys. -/
def keyCount (table : Table Key Value) : Nat := table.entries.ask fun tree => tree.size

/-- Whether there are no tuples. -/
def isEmpty (table : Table Key Value) : Bool := table.count == 0

/-- Number of values under the key of a node. -/
def groupSize (table : Table Key Value) (node : NodeId) : StoreM (Except IndexError Nat) :=
  match table.entries with
  | .unique _ => return .ok 1
  | .duplicates tree _ =>
      match tree.value? node with
      | some group => group.size
      | none => return .ok 0

/-- Number of values under the keys of several nodes, up to the first failure. -/
def groupSizes (table : Table Key Value) (total : Nat) :
    List NodeId → StoreM (Except IndexError Nat)
  | [] => return .ok total
  | node :: rest => do
      match ← table.groupSize node with
      | .ok size => table.groupSizes (total + size) rest
      | .error cause => return .error cause

/-- Number of tuples with a key. -/
def countKey (table : Table Key Value) (key : Key) : StoreM (Except IndexError Nat) :=
  match table.entries.ask fun tree => tree.find? key with
  | some node => table.groupSize node
  | none => return .ok 0

/-- Number of tuples with a key above the given one. -/
def countAbove (table : Table Key Value) (key : Key) : StoreM (Except IndexError Nat) :=
  table.groupSizes 0
    (table.entries.ask fun tree => tree.ascend tree.size (tree.findAbove? key))

/-- Number of tuples with a key below the given one. -/
def countBelow (table : Table Key Value) (key : Key) : StoreM (Except IndexError Nat) :=
  table.groupSizes 0
    (table.entries.ask fun tree => tree.descend tree.size (tree.findBelow? key))

/-- Number of keys whose values are in a secondary store. -/
def redirectedKeyCount (table : Table Key Value) : Nat :=
  match table.entries with
  | .unique _ => 0
  | .duplicates tree _ => (tree.values.filter Group.isRedirected).length

/-- The tuples in key order and, under one key, in value order. -/
def toList (table : Table Key Value) : List (Key × Value) :=
  match table.entries with
  | .unique tree => tree.toList
  | .duplicates tree _ =>
      tree.toList.flatMap fun (key, group) => group.toList.map fun value => (key, value)

/-! ## Closing -/

/-- Release the stores of groups; the first failure is the answer. -/
def closeGroups (name : String) (answer : Except IndexError Unit) :
    List (Group Value) → StoreM (Except IndexError Unit)
  | [] => return answer
  | group :: rest => do
      match ← group.close with
      | .ok () => closeGroups name answer rest
      | .error cause =>
          Backend.record (·.note (.storeNotClosed name cause))
          closeGroups name (answer.bind fun _ => .error cause) rest

/-- Release all secondary stores, even if releasing one of them fails. -/
def close (table : Table Key Value) : StoreM (Except IndexError Unit) := do
  let groups := match table.entries with
    | .unique _ => []
    | .duplicates tree _ => tree.values
  let answer ← closeGroups table.name (.ok ()) groups
  Backend.record (·.note (.tableClosed table.name))
  return answer

/-! ## Whole trees -/

/-- The tree of a table without duplicates. -/
def uniqueTree? (table : Table Key Value) : Option (OrderedTree Key Value) :=
  match table.entries with
  | .unique tree => some tree
  | .duplicates .. => none

/-- Replace the contents of a table without duplicates. -/
def loadUnique (table : Table Key Value) (tree : OrderedTree Key Value) :
    Except IndexError (Table Key Value) :=
  match table.entries with
  | .unique _ => .ok (table.withEntries (.unique tree) tree.size)
  | .duplicates .. =>
      .error (.configuration table.name
        "cannot load a unique tree into a table with duplicates")

end Table

end OrderedIndex

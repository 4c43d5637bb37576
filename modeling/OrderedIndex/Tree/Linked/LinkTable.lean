import OrderedIndex.Tree.Linked.Heights

namespace OrderedIndex

/-!
# Checking links with columns

Records are checked with columns that have a place for each of them: whether a
link named the record, its two children, the height found at it.  The walk along
the links keeps the records whose right side is still to come on a stack, and
nothing in it counts its steps.  An access to a place that a column does not have
is a fault, and so is a walk that takes more steps than it is given.
-/

/-- A check that refuses what the records say, or that a fault ends. -/
abbrev Checking := ExceptT DecodeError (Except TreeFault)

namespace Checking

variable {Result : Type}

/-- What the check relies on; where it does not find it, the fault ends the check. -/
def rely (relied : Except TreeFault Result) : Checking Result := ExceptT.lift relied

/-- What the records have to say; where they do not, they are refused. -/
def require (required : Except DecodeError Result) : Checking Result :=
  ExceptT.mk (.ok required)

end Checking

namespace Column

variable {Item : Type}

/-- The item in a place of a column. -/
def read (column : Array Item) (place : Nat) : Except TreeFault Item :=
  TreeFault.expect (.outOfBounds column.size place) column[place]?

/-- A column with another item in one of its places. -/
def write (column : Array Item) (place : Nat) (item : Item) : Except TreeFault (Array Item) :=
  if place < column.size then .ok (column.setIfInBounds place item)
  else .error (.outOfBounds column.size place)

end Column

/-- The children of every record and the heights found so far. -/
structure LinkTable where
  root : Nat
  left : Array (Option Nat)
  right : Array (Option Nat)
  heights : Array Nat
  deriving Repr, DecidableEq

/-- A walk from left to right. -/
structure LinkWalk where
  /-- The records whose right side is still to come, the last one first. -/
  stack : List Nat
  /-- The records that the walk has met, the last one first. -/
  visited : List Nat
  /-- Number of records that are behind the walk, which is the next index in order. -/
  expected : Nat
  /-- Where the walk goes on, if not at the top of the stack. -/
  cursor : Option Nat
  deriving Repr, DecidableEq

namespace LinkTable

/-! ## Naming -/

/-- Name a child, which must not have been named before. -/
def name (named : Array Bool) : Option Nat → Checking (Array Bool)
  | none => return named
  | some index => do
      if ← Checking.rely (Column.read named index) then
        throw (.malformed s!"node {index} is referenced more than once")
      else
        Checking.rely (Column.write named index true)

/-- The children of the records behind those that are in the columns. -/
def fill (count : Nat) (named : Array Bool) (left right : Array (Option Nat)) :
    List NodeRecord → Checking (Array (Option Nat) × Array (Option Nat))
  | [] => return (left, right)
  | record :: rest => do
      let leftChild ← Checking.require (Links.index? "child" count record.left)
      let rightChild ← Checking.require (Links.index? "child" count record.right)
      let namedLeft ← name named leftChild
      let namedBoth ← name namedLeft rightChild
      fill count namedBoth (left.push leftChild) (right.push rightChild) rest

/-- The columns of a list of records under a topmost one, without heights. -/
def ofRecords (root : UInt32) (records : List NodeRecord) : Checking LinkTable := do
  match ← Checking.require (Links.index? "root" records.length root) with
  | none => throw (.malformed "non-empty tree without a root")
  | some index => do
      let named ← Checking.rely (Column.write (Array.replicate records.length false) index true)
      let (left, right) ← fill records.length named #[] #[] records
      return ⟨index, left, right, Array.replicate records.length 0⟩

/-! ## Walking -/

/--
Walk on until nothing is left or a record is not the next in order.  The walk
goes down to the left as far as it can, and then to the right of the last record
that it passed.
-/
def walk (table : LinkTable) :
    (fuel : Nat) → LinkWalk → Except TreeFault (LinkWalk × Option Nat)
  | 0, _ => .error .endless
  | fuel + 1, ⟨stack, visited, expected, some index⟩ => do
      let left ← Column.read table.left index
      table.walk fuel ⟨index :: stack, index :: visited, expected, left⟩
  | _ + 1, ⟨[], visited, expected, none⟩ => .ok (⟨[], visited, expected, none⟩, none)
  | fuel + 1, ⟨index :: stack, visited, expected, none⟩ =>
      if index ≠ expected then
        .ok (⟨stack, visited, expected, none⟩, some index)
      else if UInt64.size ≤ expected + 1 then
        .error (.overflow "add")
      else do
        let right ← Column.read table.right index
        table.walk fuel ⟨stack, visited, expected + 1, right⟩

/-! ## Measuring -/

/-- The height found at a child. -/
def heightOf (heights : Array Nat) : Option Nat → Except TreeFault Nat
  | none => .ok 0
  | some index => Column.read heights index

/-- The heights of records, each measured after those before it, if their balances are right. -/
def measure (table : LinkTable) (records : Array NodeRecord) (heights : Array Nat) :
    List Nat → Checking (Array Nat)
  | [] => return heights
  | index :: rest => do
      let left ← Checking.rely (do heightOf heights (← Column.read table.left index))
      let right ← Checking.rely (do heightOf heights (← Column.read table.right index))
      let stored := (← Checking.rely (Column.read records index)).balance.toInt
      let difference : Int := (left : Int) - right
      if stored = difference ∧ difference.natAbs ≤ 1 then do
        let height ← Checking.rely (HeightArithmetic.bytes.above left right)
        table.measure records (← Checking.rely (Column.write heights index height)) rest
      else
        throw (.malformed
          s!"node {index} has balance {stored} but its subtrees differ by {difference}")

/-! ## Checking -/

/--
Check that the walk from the topmost record meets all records in order and that
their balances are right; tell which records the walk met, the last one first.
-/
def checkShape (table : LinkTable) (fuel : Nat) (records : List NodeRecord) :
    Except TreeFault (List Nat × Except DecodeError LinkTable) := do
  let (ended, misplaced) ← table.walk fuel ⟨[], [], 0, some table.root⟩
  match misplaced with
  | some index =>
      return (ended.visited, .error (.malformed s!"node {index} is out of key order"))
  | none =>
      if ended.expected = records.length then
        let measured ← (table.measure records.toArray table.heights ended.visited).run
        return (ended.visited, measured.map fun heights => { table with heights := heights })
      else if records.length < ended.expected then
        throw (.overflow "subtract")
      else
        return (ended.visited, .error (.malformed
          s!"{records.length - ended.expected} nodes are unreachable from the root"))

/-- Check records under a topmost one. -/
def check (fuel : Nat) (root : UInt32) (records : List NodeRecord) :
    Except TreeFault (List Nat × Except DecodeError LinkTable) := do
  match ← (ofRecords root records).run with
  | .error cause => return ([], .error cause)
  | .ok table => table.checkShape fuel records

end LinkTable

end OrderedIndex

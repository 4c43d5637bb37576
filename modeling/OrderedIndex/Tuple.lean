import OrderedIndex.Json.Form
import OrderedIndex.Order

namespace OrderedIndex

/-!
# Tuples

A table cursor stands on tuples of a key and a value.
-/

/-- A key with one of its values. -/
structure Tuple (Key Value : Type) where
  key : Key
  value : Value
  deriving Repr, DecidableEq

namespace Tuple

variable {Key Value : Type}

/-- The tuple as a pair. -/
def toPair (tuple : Tuple Key Value) : Key × Value := (tuple.key, tuple.value)

/-- The tuple of a pair. -/
def ofPair (pair : Key × Value) : Tuple Key Value := ⟨pair.1, pair.2⟩

/-- Tuples by key, and by value under the same key. -/
def order (keys : Order Key) (values : Order Value) : Order (Tuple Key Value) :=
  fun first second => Order.lexicographic keys values first.toPair second.toPair

instance [Text.Described Key] [Text.Described Value] :
    Text.Described (Tuple Key Value) where
  describe tuple :=
    Text.describeRecord "Tuple"
      [("key", Text.describe tuple.key), ("value", Text.describe tuple.value)]

instance [Json.Form Key] [Json.Form Value] : Json.Form (Tuple Key Value) where
  write tuple := do
    return Json.writeRecord
      [("key", ← Json.Form.write tuple.key), ("value", ← Json.Form.write tuple.value)]
  read? form := do
    match ← Json.readRecord? ["key", "value"] form with
    | [some key, some value] =>
        return ⟨← Json.Form.read? key, ← Json.Form.read? value⟩
    | _ => none

end Tuple

end OrderedIndex

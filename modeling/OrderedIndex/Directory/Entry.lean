import OrderedIndex.Json.Form
import OrderedIndex.Order

namespace OrderedIndex

/-!
# Directory entries

The entries that a master table stores, in the form in which a directory keeps
them: a distinguished name and attribute values in order.
-/

/-- One entry of a directory. -/
structure DirectoryEntry where
  /-- The distinguished name. -/
  dn : String
  /-- Attribute names with their values. -/
  attributes : List (String × String)
  deriving Repr, DecidableEq

namespace DirectoryEntry

/-- Entries by distinguished name. -/
def byName : Order DirectoryEntry := Order.byRank DirectoryEntry.dn

/-- Entries by distinguished name, then by attributes. -/
def byContent : Order DirectoryEntry :=
  let attributeOrder : Order (String × String) := Order.lexicographic compare compare
  fun first second =>
    (byName first second).then
      (List.compareLex attributeOrder first.attributes second.attributes)

instance : Text.Described DirectoryEntry where
  describe entry :=
    Text.describeRecord "Entry"
      [("dn", Text.describe entry.dn), ("attributes", Text.describe entry.attributes)]

instance : Json.Form DirectoryEntry where
  write entry := do
    return Json.writeRecord
      [("dn", ← Json.Form.write entry.dn),
        ("attributes", ← Json.Form.write entry.attributes)]
  read? form := do
    match ← Json.readRecord? ["dn", "attributes"] form with
    | [some dn, some attributes] =>
        return ⟨← Json.Form.read? dn, ← Json.Form.read? attributes⟩
    | _ => none

end DirectoryEntry

end OrderedIndex

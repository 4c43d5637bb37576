import OrderedIndex.Json.Form
import OrderedIndex.SortedMap

namespace OrderedIndex

/-!
# Counts by path

A map from paths of numbers to numbers, in path order.  Its keys are no
strings, so as JSON only the empty map can be written or read.
-/

/-- A map from paths to numbers, in ascending order of the paths. -/
structure PathCounts where
  toList : List (List UInt64 × UInt64)
  deriving Repr, DecidableEq

namespace PathCounts

/-- Paths by their first differing number. -/
def pathOrder : Order (List UInt64) := List.compareLex compare

/-- The map of a list of pairs, of which the last under a path counts. -/
def ofList (pairs : List (List UInt64 × UInt64)) : PathCounts :=
  ⟨SortedMap.ofList pathOrder pairs⟩

/-- Maps by their pairs in path order. -/
def byPairs : Order PathCounts :=
  fun first second =>
    List.compareLex (Order.lexicographic pathOrder compare) first.toList second.toList

instance : Text.Described PathCounts where
  describe map := Text.describeMap map.toList

instance : Json.Form PathCounts where
  write map := if map.toList.isEmpty then .ok "\x7b\x7d" else .error .keyNotString
  read?
    | .object [] => some ⟨[]⟩
    | _ => none

end PathCounts

end OrderedIndex

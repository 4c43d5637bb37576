import OrderedIndex.Order

namespace OrderedIndex.SortedMap

/-!
# Small sorted maps

Association lists in ascending key order, for maps that are small and have to
be listed in order.
-/

variable {Key Value : Type}

/-- Put a value under a key, in place of the one that an equal key had. -/
def insert (order : Order Key) (key : Key) (value : Value) :
    List (Key × Value) → List (Key × Value)
  | [] => [(key, value)]
  | first :: rest =>
      match order key first.1 with
      | .lt => (key, value) :: first :: rest
      | .eq => (first.1, value) :: rest
      | .gt => first :: insert order key value rest

/-- The map of a list of pairs, of which the last under a key counts. -/
def ofList (order : Order Key) (pairs : List (Key × Value)) : List (Key × Value) :=
  pairs.foldl (fun map (key, value) => insert order key value map) []

/-- The value under a key. -/
def get? (order : Order Key) (key : Key) (map : List (Key × Value)) : Option Value :=
  (map.find? fun pair => order key pair.1 == .eq).map Prod.snd

end OrderedIndex.SortedMap

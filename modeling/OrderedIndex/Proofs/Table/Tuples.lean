import OrderedIndex.Proofs.Cursor.Position
import OrderedIndex.Proofs.Table.Multimap
import OrderedIndex.Proofs.Tree.Chain
import OrderedIndex.Tuple

namespace OrderedIndex

/-!
# Tuples in order

The stops of a table are its nodes with the values under their keys.  The tuples
of a table are those of one stop after the other, and the borders of a key or of
a tuple among them lie at a stop or within it.
-/

variable {Key Value : Type}

/-- A node of a table with the values under its key. -/
abbrev Stop (Key Value : Type) := TreeNode Key (List Value)

/-- The tuples of one stop. -/
def Stop.tuples (stop : Stop Key Value) : List (Tuple Key Value) :=
  stop.value.map fun value => ⟨stop.key, value⟩

/-- The tuples of all stops. -/
def listing (stops : List (Stop Key Value)) : List (Tuple Key Value) :=
  stops.flatMap Stop.tuples

@[simp] theorem listing_nil : listing ([] : List (Stop Key Value)) = [] := rfl

@[simp] theorem listing_cons (stop : Stop Key Value) (stops : List (Stop Key Value)) :
    listing (stop :: stops) = stop.tuples ++ listing stops :=
  rfl

/-- The tuples of two lists of stops follow each other. -/
@[simp] theorem listing_append (first second : List (Stop Key Value)) :
    listing (first ++ second) = listing first ++ listing second :=
  List.flatMap_append

/-- A stop has as many tuples as values. -/
theorem Stop.length_tuples (stop : Stop Key Value) :
    stop.tuples.length = stop.value.length :=
  List.length_map _

/-- The tuples of stops are those of the multimap that the stops make up. -/
theorem listing_eq_tuples (stops : List (Stop Key Value)) :
    listing stops = (TableSpec.tuples (stops.map TreeNode.pair)).map Tuple.ofPair := by
  rw [listing, TableSpec.tuples, List.flatMap_map, List.map_flatMap]
  refine congrArg (fun tuples => stops.flatMap tuples) (funext fun stop => ?_)
  rw [List.map_map]
  rfl

/-! ## Orders of tuples -/

/-- The order of the values; without one, all count as equal. -/
def TableSpec.valueOrder (spec : TableSpec Key Value) : Order Value :=
  spec.kind.order?.getD Order.indifferent

/-- Tuples by key and then by value. -/
def TableSpec.order (spec : TableSpec Key Value) : Order (Tuple Key Value) :=
  Tuple.order spec.keys spec.valueOrder

instance Tuple.order_transCmp
    {keys : Order Key}
    {values : Order Value}
    [Std.TransCmp keys]
    [Std.TransCmp values] :
    Std.TransCmp (Tuple.order keys values) :=
  inferInstanceAs (Std.TransCmp (compareLex (keys.on Tuple.key) (values.on Tuple.value)))

/-- The comparison of a key with those of tuples. -/
def TableSpec.probeTuple (spec : TableSpec Key Value) (key : Key) (tuple : Tuple Key Value) :
    Ordering :=
  spec.keys key tuple.key

/-- The comparison of a key with those of stops. -/
def TableSpec.probeStop (spec : TableSpec Key Value) (key : Key) (stop : Stop Key Value) :
    Ordering :=
  spec.keys key stop.key

section Borders

variable
  {spec : TableSpec Key Value}
  {stops below above : List (Stop Key Value)}
  {stop : Stop Key Value}
  {key : Key}

/-- What holds of all stops holds of all tuples if the tuples compare as their stops do. -/
theorem forall_mem_listing
    {probe : Tuple Key Value → Ordering}
    {ordering : Ordering}
    (agrees : ∀ tuple, spec.keys key tuple.key = ordering → probe tuple = ordering)
    (all : ∀ stop ∈ stops, spec.probeStop key stop = ordering) :
    ∀ tuple ∈ listing stops, probe tuple = ordering := by
  intro tuple member
  obtain ⟨stop, inStops, inStop⟩ := List.mem_flatMap.mp member
  obtain ⟨value, inValues, rfl⟩ := List.mem_map.mp inStop
  exact agrees _ (all stop inStops)

/-- A tuple with a lesser key is in front, whatever its value. -/
theorem order_of_gt
    (sought tuple : Tuple Key Value)
    (compared : spec.keys sought.key tuple.key = .gt) :
    spec.order sought tuple = .gt := by
  simp [TableSpec.order, Tuple.order, Order.lexicographic, Tuple.toPair, compared]

/-- A tuple with a greater key is behind, whatever its value. -/
theorem order_of_lt
    (sought tuple : Tuple Key Value)
    (compared : spec.keys sought.key tuple.key = .lt) :
    spec.order sought tuple = .lt := by
  simp [TableSpec.order, Tuple.order, Order.lexicographic, Tuple.toPair, compared]

/-- Tuples with equal keys are ordered by their values. -/
theorem order_of_eq
    (sought tuple : Tuple Key Value)
    (compared : spec.keys sought.key tuple.key = .eq) :
    spec.order sought tuple = spec.valueOrder sought.value tuple.value := by
  simp [TableSpec.order, Tuple.order, Order.lexicographic, Tuple.toPair, compared]

/-! ## Borders of a key -/

/-- The tuples of keys below are below the key. -/
theorem tuples_below_key (allBelow : Order.AllBelow (spec.probeStop key) below) :
    Order.AllBelow (spec.probeTuple key) (listing below) :=
  forall_mem_listing (fun _ => id) allBelow

/-- The tuples of keys above are above the key. -/
theorem tuples_above_key (allAbove : Order.AllAbove (spec.probeStop key) above) :
    Order.AllAbove (spec.probeTuple key) (listing above) :=
  forall_mem_listing (fun _ => id) allAbove

/-- The tuples of an equal key are equal to the key. -/
theorem tuples_equal_key (equal : spec.probeStop key stop = .eq) :
    ∀ tuple ∈ stop.tuples, spec.probeTuple key tuple = .eq := by
  intro tuple member
  obtain ⟨value, _, rfl⟩ := List.mem_map.mp member
  exact equal

/-- The borders of a key among the tuples are its borders among the stops. -/
theorem borders_key (split : Order.Split (spec.probeStop key) stops) :
    Order.lower (spec.probeTuple key) (listing stops) =
        listing (Order.lower (spec.probeStop key) stops) ∧
      Order.notUpper (spec.probeTuple key) (listing stops) =
        listing (Order.notUpper (spec.probeStop key) stops) := by
  rcases split with
    ⟨below, above, stop, rfl, equal, allBelow, allAbove⟩ | ⟨below, above, rfl, allBelow, allAbove⟩
  · obtain ⟨lower, notUpper⟩ :=
      Order.borders_between (tuples_below_key allBelow) (tuples_above_key allAbove) stop.tuples
    obtain ⟨stopLower, stopNotUpper⟩ := Order.borders_equal (tuples_equal_key equal)
    rw [listing_append, listing_cons, lower, notUpper, stopLower, stopNotUpper,
      (Order.lower_present allBelow equal).1, (Order.upper_present allBelow equal allAbove).1]
    simp
  · obtain ⟨⟨lower, _⟩, notUpper, _⟩ :=
      Order.borders_absent (tuples_below_key allBelow) (tuples_above_key allAbove)
    obtain ⟨⟨stopLower, _⟩, stopNotUpper, _⟩ := Order.borders_absent allBelow allAbove
    rw [listing_append, lower, notUpper, stopLower, stopNotUpper]
    exact ⟨rfl, rfl⟩

/-- The gap before a key is behind the tuples of all lesser keys. -/
theorem before_key (split : Order.Split (spec.probeStop key) stops) :
    Position.before (spec.probeTuple key) (listing stops) =
      .gap (listing (Order.lower (spec.probeStop key) stops)).length := by
  rw [Position.before, (borders_key split).1]

/-- The gap after a key is behind the tuples of all keys that are not greater. -/
theorem after_key (split : Order.Split (spec.probeStop key) stops) :
    Position.after (spec.probeTuple key) (listing stops) =
      .gap (listing (Order.notUpper (spec.probeStop key) stops)).length := by
  rw [Position.after, (borders_key split).2]

/-! ## Borders of a tuple -/

section Tuple

variable {tuple : Tuple Key Value}

/-- The tuples of keys below are below a tuple with the key. -/
theorem tuples_below (allBelow : Order.AllBelow (spec.probeStop tuple.key) below) :
    Order.AllBelow (spec.order tuple) (listing below) :=
  forall_mem_listing (order_of_gt tuple) allBelow

/-- The tuples of keys above are above a tuple with the key. -/
theorem tuples_above (allAbove : Order.AllAbove (spec.probeStop tuple.key) above) :
    Order.AllAbove (spec.order tuple) (listing above) :=
  forall_mem_listing (order_of_lt tuple) allAbove

/-- At a stop with the key of a tuple, its value has the borders among the values. -/
theorem borders_present
    (equal : spec.probeStop tuple.key stop = .eq)
    (allBelow : Order.AllBelow (spec.probeStop tuple.key) below)
    (allAbove : Order.AllAbove (spec.probeStop tuple.key) above) :
    Position.before (spec.order tuple) (listing (below ++ stop :: above)) =
        (Position.before (spec.valueOrder tuple.value) stop.value).shift
          (listing below).length ∧
      Position.after (spec.order tuple) (listing (below ++ stop :: above)) =
        (Position.after (spec.valueOrder tuple.value) stop.value).shift
          (listing below).length := by
  obtain ⟨lower, notUpper⟩ :=
    Order.borders_between (tuples_below allBelow) (tuples_above allAbove) stop.tuples
  have probe_eq :
      (fun value => spec.order tuple ⟨stop.key, value⟩) = spec.valueOrder tuple.value :=
    funext fun value => order_of_eq tuple ⟨stop.key, value⟩ equal
  have stopLower := Order.lower_map (spec.order tuple) (Tuple.mk stop.key) stop.value
  have stopNotUpper := Order.notUpper_map (spec.order tuple) (Tuple.mk stop.key) stop.value
  rw [probe_eq] at stopLower stopNotUpper
  rw [listing_append, listing_cons, Position.before, Position.after, lower, notUpper,
    Stop.tuples, stopLower, stopNotUpper]
  simp [Position.before, Position.after, Position.shift]

/-- Between two stops the borders of a tuple coincide. -/
theorem borders_absent
    (allBelow : Order.AllBelow (spec.probeStop tuple.key) below)
    (allAbove : Order.AllAbove (spec.probeStop tuple.key) above) :
    Position.before (spec.order tuple) (listing (below ++ above)) =
        .gap (listing below).length ∧
      Position.after (spec.order tuple) (listing (below ++ above)) =
        .gap (listing below).length := by
  obtain ⟨⟨lower, _⟩, notUpper, _⟩ :=
    Order.borders_absent (tuples_below allBelow) (tuples_above allAbove)
  rw [listing_append, Position.before, Position.after, lower, notUpper]
  exact ⟨rfl, rfl⟩

end Tuple

/-! ## Ascending tuples -/

/-- Tuples ascend if the keys do and the values under each key do. -/
theorem ascending_listing
    [Std.TransCmp spec.keys]
    (keysAscending : Order.Ascending spec.keys (stops.map TreeNode.key))
    (valuesAscending : ∀ stop ∈ stops, Order.Ascending spec.valueOrder stop.value) :
    Order.Ascending spec.order (listing stops) := by
  induction stops with
  | nil =>
      exact List.Pairwise.nil
  | cons stop stops inductionHypothesis =>
      obtain ⟨firstBelow, restAscending⟩ := List.pairwise_cons.mp keysAscending
      obtain ⟨stopAscending, othersAscending⟩ := List.forall_mem_cons.mp valuesAscending
      refine List.pairwise_append.mpr
        ⟨?_, inductionHypothesis restAscending othersAscending, ?_⟩
      · refine List.pairwise_map.mpr (stopAscending.imp ?_)
        intro earlier later before
        have self : spec.keys stop.key stop.key = .eq := Std.ReflCmp.compare_self
        exact (order_of_eq ⟨stop.key, earlier⟩ ⟨stop.key, later⟩ self).trans before
      · intro earlier inStop later inRest
        obtain ⟨value, _, rfl⟩ := List.mem_map.mp inStop
        refine forall_mem_listing (order_of_lt ⟨stop.key, value⟩) ?_ later inRest
        intro other member
        exact firstBelow other.key (List.mem_map_of_mem member)

end Borders

end OrderedIndex

namespace OrderedIndex

/-!
# Orders

Every tree, store and table is ordered by a comparison function that its caller
supplies.  Elements that compare `eq` count as the same element, so an order
decides both the sequence and the identity of keys and values.  This module
names the function type and the orders that directories use; laws about an
order are stated with `Std.TransCmp`.
-/

/-- A comparison of two elements, expected to be a total preorder. -/
abbrev Order (Element : Type) := Element → Element → Ordering

namespace Order

variable {Element : Type}

/-- The order that the element type itself carries. -/
def natural [Ord Element] : Order Element := compare

/-- The order of a type with a single element. -/
def trivial : Order Unit := fun _ _ => .eq

/-- The opposite order. -/
def reversed (order : Order Element) : Order Element :=
  fun first second => order second first

/-- Compare elements by a rank computed from each. -/
def byRank {Rank : Type} [Ord Rank] (rank : Element → Rank) : Order Element :=
  fun first second => compare (rank first) (rank second)

/-- Strings by code point after lower-casing the ASCII letters. -/
def ignoringAsciiCase : Order String := byRank String.toLower

/-- Strings by the number of bytes in UTF-8. -/
def byEncodedLength : Order String := byRank String.utf8ByteSize

/-- Lists by length. -/
def byLength : Order (List Element) := byRank List.length

/-- Pairs by their first components, then by their second. -/
def lexicographic {Second : Type} (first : Order Element) (second : Order Second) :
    Order (Element × Second) :=
  fun earlier later => (first earlier.1 later.1).then (second earlier.2 later.2)

/-- Unsigned integers by their remainder modulo ten. -/
def byLastDigit : Order UInt64 := byRank (· % 10)

/-- Signed integers by their nonnegative remainder modulo ten. -/
def bySignedLastDigit : Order Int64 := byRank fun number => number.toInt % 10

/-- Unsigned integers by their half, rounded down. -/
def byHalf : Order UInt64 := byRank (· / 2)

/-- Signed integers by their distance from zero. -/
def byMagnitude : Order Int64 := byRank fun number => number.toInt.natAbs

/-- Reversing an order twice gives it back. -/
@[simp] theorem reversed_reversed (order : Order Element) :
    reversed (reversed order) = order :=
  rfl

end Order

end OrderedIndex

import OrderedIndex.Tree.Linked.Heights

namespace OrderedIndex

/-!
# Arithmetic of heights

The operations on memory take any arithmetic of heights.  What is proved of
them needs no more of it than that it is exact as long as no height is above the
greatest signed byte.
-/

/-- A byte that does not reach the sign is read as it is. -/
theorem signedByte_of_lt
    {byte : Nat}
    (low : byte < 128) :
    signedByte byte = byte :=
  Int.bmod_eq_of_le (by omega) (by omega)

namespace HeightArithmetic

/-- Heights up to the greatest signed byte are computed as numbers are. -/
structure Exact (arithmetic : HeightArithmetic) : Prop where
  above_eq :
    ∀ {left right},
      left < 127 →
      right < 127 →
      arithmetic.above left right = .ok (1 + max left right)
  minus_eq :
    ∀ {left right},
      left < 128 →
      right < 128 →
      arithmetic.minus left right = .ok ((left : Int) - right)

/-- Bytes compute heights up to the greatest signed byte exactly. -/
theorem exact_bytes : bytes.Exact where
  above_eq leftLow rightLow := if_neg (by omega)
  minus_eq leftLow rightLow := by
    dsimp only [bytes]
    rw [signedByte_of_lt leftLow, signedByte_of_lt rightLow, if_neg (by omega)]

/-- The limit on heights is that of signed bytes. -/
theorem exact_limited : limited.Exact where
  above_eq leftLow rightLow := if_neg (by omega)
  minus_eq leftLow rightLow := if_neg (by omega)

end HeightArithmetic

end OrderedIndex

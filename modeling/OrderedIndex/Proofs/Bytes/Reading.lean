import OrderedIndex.Codec

namespace OrderedIndex

/-!
# Reading what was written

A reader belongs to a writer if it takes the written form of an item from the
front of its input and takes nothing else.  Both halves are one equivalence, so
a reader that is put together from such readers belongs to the writer that puts
their bytes one behind the other.
-/

namespace BigEndian

/-- Some bytes spell less than the next power. -/
theorem decode_lt (digits : Bytes) : decode digits < Nat.pow 256 digits.length := by
  have same := congrArg decode (encode_decode digits)
  rw [decode_encode] at same
  rw [← same]
  exact Nat.mod_lt _ (Nat.pow_pos (by decide))

end BigEndian

namespace Reader

variable {Item Result : Type}

/--
A reader takes the written form of every item that fits from the front of its
input, and takes nothing else.
-/
def Takes (reader : Reader Item) (write : Item → Bytes) (fits : Item → Prop) : Prop :=
  ∀ bytes item rest,
    reader.run bytes = some (item, rest) ↔ bytes = write item ++ rest ∧ fits item

/-- A reader of two parts reads the first one and then the second from what is left. -/
theorem run_bind_eq_some_iff
    {first : Reader Item}
    {second : Item → Reader Result}
    {bytes rest : Bytes}
    {result : Result} :
    (first >>= second).run bytes = some (result, rest) ↔
      ∃ item middle,
        first.run bytes = some (item, middle) ∧
          (second item).run middle = some (result, rest) := by
  rw [StateT.run_bind]
  constructor
  · intro read
    obtain ⟨⟨item, middle⟩, readFirst, readSecond⟩ := Option.bind_eq_some_iff.mp read
    exact ⟨item, middle, readFirst, readSecond⟩
  · rintro ⟨item, middle, readFirst, readSecond⟩
    exact Option.bind_eq_some_iff.mpr ⟨⟨item, middle⟩, readFirst, readSecond⟩

theorem run_pure_eq_some_iff
    {item result : Item}
    {bytes rest : Bytes} :
    (pure item : Reader Item).run bytes = some (result, rest) ↔
      item = result ∧ bytes = rest := by
  show some (item, bytes) = some (result, rest) ↔ item = result ∧ bytes = rest
  simp

/-- Taking some bytes takes precisely as many. -/
theorem takes_take (count : Nat) :
    (take count).Takes (fun taken => taken) fun taken => taken.length = count := by
  intro bytes taken rest
  exact split?_eq_some_iff

/-- Reading by a conversion takes what the opposite conversion writes. -/
theorem Takes.convert
    {reader : Reader Item}
    {write : Item → Bytes}
    {fits : Item → Prop}
    (takes : reader.Takes write fits)
    (convert : Item → Result)
    (back : Result → Item)
    (convert_back : ∀ result, convert (back result) = result)
    (back_convert : ∀ item, fits item → back (convert item) = item) :
    Takes (do return convert (← reader)) (fun result => write (back result))
      fun result => fits (back result) := by
  intro bytes result rest
  rw [run_bind_eq_some_iff]
  simp only [run_pure_eq_some_iff]
  constructor
  · rintro ⟨item, middle, read, rfl, rfl⟩
    obtain ⟨written, itemFits⟩ := (takes _ _ _).mp read
    rw [back_convert item itemFits]
    exact ⟨written, itemFits⟩
  · rintro ⟨written, itemFits⟩
    exact ⟨back result, rest, (takes _ _ _).mpr ⟨written, itemFits⟩, convert_back result, rfl⟩

/-- Reading two items takes the written first one and then the written second one. -/
theorem run_bind_of_takes
    {reader : Reader Item}
    {write : Item → Bytes}
    {fits : Item → Prop}
    (takes : reader.Takes write fits)
    {next : Item → Reader Result}
    {bytes rest : Bytes}
    {result : Result} :
    (reader >>= next).run bytes = some (result, rest) ↔
      ∃ item middle,
        bytes = write item ++ middle ∧
          fits item ∧ (next item).run middle = some (result, rest) := by
  rw [run_bind_eq_some_iff]
  simp only [takes _ _ _, and_assoc]

/-- A word is taken from the bytes that spell it. -/
theorem takes_word (width : Nat) :
    (word width).Takes (BigEndian.encode width) fun number => number < Nat.pow 256 width := by
  intro bytes number rest
  rw [word, run_bind_of_takes (takes_take width)]
  simp only [run_pure_eq_some_iff]
  constructor
  · rintro ⟨digits, middle, rfl, rfl, rfl, rfl⟩
    rw [BigEndian.encode_decode]
    exact ⟨rfl, BigEndian.decode_lt digits⟩
  · rintro ⟨written, small⟩
    refine ⟨BigEndian.encode width number, rest, written, BigEndian.length_encode width number,
      ?_, rfl⟩
    rw [BigEndian.decode_encode]
    exact Nat.mod_eq_of_lt small

theorem takes_uint32 : uint32.Takes Bytes.ofUInt32 fun _ => True := by
  have takes :=
    (takes_word 4).convert UInt32.ofNat UInt32.toNat (fun _ => UInt32.ofNat_toNat)
      fun number small => by simpa using small
  intro bytes number rest
  refine (takes bytes number rest).trans ?_
  have small : number.toNat < Nat.pow 256 4 := number.toNat_lt
  exact and_congr_right fun _ => iff_of_true small trivial

theorem takes_uint64 : uint64.Takes Bytes.ofUInt64 fun _ => True := by
  have takes :=
    (takes_word 8).convert UInt64.ofNat UInt64.toNat (fun _ => UInt64.ofNat_toNat)
      fun number small => by simpa using small
  intro bytes number rest
  refine (takes bytes number rest).trans ?_
  have small : number.toNat < Nat.pow 256 8 := number.toNat_lt
  exact and_congr_right fun _ => iff_of_true small trivial

theorem takes_int8 : int8.Takes Bytes.ofInt8 fun _ => True := by
  have takes :=
    (takes_word 1).convert (fun number => (UInt8.ofNat number).toInt8)
      (fun number => number.toUInt8.toNat) (fun number => by simp)
      fun number small => by simpa using small
  intro bytes number rest
  refine (takes bytes number rest).trans ?_
  have small : number.toUInt8.toNat < Nat.pow 256 1 := number.toUInt8.toNat_lt
  have written : BigEndian.encode 1 number.toUInt8.toNat = Bytes.ofInt8 number := by
    simp [Bytes.ofInt8, BigEndian.encode]
  dsimp only
  rw [written]
  exact and_congr_right fun _ => iff_of_true small trivial

/-- A counted byte string takes its length field if its length fits there. -/
theorem takes_counted :
    counted.Takes Bytes.ofCounted fun payload => payload.length ≤ payloadLimit := by
  intro bytes payload rest
  rw [counted, run_bind_of_takes takes_uint32]
  constructor
  · rintro ⟨length, middle, rfl, _, taken⟩
    obtain ⟨rfl, counts⟩ := (takes_take _ _ _ _).mp taken
    refine ⟨?_, Nat.le_sub_one_of_lt (counts ▸ length.toNat_lt)⟩
    rw [Bytes.ofCounted, counts, UInt32.ofNat_toNat, List.append_assoc]
  · rintro ⟨rfl, small⟩
    have fits : payload.length < UInt32.size := Nat.lt_of_le_pred (by decide) small
    refine ⟨UInt32.ofNat payload.length, payload ++ rest, List.append_assoc _ _ _, trivial, ?_⟩
    rw [UInt32.toNat_ofNat_of_lt' fits]
    exact (takes_take _ _ _ _).mpr ⟨rfl, rfl⟩

/-- Reading items one after the other takes what all of them write. -/
theorem Takes.repeated
    {reader : Reader Item}
    {write : Item → Bytes}
    {fits : Item → Prop}
    (takes : reader.Takes write fits)
    (count : Nat) :
    (reader.repeated count).Takes (fun items => items.flatMap write)
      fun items => items.length = count ∧ ∀ item ∈ items, fits item := by
  induction count with
  | zero =>
      intro bytes items rest
      rw [Reader.repeated, run_pure_eq_some_iff]
      cases items <;> simp
  | succ count inductionHypothesis =>
      intro bytes items rest
      rw [Reader.repeated, run_bind_of_takes takes]
      simp only [run_bind_of_takes inductionHypothesis, run_pure_eq_some_iff]
      constructor
      · rintro ⟨first, middle, rfl, firstFits, others, final, rfl, ⟨counts, othersFit⟩, rfl, rfl⟩
        exact ⟨by simp, by simp [counts], List.forall_mem_cons.mpr ⟨firstFits, othersFit⟩⟩
      · rintro ⟨rfl, counts, allFit⟩
        cases items with
        | nil =>
            contradiction
        | cons first others =>
            obtain ⟨firstFits, othersFit⟩ := List.forall_mem_cons.mp allFit
            exact ⟨first, others.flatMap write ++ rest, by simp, firstFits, others, rest, rfl,
              ⟨Nat.succ.inj counts, othersFit⟩, rfl, rfl⟩

/-- A part is read if the input starts with the bytes of an item that fits. -/
theorem runFor_eq_ok_iff
    {reader : Reader Item}
    {write : Item → Bytes}
    {fits : Item → Prop}
    (takes : reader.Takes write fits)
    {part : String}
    {bytes rest : Bytes}
    {item : Item} :
    reader.runFor part bytes = .ok (item, rest) ↔ bytes = write item ++ rest ∧ fits item := by
  rw [← takes, runFor]
  cases reader.run bytes <;> simp

end Reader

end OrderedIndex

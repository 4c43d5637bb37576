import OrderedIndex.Proofs.Bytes.Reading

namespace OrderedIndex.Reader

/-!
# Reading what was cut short

A reader that belongs to a writer takes as much of its input as the item needs,
and no less would do.  So input that was cut off somewhere either ends inside the
item that it starts with, or holds the whole item and is cut off behind it.
-/

variable
  {Item : Type}
  {reader : Reader Item}
  {write : Item → Bytes}
  {fits : Item → Prop}
  {item : Item}
  {kept lost rest : Bytes}

/-- Of input that was cut off, the first item is read whole or not at all. -/
theorem Takes.run_of_cut
    (takes : reader.Takes write fits)
    (itemFits : fits item)
    (cut : kept ++ lost = write item ++ rest) :
    reader.run kept = none ∨
      ∃ left, reader.run kept = some (item, left) ∧ left ++ lost = rest := by
  cases read : reader.run kept with
  | none =>
      exact .inl rfl
  | some result =>
      obtain ⟨other, left⟩ := result
      obtain ⟨kept_eq, otherFits⟩ := (takes _ _ _).mp read
      -- The input before it was cut starts with what was read and with the item.
      have asOther : reader.run (write item ++ rest) = some (other, left ++ lost) := by
        rw [← cut, kept_eq, List.append_assoc]
        exact (takes _ _ _).mpr ⟨rfl, otherFits⟩
      have asItem : reader.run (write item ++ rest) = some (item, rest) :=
        (takes _ _ _).mpr ⟨rfl, itemFits⟩
      rw [asItem, Option.some.injEq, Prod.mk.injEq] at asOther
      obtain ⟨rfl, rfl⟩ := asOther
      exact .inr ⟨left, rfl, rfl⟩

theorem Takes.runFor_of_cut
    (takes : reader.Takes write fits)
    (itemFits : fits item)
    (cut : kept ++ lost = write item ++ rest)
    (part : String) :
    reader.runFor part kept = .error (.truncated part) ∨
      ∃ left, reader.runFor part kept = .ok (item, left) ∧ left ++ lost = rest := by
  rcases takes.run_of_cut itemFits cut with ended | ⟨left, read, cutBehind⟩
  · exact .inl (by rw [runFor, ended])
  · exact .inr ⟨left, by rw [runFor, read], cutBehind⟩

/-- An item that lacks a part of its own bytes is not read. -/
theorem Takes.runFor_of_cut_inside
    (takes : reader.Takes write fits)
    (itemFits : fits item)
    (cut : kept ++ lost = write item)
    (some_lost : lost ≠ [])
    (part : String) :
    reader.runFor part kept = .error (.truncated part) := by
  rw [← List.append_nil (write item)] at cut
  rcases takes.runFor_of_cut itemFits cut part with ended | ⟨left, -, nothing⟩
  · exact ended
  · exact (some_lost (List.append_eq_nil_iff.mp nothing).2).elim

end OrderedIndex.Reader

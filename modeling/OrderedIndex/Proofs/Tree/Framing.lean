import OrderedIndex.Proofs.Bytes.Cuts
import OrderedIndex.Proofs.Tree.Encoding
import OrderedIndex.Proofs.Tree.Lifetime

namespace OrderedIndex

/-!
# The frame of a stored tree

The bytes of a tree say how long they are: they count their records, and every
record counts the bytes of its payloads.  Whoever decodes them notices that
something is missing, or that something follows, before any link, key or value
is looked at.  So neither the order nor the codecs of the reader matter.
-/

namespace TreeFormat

variable
  {Key Value : Type}
  {tree : OrderedTree Key Value}
  {bytes kept lost extra : Bytes}

/-- Bytes that count their records, of which each counts the bytes of its payloads. -/
inductive Framed : Bytes → Prop where
  | empty : Framed (Bytes.ofUInt32 0)
  | under
      (root : UInt32)
      (records : List NodeRecord)
      (nonempty : records ≠ [])
      (counted : records.length < UInt32.size)
      (fits : ∀ record ∈ records, record.Fits) :
      Framed (bytesUnder root records)

/-- Whatever tree is encoded, its bytes have the frame. -/
theorem framed_of_encode
    {nodes : List (TreeNode Key Value)}
    {format : TreeFormat Key Value}
    (formed : tree.Formed nodes)
    (encoded : format.encode tree = .ok bytes) :
    Framed bytes := by
  have length_toList : tree.toList.length = tree.size := by
    rw [formed.toList_eq, List.length_map, formed.size_eq]
  have size_shape : tree.shape.size = tree.toList.length := by
    rw [← Shape.length_ids, formed.ids_eq, formed.toList_eq, List.length_map, List.length_map]
  obtain ⟨small, records, linked, written, rfl⟩ :=
    (encode_eq_ok_iff_of_counts size_shape length_toList).mp encoded
  cases isShape : tree.shape with
  | empty =>
      exact .empty
  | node left id key height right =>
      refine .under _ records ?_ ?_ (fits_of_writes written)
      · rintro rfl
        rw [isShape] at linked
        simpa [Shape.size] using linked.length_eq
      · rwa [← written.length_eq, length_toList]

namespace Framed

/-! ## What is missing -/

/-- Bytes that lack some of their end are refused for running out. -/
theorem decode_of_cut
    (framed : Framed bytes)
    (format : TreeFormat Key Value)
    (cut : kept ++ lost = bytes)
    (some_kept : kept ≠ [])
    (some_lost : lost ≠ []) :
    ∃ part, format.decode kept = .error (.truncated part) := by
  have notEmpty : ¬ kept.isEmpty = true := by
    simpa using some_kept
  unfold decode
  rw [if_neg notEmpty]
  cases framed with
  | empty =>
      rw [Reader.takes_uint32.runFor_of_cut_inside trivial cut some_lost]
      exact ⟨_, rfl⟩
  | under root records nonempty counted fits =>
      rw [bytesUnder, List.append_assoc] at cut
      rcases Reader.takes_uint32.runFor_of_cut trivial cut "tree header" with
        ended | ⟨afterHeader, header, cut⟩
      · rw [ended]
        exact ⟨_, rfl⟩
      have count : (UInt32.ofNat records.length).toNat = records.length :=
        UInt32.toNat_ofNat_of_lt' counted
      have notZero : records.length ≠ 0 := mt List.eq_nil_of_length_eq_zero nonempty
      rw [header]
      simp only [bind, Except.bind, count, if_neg notZero]
      -- The bytes may be too few for their records at first sight.
      split
      · exact ⟨_, rfl⟩
      rcases Reader.takes_uint32.runFor_of_cut trivial cut "root index" with
        ended | ⟨afterRoot, rootRead, cut⟩
      · rw [ended]
        exact ⟨_, rfl⟩
      rw [rootRead]
      dsimp only
      rw [(NodeRecord.takes_reader.repeated records.length).runFor_of_cut_inside ⟨rfl, fits⟩ cut
        some_lost]
      exact ⟨_, rfl⟩

/-! ## What follows -/

theorem checkConsumed_of_ne_nil (some_extra : extra ≠ []) :
    checkConsumed extra = .error (.malformed s!"{extra.length} trailing bytes after tree") := by
  have notEmpty : ¬ extra.isEmpty = true := by
    simpa using some_extra
  rw [checkConsumed, if_neg notEmpty]

/-- Bytes with something behind them are refused for it. -/
theorem decode_append
    (framed : Framed bytes)
    (format : TreeFormat Key Value)
    (some_extra : extra ≠ []) :
    format.decode (bytes ++ extra) =
      .error (.malformed s!"{extra.length} trailing bytes after tree") := by
  have notEmpty : ¬ (bytes ++ extra).isEmpty = true := by
    simp [some_extra]
  unfold decode
  rw [if_neg notEmpty]
  cases framed with
  | empty =>
      rw [(Reader.runFor_eq_ok_iff Reader.takes_uint32).mpr ⟨rfl, trivial⟩]
      simp only [bind, Except.bind, UInt32.toNat_zero, if_pos, checkConsumed_of_ne_nil some_extra]
  | under root records nonempty counted fits =>
      have longEnough :
          ¬ (bytesUnder root records ++ extra).length <
            records.length * NodeRecord.leastLength := by
        have least := NodeRecord.leastLength_mul_le records
        simp only [bytesUnder, List.length_append]
        omega
      have header :
          Reader.uint32.runFor "tree header" (bytesUnder root records ++ extra) =
            .ok (UInt32.ofNat records.length,
              Bytes.ofUInt32 root ++ (records.flatMap NodeRecord.toBytes ++ extra)) :=
        (Reader.runFor_eq_ok_iff Reader.takes_uint32).mpr ⟨by simp [bytesUnder], trivial⟩
      have rootRead :
          Reader.uint32.runFor "root index"
              (Bytes.ofUInt32 root ++ (records.flatMap NodeRecord.toBytes ++ extra)) =
            .ok (root, records.flatMap NodeRecord.toBytes ++ extra) :=
        (Reader.runFor_eq_ok_iff Reader.takes_uint32).mpr ⟨rfl, trivial⟩
      have recordsRead :
          (Reader.repeated NodeRecord.reader records.length).runFor "node record"
              (records.flatMap NodeRecord.toBytes ++ extra) =
            .ok (records, extra) :=
        (Reader.runFor_eq_ok_iff (NodeRecord.takes_reader.repeated _)).mpr ⟨rfl, rfl, fits⟩
      have count : (UInt32.ofNat records.length).toNat = records.length :=
        UInt32.toNat_ofNat_of_lt' counted
      have notZero : records.length ≠ 0 := mt List.eq_nil_of_length_eq_zero nonempty
      rw [header]
      simp only [bind, Except.bind, count, if_neg notZero, if_neg longEnough, rootRead, recordsRead,
        checkConsumed_of_ne_nil some_extra]

end Framed

end TreeFormat

/--
Whatever became of a tree, its bytes tell where they end: what is left of them
when some are missing is refused for running out, and they are refused with
anything behind them, whoever decodes them by whatever order and codecs.
-/
theorem OrderedTree.Reachable.delimitsItself
    {Key Value : Type}
    {order : Order Key}
    {peak : Nat}
    {tree : OrderedTree Key Value}
    {bytes : Bytes}
    (reachable : OrderedTree.Reachable order peak tree)
    (format : TreeFormat Key Value)
    (encoded : format.encode tree = .ok bytes) :
    ∀ {ReadKey ReadValue : Type} (reading : TreeFormat ReadKey ReadValue),
      (∀ kept, kept <+: bytes → kept ≠ bytes →
          (kept = [] → reading.decode kept = .error .empty) ∧
            (kept ≠ [] → ∃ part, reading.decode kept = .error (.truncated part))) ∧
        ∀ extra, extra ≠ [] →
          reading.decode (bytes ++ extra) =
            .error (.malformed s!"{extra.length} trailing bytes after tree") := by
  obtain ⟨nodes, formed⟩ := reachable.formed
  have framed := TreeFormat.framed_of_encode formed encoded
  intro ReadKey ReadValue reading
  refine ⟨?_, fun extra some_extra => framed.decode_append reading some_extra⟩
  rintro kept ⟨lost, cut⟩ proper
  refine ⟨?_, fun some_kept => framed.decode_of_cut reading cut some_kept ?_⟩
  · rintro rfl
    rfl
  · rintro rfl
    exact proper (by rw [← cut, List.append_nil])

/-- Two keys, read as strings: cut inside the key of the second one, and with a byte behind. -/
theorem OrderedTree.Reachable.delimitsItself_halves :
    let order : Order UInt64 := Order.byRank fun number => number.toNat / 2
    let changes : List (TreeChange UInt64 Unit) :=
      [.insert 8 (), .insert 4 (), .insert 12 (), .remove 5]
    let bytes :=
      TreeFormat.bytesUnder 0
        [⟨noNode, 1, -1, Bytes.ofUInt64 8, []⟩, ⟨noNode, noNode, 0, Bytes.ofUInt64 12, []⟩]
    let reading : TreeFormat String String := ⟨.natural, .string, .string⟩
    OrderedTree.Reachable order (TreeChange.runPeak (.empty order) 0 changes)
        (TreeChange.run (.empty order) changes).2 ∧
      (⟨order, .uint64, .unit⟩ : TreeFormat UInt64 Unit).encode
          (TreeChange.run (.empty order) changes).2 =
        .ok bytes ∧
        (∃ part, reading.decode (bytes.take 50) = .error (.truncated part)) ∧
          reading.decode (bytes ++ [0]) =
            .error (.malformed s!"{1} trailing bytes after tree") := by
  intro order changes bytes reading
  have reachable :
      OrderedTree.Reachable order (TreeChange.runPeak (.empty order) 0 changes)
        (TreeChange.run (.empty order) changes).2 :=
    OrderedTree.Reachable.new.run changes
  have encoded :
      (⟨order, .uint64, .unit⟩ : TreeFormat UInt64 Unit).encode
          (TreeChange.run (.empty order) changes).2 =
        .ok bytes :=
    by decide +kernel
  obtain ⟨refusesCut, refusesMore⟩ :=
    reachable.delimitsItself ⟨order, .uint64, .unit⟩ encoded reading
  exact ⟨reachable, encoded,
    (refusesCut (bytes.take 50) (List.take_prefix 50 bytes) (by decide +kernel)).2
      (by decide +kernel),
    refusesMore [0] (List.cons_ne_nil 0 [])⟩

end OrderedIndex

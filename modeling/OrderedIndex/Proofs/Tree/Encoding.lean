import OrderedIndex.Proofs.Codec
import OrderedIndex.Proofs.Tree.Decoding
import OrderedIndex.Proofs.Tree.Validation

namespace OrderedIndex

/-!
# Encoded trees

The bytes of a valid tree are those of one record for each pair, in key order,
with the links of the tree's shape.  So they are decoded to a tree of the same
pairs and the same links, and a decoded tree is encoded to the bytes that it
came from.
-/

/-- What follows from being related holds of every related item. -/
theorem forall_mem_of_forall₂
    {First Second : Type}
    {relation : First → Second → Prop}
    {property : Second → Prop}
    {firsts : List First}
    {seconds : List Second}
    (related : List.Forall₂ relation firsts seconds)
    (follows : ∀ first second, relation first second → property second) :
    ∀ second ∈ seconds, property second := by
  induction related with
  | nil =>
      exact List.forall_mem_nil property
  | cons isRelated _ inductionHypothesis =>
      exact List.forall_mem_cons.mpr ⟨follows _ _ isRelated, inductionHypothesis⟩

variable {Key Value : Type}

namespace OrderedTree.Valid

variable {tree : OrderedTree Key Value}

/-- A walk from a place on visits the nodes of the shape from there on. -/
theorem ascend_eq
    (valid : tree.Valid)
    (count place : Nat) :
    tree.ascend count tree.shape.ids[place]? = (tree.shape.ids.drop place).take count := by
  induction count generalizing place with
  | zero =>
      simp [ascend]
  | succ count inductionHypothesis =>
      cases found : tree.shape.ids[place]? with
      | none =>
          rw [List.drop_eq_nil_of_le (List.getElem?_eq_none_iff.mp found)]
          rfl
      | some id =>
          obtain ⟨inRange, isNode⟩ := List.getElem?_eq_some_iff.mp found
          rw [ascend, (valid.linked place id found).2, inductionHypothesis,
            List.drop_eq_getElem_cons inRange, isNode, List.take_succ_cons]

theorem nodes_eq (valid : tree.Valid) : tree.nodes = tree.shape.ids := by
  rw [nodes, valid.first_eq, ← valid.size_eq, List.head?_eq_getElem?, valid.ascend_eq,
    List.drop_zero, List.take_length]

/-- Every node has an entry, so there are as many pairs as nodes. -/
theorem length_toList (valid : tree.Valid) : tree.toList.length = tree.size := by
  rw [toList, entries, valid.nodes_eq, List.length_map, ← valid.size_eq]
  exact List.filterMap_length_eq_length.mpr valid.live

theorem ascending_toList (valid : tree.Valid) :
    Order.Ascending tree.order (tree.toList.map Prod.fst) := by
  have keys : tree.toList.map Prod.fst = tree.shape.ids.filterMap tree.key? := by
    rw [toList, entries, valid.nodes_eq, List.map_map, List.map_filterMap]
    rfl
  rw [keys]
  exact valid.ascending

theorem size_shape (valid : tree.Valid) : tree.shape.size = tree.toList.length := by
  rw [valid.length_toList, ← valid.size_eq, Shape.length_ids]

end OrderedTree.Valid

namespace TreeFormat

variable {format : TreeFormat Key Value} {tree : OrderedTree Key Value} {bytes : Bytes}

/-! ## Encoding -/

/-- A record has the encoded payloads of a pair. -/
def Writes (format : TreeFormat Key Value) (pair : Key × Value) (record : NodeRecord) : Prop :=
  format.keys.encode pair.1 = .ok record.key ∧
    format.values.encode pair.2 = .ok record.value ∧ record.Fits

theorem fits_of_writes
    {pairs : List (Key × Value)}
    {records : List NodeRecord}
    (written : List.Forall₂ format.Writes pairs records) :
    ∀ record ∈ records, record.Fits :=
  forall_mem_of_forall₂ written fun _ _ writes => writes.2.2

/-- A record has the words for some links. -/
def HasLinks (links : NodeLinks) (record : NodeRecord) : Prop :=
  NodeRecord.ofLinks links record.key record.value = record

theorem checkPayload_eq_ok_iff
    {part : String}
    {length : Nat}
    {result : Unit} :
    checkPayload part length = .ok result ↔ length ≤ payloadLimit := by
  unfold checkPayload
  split <;> simp_all

theorem record_eq_ok_iff
    {links : NodeLinks}
    {entry : Entry Key Value}
    {record : NodeRecord} :
    format.record links entry = .ok record ↔
      HasLinks links record ∧ format.Writes (entry.key, entry.value) record := by
  simp only [TreeFormat.record, Codec.append_nil, bind_eq_ok_iff, checkPayload_eq_ok_iff]
  constructor
  · rintro ⟨key, keyWritten, value, valueWritten, _, keyFits, _, valueFits, result⟩
    cases Except.ok.inj result
    exact ⟨rfl, keyWritten, valueWritten, keyFits, valueFits⟩
  · rintro ⟨hasLinks, keyWritten, valueWritten, keyFits, valueFits⟩
    exact ⟨_, keyWritten, _, valueWritten, (), keyFits, (), valueFits,
      congrArg Except.ok hasLinks⟩

/-- Entries give one record each, with the entry's links and payloads. -/
theorem records_eq_ok_iff
    {links : List NodeLinks}
    {entries : List (Entry Key Value)}
    {records : List NodeRecord}
    (sameLength : links.length = entries.length) :
    format.records links entries = .ok records ↔
      List.Forall₂ HasLinks links records ∧
        List.Forall₂ format.Writes (entries.map fun entry => (entry.key, entry.value)) records := by
  induction links generalizing entries records with
  | nil =>
      rw [List.eq_nil_of_length_eq_zero sameLength.symm]
      simp [TreeFormat.records, eq_comm]
  | cons first moreLinks inductionHypothesis =>
      cases entries with
      | nil =>
          contradiction
      | cons entry moreEntries =>
          simp only [TreeFormat.records, bind_eq_ok_iff, record_eq_ok_iff,
            inductionHypothesis (Nat.succ.inj sameLength)]
          constructor
          · rintro ⟨record, ⟨hasLinks, writes⟩, others, ⟨othersLinked, othersWritten⟩, result⟩
            cases Except.ok.inj result
            exact ⟨.cons hasLinks othersLinked, .cons writes othersWritten⟩
          · rintro ⟨linked, written⟩
            cases linked with
            | cons hasLinks othersLinked =>
                cases written with
                | cons writes othersWritten =>
                    exact ⟨_, ⟨hasLinks, writes⟩, _, ⟨othersLinked, othersWritten⟩, rfl⟩

/-- The bytes of records under the topmost of them, if there is one. -/
def bytesOf (root : Option Nat) (records : List NodeRecord) : Bytes :=
  match root with
  | some index => bytesUnder (UInt32.ofNat index) records
  | none => Bytes.ofUInt32 0

/--
A tree with one pair for every node of its shape is encoded exactly if its size
and its payloads allow for it.
-/
theorem encode_eq_ok_iff_of_counts
    (size_shape : tree.shape.size = tree.toList.length)
    (length_toList : tree.toList.length = tree.size) :
    format.encode tree = .ok bytes ↔
      tree.size < UInt32.size ∧
        ∃ records,
          List.Forall₂ HasLinks (tree.shape.links 0) records ∧
            List.Forall₂ format.Writes tree.toList records ∧
              bytes = bytesOf (tree.shape.rootIndex? 0) records := by
  have sameLength : (tree.shape.links 0).length = tree.entries.length := by
    rw [Shape.length_links, size_shape, OrderedTree.toList, List.length_map]
  have stored
      {records : List NodeRecord}
      (linked : List.Forall₂ HasLinks (tree.shape.links 0) records) :
      Bytes.ofUInt32 (UInt32.ofNat tree.size) ++
            (match tree.shape.rootIndex? 0 with
              | some index => Bytes.ofUInt32 (UInt32.ofNat index)
              | none => []) ++
          records.flatMap NodeRecord.toBytes =
        bytesOf (tree.shape.rootIndex? 0) records := by
    have counts : tree.size = records.length := by
      rw [← linked.length_eq, Shape.length_links, size_shape, length_toList]
    cases isShape : tree.shape with
    | empty =>
        rw [isShape] at linked
        cases List.forall₂_nil_left_iff.mp linked
        rw [counts]
        rfl
    | node left id key height right =>
        simp only [Shape.rootIndex?, bytesOf, bytesUnder, counts]
  unfold encode
  dsimp only
  constructor
  · intro encoded
    by_cases large : UInt32.size ≤ tree.size
    · rw [if_pos large] at encoded
      contradiction
    · rw [if_neg large] at encoded
      obtain ⟨records, written, encoded⟩ := bind_eq_ok_iff.mp encoded
      obtain ⟨linked, payloads⟩ := (records_eq_ok_iff sameLength).mp written
      exact ⟨Nat.lt_of_not_le large, records, linked, payloads,
        (Except.ok.inj encoded).symm.trans (stored linked)⟩
  · rintro ⟨small, records, linked, payloads, rfl⟩
    rw [if_neg (Nat.not_le_of_lt small)]
    refine bind_eq_ok_iff.mpr ⟨records, (records_eq_ok_iff sameLength).mpr ⟨linked, payloads⟩, ?_⟩
    exact congrArg Except.ok (stored linked)

/-- A valid tree is encoded exactly if its size and its payloads allow for it. -/
theorem encode_eq_ok_iff (valid : tree.Valid) :
    format.encode tree = .ok bytes ↔
      tree.size < UInt32.size ∧
        ∃ records,
          List.Forall₂ HasLinks (tree.shape.links 0) records ∧
            List.Forall₂ format.Writes tree.toList records ∧
              bytes = bytesOf (tree.shape.rootIndex? 0) records :=
  encode_eq_ok_iff_of_counts valid.size_shape valid.length_toList

/-! ## Decoding what was encoded -/

theorem HasLinks.spells
    {links : NodeLinks}
    {record : NodeRecord}
    (hasLinks : HasLinks links record)
    (near : links.balance ∈ [(-1 : Int), 0, 1]) :
    NodeRecord.Spells links record := by
  have spells := NodeRecord.spells_ofLinks record.key record.value near
  rwa [hasLinks] at spells

/-- The bytes of a valid tree are decoded to its pairs under the links of its shape. -/
theorem decode_encode
    [Std.TransCmp format.order]
    (valid : tree.Valid)
    (order_eq : tree.order = format.order)
    (roundTrips :
      ∀ pair ∈ tree.toList,
        format.keys.RoundTripsAt pair.1 ∧ format.values.RoundTripsAt pair.2)
    (encoded : format.encode tree = .ok bytes) :
    format.decode bytes =
      .ok (assemble format.order (tree.shape.toLinkTree 0) tree.toList) := by
  obtain ⟨small, records, linked, written, rfl⟩ := (encode_eq_ok_iff valid).mp encoded
  have counts : records.length = tree.size := by
    rw [← written.length_eq, valid.length_toList]
  have spelled : List.Forall₂ NodeRecord.Spells (tree.shape.links 0) records := by
    have both := (List.forall₂_and_left _ _).mpr
      ⟨fun _ member => valid.balanced.balance_mem member, linked⟩
    exact both.imp fun _ _ facts => facts.2.spells facts.1
  have reads : List.Forall₂ format.Reads records tree.toList := by
    have both := (List.forall₂_and_left _ _).mpr ⟨roundTrips, written⟩
    exact (both.imp fun _ _ facts =>
      And.intro (facts.1.1 _ facts.2.1) (facts.1.2 _ facts.2.2.1)).flip
  cases isRoot : tree.shape.rootIndex? 0 with
  | none =>
      have isEmpty : tree.shape = .empty := by
        cases isShape : tree.shape with
        | empty =>
            rfl
        | node =>
            simp [isShape, Shape.rootIndex?] at isRoot
      have noPairs : tree.toList = [] := by
        rw [← List.length_eq_zero_iff, ← valid.size_shape, isEmpty]
        rfl
      rw [isEmpty, noPairs]
      rfl
  | some root =>
      refine decode_of_accepts ⟨?_, counts ▸ small, fits_of_writes written, ?_, ?_⟩
      · rintro rfl
        cases isShape : tree.shape with
        | empty =>
            simp [isShape, Shape.rootIndex?] at isRoot
        | node =>
            rw [isShape] at linked
            simpa [Shape.size] using linked.length_eq
      · refine Links.checkShape_of_spells valid.balanced ?_ isRoot spelled
        rw [counts]
        exact Nat.le_of_lt_succ small
      · exact pairs_eq_ok_iff.mpr ⟨reads, order_eq ▸ valid.ascending_toList⟩

/-! ## Encoding what was decoded -/

/-- A decoded tree is encoded to the bytes that it came from, if the codecs' bytes are. -/
theorem encode_of_decode
    [Std.TransCmp format.order]
    (keysCanonical : format.keys.Canonical)
    (valuesCanonical : format.values.Canonical)
    (decoded : format.decode bytes = .ok tree) :
    format.encode tree = .ok bytes := by
  rcases accepts_of_decode decoded with
    ⟨rfl, rfl⟩ | ⟨root, records, linkTree, pairs, rfl, accepts, rfl⟩
  · rfl
  · have represents := accepts.represents
    have toList_eq : (assemble format.order linkTree pairs).toList = pairs := by
      rw [represents.toList_eq, pair_numbered]
    obtain ⟨reads, -⟩ := pairs_eq_ok_iff.mp accepts.ordered
    obtain ⟨links, accepted, checked⟩ := accepts.linked
    have keysSize : (pairs.map Prod.fst).toArray.size = records.length := by
      simp [reads.length_eq]
    obtain ⟨-, -, rootWord, spelled⟩ :=
      Links.spells_of_checkShape (Nat.le_of_lt_succ accepts.counted) keysSize accepted checked
    refine (encode_eq_ok_iff represents.valid).mpr ⟨?_, records, ?_, ?_, ?_⟩
    · rw [represents.size_eq, length_numbered, ← reads.length_eq]
      exact accepts.counted
    · exact spelled.imp fun _ _ spells => spells.ofLinks_eq
    · rw [toList_eq]
      have both := (List.forall₂_and_left _ _).mpr ⟨accepts.fits, reads⟩
      exact (both.imp fun _ _ facts =>
        And.intro (keysCanonical _ _ facts.2.1)
          (And.intro (valuesCanonical _ _ facts.2.2) facts.1)).flip
    · rw [rootWord]
      cases isShape : linkTree.toShape (pairs.map Prod.fst).toArray with
      | empty =>
          rw [isShape] at spelled
          exact (accepts.nonempty (List.forall₂_nil_left_iff.mp spelled)).elim
      | node =>
          simp [assemble, isShape, Shape.rootIndex?, bytesOf, NodeRecord.childWord]

end TreeFormat

end OrderedIndex

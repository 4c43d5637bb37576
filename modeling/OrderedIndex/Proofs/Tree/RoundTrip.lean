import OrderedIndex.Proofs.Codec
import OrderedIndex.Proofs.Tree.Encoding
import OrderedIndex.Proofs.Tree.Reachable

namespace OrderedIndex

/-!
# Round trips of trees

The bytes of a tree keep its pairs and its shape and forget how its slots were
used: what they decode to is the same tree numbered in key order.  Bytes that
decode are the only ones of the tree that they decode to.  What decodes is what a
valid tree is encoded to if its own keys and values round trip; a codec that
refuses what it has written itself refuses some encodings of valid trees.
-/

variable {Key Value : Type}

namespace OrderedTree

open TreeNode

/-- The key and the value in a slot. -/
def pair? (tree : OrderedTree Key Value) (id : NodeId) : Option (Key × Value) :=
  (tree.entry? id).map fun entry => (entry.key, entry.value)

/-- The same pairs in the same shape, with every pair in the slot of its place. -/
structure IsNumberedCopy (tree copy : OrderedTree Key Value) : Prop where
  order_eq : copy.order = tree.order
  toList_eq : copy.toList = tree.toList
  size_eq : copy.size = tree.size
  /-- Each node has the same children and the same height, by their places in key order. -/
  shape_eq : copy.shape = tree.shape.renumber 0
  /-- The slots are those of the places, and each holds the pair of its place. -/
  pair?_eq : ∀ place, copy.pair? place = tree.toList[place]?
  slots_eq : copy.slots.size = tree.size
  free_eq : copy.free = []
  first_eq : copy.first = if tree.size = 0 then none else some 0
  last_eq : copy.last = if tree.size = 0 then none else some (tree.size - 1)
  /-- The first and the last node have the pairs that they had. -/
  firstPair_eq : copy.first.bind copy.pair? = tree.first.bind tree.pair?
  lastPair_eq : copy.last.bind copy.pair? = tree.last.bind tree.pair?

namespace Represents

variable {tree : OrderedTree Key Value} {nodes : List (TreeNode Key Value)}

theorem pair?_eq_of_mem
    (represents : tree.Represents nodes)
    {node : TreeNode Key Value}
    (member : node ∈ nodes) :
    tree.pair? node.id = some node.pair := by
  obtain ⟨previous, next, found⟩ := represents.linked.entry_of_mem member
  rw [OrderedTree.pair?, found]
  rfl

theorem firstPair_eq (represents : tree.Represents nodes) :
    tree.first.bind tree.pair? = tree.toList.head? := by
  rw [represents.first_eq, firstOr_none, represents.toList_eq, List.head?_map]
  cases found : nodes.head? with
  | none =>
      rfl
  | some node =>
      exact represents.pair?_eq_of_mem (List.mem_of_head? found)

theorem lastPair_eq (represents : tree.Represents nodes) :
    tree.last.bind tree.pair? = tree.toList.getLast? := by
  rw [represents.last_eq, lastOr_none, represents.toList_eq, List.getLast?_map]
  cases found : nodes.getLast? with
  | none =>
      rfl
  | some node =>
      exact represents.pair?_eq_of_mem (List.mem_of_getLast? found)

/-- A tree is put together again from the places of its shape and from its pairs. -/
theorem isNumberedCopy
    (represents : tree.Represents nodes) :
    tree.IsNumberedCopy
        (TreeFormat.assemble tree.order (tree.shape.toLinkTree 0) tree.toList) ∧
      (TreeFormat.assemble tree.order (tree.shape.toLinkTree 0) tree.toList).Represents
        (numbered tree.toList) := by
  have size_eq : tree.toList.length = tree.size := represents.valid.length_toList
  have shape_eq :
      (tree.shape.toLinkTree 0).toShape (tree.toList.map Prod.fst).toArray =
        tree.shape.renumber 0 := by
    refine Shape.toShape_toLinkTree represents.balanced ?_
    have same :
        List.Forall₂ (fun shapeNode node => TreeNode.key node = shapeNode.2) tree.shape.toList
          nodes := by
      rw [represents.sequence]
      exact List.forall₂_map_left_iff.mpr (List.forall₂_same.mpr fun _ _ => rfl)
    refine (atPlaces_iff_forall₂ same.length_eq ?_).mpr same
    intro place node atPlace shapeNode
    simp [represents.toList_eq, atPlace]
  have copied :
      (TreeFormat.assemble tree.order (tree.shape.toLinkTree 0) tree.toList).Represents
        (numbered tree.toList) := by
    refine TreeFormat.assemble_represents represents.valid.ascending_toList ?_ ?_
    · rw [Shape.toList_toLinkTree, represents.valid.size_shape]
    · rw [shape_eq]
      exact Shape.balanced_renumber.mpr represents.balanced
  have toList_eq :
      (TreeFormat.assemble tree.order (tree.shape.toLinkTree 0) tree.toList).toList =
        tree.toList := by
    rw [copied.toList_eq, pair_numbered]
  refine ⟨?_, copied⟩
  exact {
    order_eq := rfl
    toList_eq := toList_eq
    size_eq := size_eq
    shape_eq := shape_eq
    pair?_eq := by
      intro place
      rw [OrderedTree.pair?, TreeFormat.entry?_assemble, Option.map_map]
      exact Option.map_id_apply
    slots_eq := by
      simp [TreeFormat.assemble, size_eq]
    free_eq := rfl
    first_eq := by
      rw [← size_eq]
      rfl
    last_eq := by
      rw [← size_eq]
      rfl
    firstPair_eq := by
      rw [copied.firstPair_eq, represents.firstPair_eq, toList_eq]
    lastPair_eq := by
      rw [copied.lastPair_eq, represents.lastPair_eq, toList_eq] }

end Represents

/-- A numbered copy is encoded to the same bytes. -/
theorem IsNumberedCopy.encode_eq
    {tree copy : OrderedTree Key Value}
    (isCopy : tree.IsNumberedCopy copy)
    (valid : tree.Valid)
    (copyValid : copy.Valid)
    {format : TreeFormat Key Value}
    {bytes : Bytes}
    (encoded : format.encode tree = .ok bytes) :
    format.encode copy = .ok bytes := by
  rw [TreeFormat.encode_eq_ok_iff copyValid, isCopy.size_eq, isCopy.shape_eq, isCopy.toList_eq,
    Shape.links_renumber, Shape.rootIndex?_renumber]
  exact (TreeFormat.encode_eq_ok_iff valid).mp encoded

/-- The bytes of a tree decode to a numbered copy, which is encoded to the same bytes. -/
theorem Represents.round_trips
    {tree : OrderedTree Key Value}
    {nodes : List (TreeNode Key Value)}
    (represents : tree.Represents nodes)
    {format : TreeFormat Key Value}
    [lawful : Std.TransCmp format.order]
    (order_eq : tree.order = format.order)
    (roundTrips :
      ∀ pair ∈ tree.toList,
        format.keys.RoundTripsAt pair.1 ∧ format.values.RoundTripsAt pair.2)
    {bytes : Bytes}
    (encoded : format.encode tree = .ok bytes) :
    ∃ copy,
      format.decode bytes = .ok copy ∧
        tree.IsNumberedCopy copy ∧
          copy.Valid ∧ copy.violation? = none ∧ format.encode copy = .ok bytes := by
  obtain ⟨isCopy, copied⟩ := represents.isNumberedCopy
  have decoded := TreeFormat.decode_encode represents.valid order_eq roundTrips encoded
  rw [← order_eq] at lawful decoded
  have copyLawful :
      Std.TransCmp
        (TreeFormat.assemble tree.order (tree.shape.toLinkTree 0) tree.toList).order :=
    lawful
  exact ⟨_, decoded, isCopy, copied.valid, violation?_eq_none_iff.mpr copied.valid,
    isCopy.encode_eq represents.valid copied.valid encoded⟩

end OrderedTree

/--
Whatever changes a tree went through, its bytes decode to a valid copy that is
numbered in key order and that is encoded to the same bytes.
-/
theorem TreeStep.run_round_trips
    (order : Order Key)
    [lawful : Std.TransCmp order]
    (steps : List (TreeStep Key Value))
    (keys : Codec Key)
    (values : Codec Value)
    (roundTrips :
      ∀ pair ∈ (run (.empty order) steps).toList,
        keys.RoundTripsAt pair.1 ∧ values.RoundTripsAt pair.2)
    (bytes : Bytes)
    (encoded :
      (⟨order, keys, values⟩ : TreeFormat Key Value).encode (run (.empty order) steps) =
        .ok bytes) :
    ∃ copy,
      (⟨order, keys, values⟩ : TreeFormat Key Value).decode bytes = .ok copy ∧
        (run (.empty order) steps).IsNumberedCopy copy ∧
          copy.Valid ∧
            copy.violation? = none ∧
              (⟨order, keys, values⟩ : TreeFormat Key Value).encode copy = .ok bytes := by
  have startOrder : (OrderedTree.empty order : OrderedTree Key Value).order = order := rfl
  obtain ⟨order_eq, nodes, represents⟩ :=
    run_represents startOrder (OrderedTree.represents_empty order) steps
  have formatLawful : Std.TransCmp (⟨order, keys, values⟩ : TreeFormat Key Value).order := lawful
  exact represents.round_trips order_eq roundTrips encoded

/-- Three keys in the order of halves, the least of them removed from the slot between. -/
theorem TreeStep.run_round_trips_halves :
    ∃ copy,
      (⟨Order.byRank fun number : UInt64 => number.toNat / 2, .uint64, .unit⟩ :
            TreeFormat UInt64 Unit).decode
          (TreeFormat.bytesUnder 0
            [⟨noNode, 1, -1, Bytes.ofUInt64 8, []⟩,
              ⟨noNode, noNode, 0, Bytes.ofUInt64 12, []⟩]) =
          .ok copy ∧
        (run (.empty (Order.byRank fun number : UInt64 => number.toNat / 2))
              [.byKey (.insert 8 ()), .byKey (.insert 4 ()), .byKey (.insert 12 ()),
                .byKey (.remove 5)]).IsNumberedCopy
          copy :=
  let ⟨copy, decoded, isCopy, _⟩ :=
    run_round_trips (Order.byRank fun number : UInt64 => number.toNat / 2)
      [.byKey (.insert 8 ()), .byKey (.insert 4 ()), .byKey (.insert 12 ()), .byKey (.remove 5)]
      .uint64 .unit
      (fun pair _ => ⟨Codec.exact_uint64.roundTrips pair.1, Codec.exact_unit.roundTrips pair.2⟩)
      (TreeFormat.bytesUnder 0
        [⟨noNode, 1, -1, Bytes.ofUInt64 8, []⟩, ⟨noNode, noNode, 0, Bytes.ofUInt64 12, []⟩])
      rfl
  ⟨copy, decoded, isCopy⟩

/-! ## Bytes that decode -/

namespace Codec

variable {Element : Type} {codec : Codec Element}

/-- The codec that writes every value and reads back those alone that it admits. -/
def admitting (codec : Codec Element) (admits : Element → Bool) : Codec Element where
  encode := codec.encode
  decode bytes := do
    let value ← codec.decode bytes
    if admits value then return value else throw (.codec "value is not admitted")

/-- Refusing some values leaves the bytes of the others as they are. -/
theorem Canonical.admitting
    (canonical : codec.Canonical)
    (admits : Element → Bool) :
    (codec.admitting admits).Canonical := by
  intro bytes value decoded
  obtain ⟨read, isRead, admitted⟩ := bind_eq_ok_iff.mp decoded
  split at admitted
  · exact Except.ok.inj admitted ▸ canonical bytes read isRead
  · contradiction

end Codec

namespace TreeFormat

variable {format : TreeFormat Key Value}

/-- Whatever is decoded is valid. -/
theorem valid_of_decode
    [lawful : Std.TransCmp format.order]
    {bytes : Bytes}
    {tree : OrderedTree Key Value}
    (decoded : format.decode bytes = .ok tree) :
    tree.order = format.order ∧ tree.Valid ∧ tree.violation? = none := by
  obtain ⟨order_eq, nodes, represents⟩ := decode_represents decoded
  rw [← order_eq] at lawful
  exact ⟨order_eq, represents.valid, OrderedTree.violation?_eq_none_iff.mpr represents.valid⟩

/-- Trees of the same pairs in the same shape are encoded alike. -/
theorem encode_eq_of_same
    {first second : OrderedTree Key Value}
    {bytes : Bytes}
    (firstValid : first.Valid)
    (secondValid : second.Valid)
    (samePairs : first.toList = second.toList)
    (sameShape : first.shape = second.shape)
    (encoded : format.encode first = .ok bytes) :
    format.encode second = .ok bytes := by
  rw [encode_eq_ok_iff secondValid, ← secondValid.length_toList, ← samePairs, ← sameShape,
    firstValid.length_toList]
  exact (encode_eq_ok_iff firstValid).mp encoded

/-- The keys and values of a decoded tree round trip if the codecs' bytes are canonical. -/
theorem roundTrips_of_decode
    (keysCanonical : format.keys.Canonical)
    (valuesCanonical : format.values.Canonical)
    {bytes : Bytes}
    {tree : OrderedTree Key Value}
    (decoded : format.decode bytes = .ok tree) :
    ∀ pair ∈ tree.toList,
      format.keys.RoundTripsAt pair.1 ∧ format.values.RoundTripsAt pair.2 := by
  rcases accepts_of_decode decoded with
    ⟨rfl, rfl⟩ | ⟨root, records, linkTree, pairs, rfl, accepts, rfl⟩
  · exact List.forall_mem_nil _
  · have toList_eq : (assemble format.order linkTree pairs).toList = pairs := by
      rw [accepts.formed.toList_eq, pair_numbered]
    obtain ⟨reads, -⟩ := pairs_eq_ok_iff_climbs.mp accepts.ordered
    rw [toList_eq]
    exact forall_mem_of_forall₂ reads fun record pair read =>
      ⟨keysCanonical.roundTripsAt read.1, valuesCanonical.roundTripsAt read.2⟩

/--
With codecs whose bytes are canonical, the byte strings that decode are exactly
the encodings of valid trees whose own keys and values round trip.
-/
theorem exists_decode_iff
    [Std.TransCmp format.order]
    (keysCanonical : format.keys.Canonical)
    (valuesCanonical : format.values.Canonical)
    (bytes : Bytes) :
    (∃ tree, format.decode bytes = .ok tree) ↔
      ∃ tree,
        tree.order = format.order ∧ tree.Valid ∧
          (∀ pair ∈ tree.toList,
            format.keys.RoundTripsAt pair.1 ∧ format.values.RoundTripsAt pair.2) ∧
          format.encode tree = .ok bytes := by
  constructor
  · rintro ⟨tree, decoded⟩
    obtain ⟨order_eq, valid, -⟩ := valid_of_decode decoded
    exact ⟨tree, order_eq, valid, roundTrips_of_decode keysCanonical valuesCanonical decoded,
      encode_of_decode keysCanonical valuesCanonical decoded⟩
  · rintro ⟨tree, order_eq, valid, roundTrips, encoded⟩
    exact ⟨_, decode_encode valid order_eq roundTrips encoded⟩

/--
Whatever bytes are decoded, the tree is valid.  With codecs whose bytes are
canonical it is encoded to those bytes, so no two byte strings decode to the
same pairs in the same shape.  The byte strings that decode are then exactly
the encodings of valid trees whose own keys and values round trip.
-/
theorem decode_canonical
    (format : TreeFormat Key Value)
    [Std.TransCmp format.order] :
    (∀ bytes tree,
        format.decode bytes = .ok tree →
        tree.order = format.order ∧ tree.Valid ∧ tree.violation? = none) ∧
      (format.keys.Canonical → format.values.Canonical →
        (∀ bytes tree, format.decode bytes = .ok tree → format.encode tree = .ok bytes) ∧
          (∀ firstBytes secondBytes first second,
            format.decode firstBytes = .ok first →
            format.decode secondBytes = .ok second →
            first.toList = second.toList →
            first.shape = second.shape →
            firstBytes = secondBytes) ∧
            ∀ bytes,
              (∃ tree, format.decode bytes = .ok tree) ↔
                ∃ tree,
                  tree.order = format.order ∧ tree.Valid ∧
                    (∀ pair ∈ tree.toList,
                      format.keys.RoundTripsAt pair.1 ∧ format.values.RoundTripsAt pair.2) ∧
                    format.encode tree = .ok bytes) ∧
        (Codec.unit.Canonical ∧ Codec.uint64.Canonical ∧ Codec.int64.Canonical ∧
          Codec.string.Canonical ∧ Codec.bytes.Canonical) := by
  refine ⟨fun bytes tree => valid_of_decode, ?_, ?_⟩
  · intro keysCanonical valuesCanonical
    refine ⟨fun bytes tree => encode_of_decode keysCanonical valuesCanonical, ?_,
      exists_decode_iff keysCanonical valuesCanonical⟩
    intro firstBytes secondBytes first second firstDecoded secondDecoded samePairs sameShape
    have firstEncoded := encode_of_decode keysCanonical valuesCanonical firstDecoded
    have secondEncoded := encode_of_decode keysCanonical valuesCanonical secondDecoded
    rw [encode_eq_of_same (valid_of_decode firstDecoded).2.1 (valid_of_decode secondDecoded).2.1
      samePairs sameShape firstEncoded] at secondEncoded
    exact Except.ok.inj secondEncoded
  · exact ⟨Codec.exact_unit.canonical, Codec.exact_uint64.canonical, Codec.exact_int64.canonical,
      Codec.exact_string.canonical, Codec.exact_bytes.canonical⟩

/-- Two keys in the order of halves, the lower one on top, read back if they are small. -/
theorem decode_canonical_halves :
    let order : Order UInt64 := Order.byRank fun number => number.toNat / 2
    let format : TreeFormat UInt64 Unit := .ofKeys order (Codec.uint64.admitting (· < 16))
    let bytes :=
      bytesUnder 0
        [⟨noNode, 1, -1, Bytes.ofUInt64 8, []⟩, ⟨noNode, noNode, 0, Bytes.ofUInt64 12, []⟩]
    (∃ tree, format.decode bytes = .ok tree ∧ tree.toList = [(8, ()), (12, ())]) ∧
      ∃ tree,
        tree.order = format.order ∧ tree.Valid ∧
          (∀ pair ∈ tree.toList,
            format.keys.RoundTripsAt pair.1 ∧ format.values.RoundTripsAt pair.2) ∧
          format.encode tree = .ok bytes := by
  intro order format bytes
  have lawful : Std.TransCmp format.order :=
    inferInstanceAs (Std.TransCmp (Order.byRank fun number : UInt64 => number.toNat / 2))
  have keysCanonical : format.keys.Canonical := Codec.exact_uint64.canonical.admitting _
  have decoded :
      format.decode bytes =
        .ok (assemble order (.node .empty 0 (.node .empty 1 .empty)) [(8, ()), (12, ())]) :=
    rfl
  exact ⟨⟨_, decoded, rfl⟩,
    (((decode_canonical format).2.1 keysCanonical Codec.exact_unit.canonical).2.2 bytes).mp
      ⟨_, decoded⟩⟩

/--
Canonical bytes alone do not make every encoding decode: a codec may refuse to
read a key that it writes, and a format reads trees in its own order only.
-/
theorem encodings_refused :
    let small : TreeFormat UInt64 Unit := .ofKeys .natural (Codec.uint64.admitting (· < 4))
    let single := assemble .natural (.node .empty 0 .empty) [(8, ())]
    let singleBytes := bytesUnder 0 [⟨noNode, noNode, 0, Bytes.ofUInt64 8, []⟩]
    let rising : TreeFormat UInt64 Unit := .ofKeys .natural .uint64
    let falling : TreeFormat UInt64 Unit := .ofKeys (.reversed .natural) .uint64
    let pair :=
      assemble falling.order (.node .empty 0 (.node .empty 1 .empty)) [(2, ()), (1, ())]
    let pairBytes :=
      bytesUnder 0
        [⟨noNode, 1, -1, Bytes.ofUInt64 2, []⟩, ⟨noNode, noNode, 0, Bytes.ofUInt64 1, []⟩]
    (small.keys.Canonical ∧ small.values.Canonical ∧
        (single.order = small.order ∧ single.Valid ∧ small.encode single = .ok singleBytes) ∧
        small.decode singleBytes = .error (.codec "value is not admitted") ∧
        ¬∀ bytes,
          (∃ tree, small.decode bytes = .ok tree) ↔
            ∃ tree,
              tree.order = small.order ∧ tree.Valid ∧ small.encode tree = .ok bytes) ∧
      rising.keys.Canonical ∧ rising.values.Canonical ∧
        (pair.Valid ∧ falling.encode pair = .ok pairBytes) ∧
        rising.decode pairBytes =
          .error (.malformed "key of node 1 is not greater than its predecessor") := by
  intro small single singleBytes rising falling pair pairBytes
  have risingLawful : Std.TransCmp rising.order :=
    inferInstanceAs (Std.TransCmp (compare : UInt64 → UInt64 → Ordering))
  have fallingLawful : Std.TransCmp falling.order := Order.reversed_transCmp rising.order
  have singleDecoded : rising.decode singleBytes = .ok single := rfl
  have pairDecoded : falling.decode pairBytes = .ok pair := rfl
  have singleValid := (valid_of_decode singleDecoded).2.1
  have singleEncoded : small.encode single = .ok singleBytes := rfl
  have refused : small.decode singleBytes = .error (.codec "value is not admitted") := rfl
  have keysCanonical := Codec.exact_uint64.canonical
  have valuesCanonical := Codec.exact_unit.canonical
  refine ⟨⟨keysCanonical.admitting _, valuesCanonical, ⟨rfl, singleValid, singleEncoded⟩,
    refused, ?_⟩, keysCanonical, valuesCanonical, ⟨(valid_of_decode pairDecoded).2.1, rfl⟩, rfl⟩
  intro accepted
  obtain ⟨tree, decoded⟩ := (accepted singleBytes).mpr ⟨single, rfl, singleValid, singleEncoded⟩
  rw [refused] at decoded
  contradiction

end TreeFormat

end OrderedIndex

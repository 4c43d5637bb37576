import OrderedIndex.Proofs.Tree.Links
import OrderedIndex.Proofs.Tree.Represents
import OrderedIndex.Tree.Format

namespace OrderedIndex

/-!
# Decoded trees

Whatever bytes are decoded, and however the codecs behave, a tree that comes
out represents its pairs: the checks on the records stand for every fact that
the tree stores about itself.
-/

open TreeNode

variable {Key Value : Type}

/-- A chain is right when every node has the entry that its place asks for. -/
theorem Linked.of_splits
    {slots : Slots Key Value}
    {previous next : Option NodeId}
    {nodes : List (TreeNode Key Value)}
    (placed :
      ∀ below node above,
        nodes = below ++ node :: above →
        slots node.id =
          some ⟨node.key, node.value, lastOr previous below, firstOr next above⟩) :
    Linked slots previous next nodes := by
  induction nodes generalizing previous with
  | nil =>
      trivial
  | cons node rest inductionHypothesis =>
      refine ⟨placed [] node rest rfl, inductionHypothesis ?_⟩
      intro below other above split
      exact placed (node :: below) other above (by rw [split, List.cons_append])

/-- The pairs as nodes that are numbered in their order. -/
def numbered (pairs : List (Key × Value)) : List (TreeNode Key Value) :=
  pairs.mapIdx fun place pair => ⟨place, pair.1, pair.2⟩

section Numbered

variable {pairs : List (Key × Value)}

@[simp] theorem length_numbered : (numbered pairs).length = pairs.length :=
  List.length_mapIdx

theorem numbered_getElem? (place : Nat) :
    (numbered pairs)[place]? = pairs[place]?.map fun pair => ⟨place, pair.1, pair.2⟩ :=
  List.getElem?_mapIdx

theorem key_numbered : (numbered pairs).map TreeNode.key = pairs.map Prod.fst := by
  refine List.ext_getElem? ?_
  intro place
  rw [List.getElem?_map, numbered_getElem?, Option.map_map, List.getElem?_map]
  rfl

theorem pair_numbered : (numbered pairs).map TreeNode.pair = pairs := by
  refine List.ext_getElem? ?_
  intro place
  rw [List.getElem?_map, numbered_getElem?, Option.map_map]
  exact Option.map_id_apply

theorem keyed_numbered :
    (numbered pairs).map keyed = (pairs.map Prod.fst).mapIdx fun place key => (place, key) := by
  refine List.ext_getElem? ?_
  intro place
  rw [List.getElem?_map, numbered_getElem?, Option.map_map, List.getElem?_mapIdx,
    List.getElem?_map, Option.map_map]
  rfl

theorem id_numbered : (numbered pairs).map TreeNode.id = List.range pairs.length := by
  refine List.ext_getElem? ?_
  intro place
  rw [List.getElem?_map, numbered_getElem?, Option.map_map]
  rcases Nat.lt_or_ge place pairs.length with inRange | beyond
  · rw [List.getElem?_range inRange, List.getElem?_eq_getElem inRange]
    rfl
  · rw [List.getElem?_eq_none beyond, List.getElem?_eq_none (by simpa using beyond)]
    rfl

/-- A node among numbered ones has its place as its number, and so have its neighbours. -/
theorem numbered_split
    {below above : List (TreeNode Key Value)}
    {node : TreeNode Key Value}
    (split : numbered pairs = below ++ node :: above) :
    pairs[below.length]? = some node.pair ∧
      node.id = below.length ∧
        TreeFormat.entryAtPlace pairs.length below.length node.pair =
          ⟨node.key, node.value, lastOr none below, firstOr none above⟩ := by
  have atPlace : (numbered pairs)[below.length]? = some node := by
    rw [split]
    simp
  rw [numbered_getElem?] at atPlace
  obtain ⟨pair, found, rfl⟩ := Option.map_eq_some_iff.mp atPlace
  refine ⟨found, rfl, ?_⟩
  have ids := congrArg (List.map TreeNode.id) split
  rw [id_numbered, List.map_append, List.map_cons] at ids
  have inRange : below.length < pairs.length := (List.getElem?_eq_some_iff.mp found).1
  have belowIds : below.map TreeNode.id = List.range below.length := by
    have taken := congrArg (List.take below.length) ids
    rw [List.take_range, Nat.min_eq_left (Nat.le_of_lt inRange),
      List.take_left' (List.length_map TreeNode.id)] at taken
    exact taken.symm
  have aboveIds :
      (above.map TreeNode.id).head? = (List.range pairs.length)[below.length + 1]? := by
    have behind : below.length + 1 - (below.map TreeNode.id).length = 1 := by
      simp
    rw [ids, List.getElem?_append_right (by simp), behind, List.head?_eq_getElem?,
      List.getElem?_cons_succ]
  have previous : lastOr none below = (below.map TreeNode.id).getLast? := by
    rw [lastOr_none, List.getLast?_map]
  have next : firstOr none above = (above.map TreeNode.id).head? := by
    rw [firstOr_none, List.head?_map]
  have counted :
      (List.range pairs.length)[below.length + 1]? =
        if below.length + 1 < pairs.length then some (below.length + 1) else none := by
    split
    next more =>
      exact List.getElem?_range more
    next full =>
      exact List.getElem?_eq_none (by simpa using full)
  rw [previous, next, belowIds, aboveIds, List.getLast?_range, counted]
  rfl

end Numbered

namespace TreeFormat

/-- The payloads of a record decode to a key and a value. -/
def Reads (format : TreeFormat Key Value) (record : NodeRecord) (pair : Key × Value) : Prop :=
  format.keys.decode record.key = .ok pair.1 ∧ format.values.decode record.value = .ok pair.2

/-- Every key is above the one in front of it, which is all that decoding compares. -/
def Climbs (order : Order Key) (keys : List Key) : Prop :=
  keys.IsChain fun earlier later => order earlier later = .lt

/-- In a lawful order, keys that climb from one to the next ascend. -/
theorem ascending_iff_climbs
    {order : Order Key}
    [Std.TransCmp order]
    {keys : List Key} :
    Order.Ascending order keys ↔ Climbs order keys := by
  have trans :
      Trans (fun earlier later => order earlier later = .lt)
        (fun earlier later => order earlier later = .lt)
        (fun earlier later => order earlier later = .lt) :=
    ⟨Std.TransCmp.lt_trans⟩
  exact List.isChain_iff_pairwise.symm

theorem climbs_cons_iff
    {order : Order Key}
    {previous : Option Key}
    {key : Key}
    {rest : List Key} :
    Climbs order (previous.toList ++ key :: rest) ↔
      (∀ before ∈ previous, order before key = .lt) ∧ Climbs order (key :: rest) := by
  cases previous with
  | none =>
      simp
  | some before =>
      simp [Climbs]

/-- Records give pairs exactly if their payloads decode and their keys climb. -/
theorem pairs_eq_ok_iff_climbs
    {format : TreeFormat Key Value}
    {index : Nat}
    {previous : Option Key}
    {records : List NodeRecord}
    {pairs : List (Key × Value)} :
    format.pairs index previous records = .ok pairs ↔
      List.Forall₂ format.Reads records pairs ∧
        Climbs format.order (previous.toList ++ pairs.map Prod.fst) := by
  induction records generalizing index previous pairs with
  | nil =>
      rw [TreeFormat.pairs, Except.ok.injEq, List.forall₂_nil_left_iff, eq_comm]
      constructor
      · rintro rfl
        exact ⟨rfl, by cases previous <;> simp [Climbs]⟩
      · exact And.left
  | cons record rest inductionHypothesis =>
      have inOrder_iff (key : Key) :
          ¬ (previous.any fun before => format.order before key != .lt) = true ↔
            ∀ before ∈ previous, format.order before key = .lt := by
        cases previous <;> simp
      simp only [TreeFormat.pairs, bind_eq_ok_iff]
      constructor
      · rintro ⟨key, keyRead, decoded⟩
        split at decoded
        next =>
          contradiction
        next climbs =>
          obtain ⟨value, valueRead, decoded⟩ := bind_eq_ok_iff.mp decoded
          obtain ⟨others, othersDecoded, decoded⟩ := bind_eq_ok_iff.mp decoded
          obtain ⟨othersRead, othersClimb⟩ := inductionHypothesis.mp othersDecoded
          cases Except.ok.inj decoded
          refine ⟨.cons ⟨keyRead, valueRead⟩ othersRead, ?_⟩
          exact climbs_cons_iff.mpr ⟨(inOrder_iff key).mp climbs, othersClimb⟩
      · rintro ⟨reads, climbs⟩
        cases reads with
        | cons first othersRead =>
            obtain ⟨above, othersClimb⟩ := climbs_cons_iff.mp climbs
            refine ⟨_, first.1, ?_⟩
            rw [if_neg ((inOrder_iff _).mpr above)]
            exact bind_eq_ok_iff.mpr ⟨_, first.2, bind_eq_ok_iff.mpr
              ⟨_, inductionHypothesis.mpr ⟨othersRead, othersClimb⟩, rfl⟩⟩

/-- Records give pairs exactly if their payloads decode and their keys ascend. -/
theorem pairs_eq_ok_iff
    {format : TreeFormat Key Value}
    [Std.TransCmp format.order]
    {index : Nat}
    {previous : Option Key}
    {records : List NodeRecord}
    {pairs : List (Key × Value)} :
    format.pairs index previous records = .ok pairs ↔
      List.Forall₂ format.Reads records pairs ∧
        Order.Ascending format.order (previous.toList ++ pairs.map Prod.fst) := by
  rw [pairs_eq_ok_iff_climbs, ascending_iff_climbs]

section Assembled

variable {order : Order Key} {links : LinkTree} {pairs : List (Key × Value)}

theorem entry?_assemble (id : NodeId) :
    OrderedTree.entry? (assemble order links pairs) id =
      pairs[id]?.map (entryAtPlace pairs.length id) := by
  simp only [OrderedTree.entry?, assemble, List.getElem?_toArray, List.getElem?_mapIdx]
  cases pairs[id]? <;> rfl

/-- Every slot of an assembled tree is in use. -/
theorem assemble_arenaSound : (assemble order links pairs).ArenaSound where
  distinct := List.nodup_nil
  mem_iff id := by
    constructor
    · intro isFree
      exact (List.not_mem_nil isFree).elim
    · rintro ⟨inArena, vacant⟩
      have small : id < pairs.length := by
        simpa [assemble] using inArena
      rw [entry?_assemble, List.getElem?_eq_getElem small] at vacant
      contradiction

/-- A tree that is put together from a balanced shape is formed of its numbered pairs. -/
theorem assemble_formed
    (inOrder : links.toList = List.range' 0 pairs.length)
    (balanced : (links.toShape (pairs.map Prod.fst).toArray).Balanced) :
    (assemble order links pairs).Formed (numbered pairs) := by
  have keysSize : (pairs.map Prod.fst).toArray.size = pairs.length := by
    simp
  have inRange : ∀ index ∈ links.toList, index < (pairs.map Prod.fst).toArray.size := by
    intro index member
    rw [inOrder, List.mem_range'_1] at member
    rw [keysSize]
    simpa using member.2
  refine {
    distinct := ?_
    sequence := ?_
    balanced := balanced
    linked := ?_
    vacant := ?_
    first_eq := ?_
    last_eq := ?_
    size_eq := length_numbered.symm
    arena := assemble_arenaSound }
  · rw [id_numbered]
    exact List.nodup_range
  · refine (LinkTree.toList_toShape inRange).trans ?_
    have read := filterMap_range' [] (pairs.map Prod.fst) fun index key => (index, key)
    simp only [List.length_map, List.length_nil, List.nil_append, Nat.zero_add] at read
    simp only [inOrder, List.getElem?_toArray]
    rw [read, keyed_numbered]
  · refine Linked.of_splits ?_
    intro below node above split
    obtain ⟨found, place, entry⟩ := numbered_split split
    rw [entry?_assemble, place, found, Option.map_some, entry]
  · intro id stranger
    rw [id_numbered, List.mem_range] at stranger
    rw [entry?_assemble, List.getElem?_eq_none (Nat.le_of_not_lt stranger)]
    rfl
  · rw [firstOr_none, List.head?_eq_getElem?, numbered_getElem?]
    cases pairs <;> rfl
  · have last : lastOr none (numbered pairs) = ((numbered pairs).map TreeNode.id).getLast? := by
      rw [lastOr_none, List.getLast?_map]
    rw [last, id_numbered, List.getLast?_range]
    rfl

/-- A tree that is put together from a balanced shape represents its numbered pairs. -/
theorem assemble_represents
    (ascending : Order.Ascending order (pairs.map Prod.fst))
    (inOrder : links.toList = List.range' 0 pairs.length)
    (balanced : (links.toShape (pairs.map Prod.fst).toArray).Balanced) :
    (assemble order links pairs).Represents (numbered pairs) :=
  ⟨assemble_formed inOrder balanced, by rw [key_numbered]; exact ascending⟩

end Assembled

/-- The bytes of records under the word for the topmost of them. -/
def bytesUnder (root : UInt32) (records : List NodeRecord) : Bytes :=
  Bytes.ofUInt32 (UInt32.ofNat records.length) ++ Bytes.ofUInt32 root ++
    records.flatMap NodeRecord.toBytes

/-- The records of a stored tree, which pass the checks, and what they were read as. -/
structure Accepts
    (format : TreeFormat Key Value)
    (root : UInt32)
    (records : List NodeRecord)
    (linkTree : LinkTree)
    (pairs : List (Key × Value)) :
    Prop where
  nonempty : records ≠ []
  counted : records.length < UInt32.size
  fits : ∀ record ∈ records, record.Fits
  linked :
    ∃ links, Links.ofRecords root records = .ok links ∧ links.checkShape records = .ok linkTree
  ordered : format.pairs 0 none records = .ok pairs

theorem checkConsumed_eq_ok_iff {rest : Bytes} {result : Unit} :
    checkConsumed rest = .ok result ↔ rest = [] := by
  cases rest <;> simp [checkConsumed]

/-- What is decoded is the empty tree, or put together from records that pass the checks. -/
theorem accepts_of_decode
    {format : TreeFormat Key Value}
    {bytes : Bytes}
    {tree : OrderedTree Key Value}
    (decoded : format.decode bytes = .ok tree) :
    bytes = Bytes.ofUInt32 0 ∧ tree = .empty format.order ∨
      ∃ root records linkTree pairs,
        bytes = bytesUnder root records ∧
          format.Accepts root records linkTree pairs ∧
            tree = assemble format.order linkTree pairs := by
  unfold decode at decoded
  dsimp only at decoded
  split at decoded
  next =>
    contradiction
  next =>
    obtain ⟨⟨header, afterHeader⟩, headerRead, decoded⟩ := bind_eq_ok_iff.mp decoded
    obtain ⟨bytes_eq, -⟩ := (Reader.runFor_eq_ok_iff Reader.takes_uint32).mp headerRead
    dsimp only at decoded
    split at decoded
    next isZero =>
      obtain ⟨_, consumed, decoded⟩ := bind_eq_ok_iff.mp decoded
      have header_eq : header = 0 := UInt32.toNat_inj.mp isZero
      rw [bytes_eq, header_eq, checkConsumed_eq_ok_iff.mp consumed, List.append_nil]
      exact .inl ⟨rfl, (Except.ok.inj decoded).symm⟩
    next notZero =>
      split at decoded
      next =>
        contradiction
      next =>
        obtain ⟨⟨root, afterRoot⟩, rootRead, decoded⟩ := bind_eq_ok_iff.mp decoded
        obtain ⟨⟨records, rest⟩, recordsRead, decoded⟩ := bind_eq_ok_iff.mp decoded
        obtain ⟨_, consumed, decoded⟩ := bind_eq_ok_iff.mp decoded
        obtain ⟨links, accepted, decoded⟩ := bind_eq_ok_iff.mp decoded
        obtain ⟨linkTree, checked, decoded⟩ := bind_eq_ok_iff.mp decoded
        obtain ⟨pairs, ordered, decoded⟩ := bind_eq_ok_iff.mp decoded
        obtain ⟨afterHeader_eq, -⟩ := (Reader.runFor_eq_ok_iff Reader.takes_uint32).mp rootRead
        obtain ⟨afterRoot_eq, counts, fits⟩ :=
          (Reader.runFor_eq_ok_iff (NodeRecord.takes_reader.repeated _)).mp recordsRead
        have rest_nil : rest = [] := checkConsumed_eq_ok_iff.mp consumed
        dsimp only at afterRoot_eq
        refine .inr ⟨root, records, linkTree, pairs, ?_, ?_, (Except.ok.inj decoded).symm⟩
        · rw [bytes_eq, afterHeader_eq, afterRoot_eq, rest_nil, List.append_nil, bytesUnder,
            counts, UInt32.ofNat_toNat, List.append_assoc]
        · refine ⟨?_, counts ▸ header.toNat_lt, fits, ⟨links, accepted, checked⟩, ordered⟩
          rintro rfl
          exact notZero counts.symm

/-- Records that pass the checks are decoded. -/
theorem decode_of_accepts
    {format : TreeFormat Key Value}
    {root : UInt32}
    {records : List NodeRecord}
    {linkTree : LinkTree}
    {pairs : List (Key × Value)}
    (accepts : format.Accepts root records linkTree pairs) :
    format.decode (bytesUnder root records) = .ok (assemble format.order linkTree pairs) := by
  obtain ⟨links, accepted, checked⟩ := accepts.linked
  have header :
      Reader.uint32.runFor "tree header" (bytesUnder root records) =
        .ok (UInt32.ofNat records.length,
          Bytes.ofUInt32 root ++ records.flatMap NodeRecord.toBytes) :=
    (Reader.runFor_eq_ok_iff Reader.takes_uint32).mpr ⟨List.append_assoc _ _ _, trivial⟩
  have count : (UInt32.ofNat records.length).toNat = records.length :=
    UInt32.toNat_ofNat_of_lt' accepts.counted
  have notZero : records.length ≠ 0 := mt List.eq_nil_of_length_eq_zero accepts.nonempty
  have longEnough :
      ¬ (bytesUnder root records).length < records.length * NodeRecord.leastLength := by
    have least := NodeRecord.leastLength_mul_le records
    simp only [bytesUnder, List.length_append]
    omega
  have notEmpty : ¬ (bytesUnder root records).isEmpty = true := by
    simp [bytesUnder, Bytes.ofUInt32, BigEndian.encode]
  unfold decode
  rw [if_neg notEmpty]
  refine bind_eq_ok_iff.mpr ⟨_, header, ?_⟩
  dsimp only
  rw [count, if_neg notZero, if_neg longEnough]
  refine bind_eq_ok_iff.mpr ⟨(root, records.flatMap NodeRecord.toBytes),
    (Reader.runFor_eq_ok_iff Reader.takes_uint32).mpr ⟨rfl, trivial⟩, ?_⟩
  refine bind_eq_ok_iff.mpr ⟨(records, []),
    (Reader.runFor_eq_ok_iff (NodeRecord.takes_reader.repeated _)).mpr
      ⟨(List.append_nil _).symm, rfl, accepts.fits⟩, ?_⟩
  refine bind_eq_ok_iff.mpr ⟨(), rfl, ?_⟩
  refine bind_eq_ok_iff.mpr ⟨links, accepted, ?_⟩
  refine bind_eq_ok_iff.mpr ⟨linkTree, checked, ?_⟩
  exact bind_eq_ok_iff.mpr ⟨pairs, accepts.ordered, rfl⟩

/-- A tree that is put together from accepted records is formed of the pairs that they hold. -/
theorem Accepts.formed
    {format : TreeFormat Key Value}
    {root : UInt32}
    {records : List NodeRecord}
    {linkTree : LinkTree}
    {pairs : List (Key × Value)}
    (accepts : format.Accepts root records linkTree pairs) :
    (assemble format.order linkTree pairs).Formed (numbered pairs) := by
  obtain ⟨reads, -⟩ := pairs_eq_ok_iff_climbs.mp accepts.ordered
  obtain ⟨links, -, checked⟩ := accepts.linked
  obtain ⟨-, inOrder, height, weighed⟩ := Links.checkShape_eq_ok_iff.mp checked
  rw [reads.length_eq] at inOrder
  refine assemble_formed inOrder (LinkTree.toShape_balanced ?_ weighed).1
  intro index member
  rw [inOrder, List.mem_range'_1] at member
  simpa using member.2

/-- A tree that is put together from accepted records represents the pairs that they hold. -/
theorem Accepts.represents
    {format : TreeFormat Key Value}
    [Std.TransCmp format.order]
    {root : UInt32}
    {records : List NodeRecord}
    {linkTree : LinkTree}
    {pairs : List (Key × Value)}
    (accepts : format.Accepts root records linkTree pairs) :
    (assemble format.order linkTree pairs).Represents (numbered pairs) := by
  refine ⟨accepts.formed, ?_⟩
  rw [key_numbered]
  exact (pairs_eq_ok_iff.mp accepts.ordered).2

/-- Whatever is decoded is formed of a list of nodes, in the order of the format. -/
theorem decode_formed
    {format : TreeFormat Key Value}
    {bytes : Bytes}
    {tree : OrderedTree Key Value}
    (decoded : format.decode bytes = .ok tree) :
    tree.order = format.order ∧ ∃ nodes, tree.Formed nodes := by
  rcases accepts_of_decode decoded with
    ⟨-, rfl⟩ | ⟨root, records, linkTree, pairs, -, accepts, rfl⟩
  · exact ⟨rfl, [], OrderedTree.formed_empty format.order⟩
  · exact ⟨rfl, numbered pairs, accepts.formed⟩

/-- Whatever is decoded represents a list of nodes in the order of the format. -/
theorem decode_represents
    {format : TreeFormat Key Value}
    [Std.TransCmp format.order]
    {bytes : Bytes}
    {tree : OrderedTree Key Value}
    (decoded : format.decode bytes = .ok tree) :
    tree.order = format.order ∧ ∃ nodes, tree.Represents nodes := by
  rcases accepts_of_decode decoded with
    ⟨-, rfl⟩ | ⟨root, records, linkTree, pairs, -, accepts, rfl⟩
  · exact ⟨rfl, [], OrderedTree.represents_empty format.order⟩
  · exact ⟨rfl, numbered pairs, accepts.represents⟩

/-- Whatever is decoded has as many keys as its header can count. -/
theorem size_lt_of_decode
    {format : TreeFormat Key Value}
    {bytes : Bytes}
    {tree : OrderedTree Key Value}
    (decoded : format.decode bytes = .ok tree) :
    tree.size < UInt32.size := by
  rcases accepts_of_decode decoded with
    ⟨-, rfl⟩ | ⟨root, records, linkTree, pairs, -, accepts, rfl⟩
  · exact Nat.two_pow_pos 32
  · obtain ⟨reads, -⟩ := pairs_eq_ok_iff_climbs.mp accepts.ordered
    have size_eq : (assemble format.order linkTree pairs).size = pairs.length := rfl
    rw [size_eq, ← reads.length_eq]
    exact accepts.counted

end TreeFormat

end OrderedIndex

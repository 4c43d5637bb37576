import OrderedIndex.Proofs.Bytes.Cuts
import OrderedIndex.Proofs.Master.RoundTrip

namespace OrderedIndex

/-!
# Damaged snapshots

A snapshot starts with eight bytes that never change and counts all that follows,
so one that is cut off, that goes on or that starts otherwise is refused before
any property or entry of it is looked at.  Of all byte strings, those are opened
that are spelled like a snapshot and hold a tree of entries.
-/

namespace Snapshot

variable {snapshot : Snapshot} {bytes kept lost extra head rest : Bytes}

/-! ## Refusals -/

/-- A snapshot that lacks some of its end is refused for running out. -/
theorem decode_of_cut
    (fits : snapshot.Fits)
    (cut : kept ++ lost = snapshot.encode)
    (some_lost : lost ≠ []) :
    decode kept = .error (.truncated part) := by
  rw [encode_eq] at cut
  unfold decode
  rcases (Reader.takes_take magic.length).runFor_of_cut rfl cut part with
    ended | ⟨afterMagic, magicRead, cut⟩
  · rw [ended]
    rfl
  rw [magicRead, ok_bind]
  dsimp only
  rw [if_neg (Classical.not_not.mpr rfl)]
  rcases Reader.takes_uint32.runFor_of_cut trivial cut part with
    ended | ⟨afterVersion, versionRead, cut⟩
  · rw [ended]
    rfl
  refine Eq.trans (congrArg (· >>= _) versionRead) ?_
  dsimp only [ok_bind]
  rw [if_neg (Classical.not_not.mpr rfl)]
  exact congrArg (· >>= _) (takes_bodyReader.runFor_of_cut_inside fits cut some_lost part)

/-- A snapshot with something behind it is refused for it. -/
theorem decode_append
    (fits : snapshot.Fits)
    (some_extra : extra ≠ []) :
    decode (snapshot.encode ++ extra) = .error (.malformed "trailing bytes after snapshot") := by
  have magicRead :
      (Reader.take magic.length).runFor part (snapshot.encode ++ extra) =
        .ok (magic, Bytes.ofUInt32 version ++ (snapshot.body ++ extra)) :=
    (Reader.runFor_eq_ok_iff (Reader.takes_take magic.length)).mpr
      ⟨by rw [encode_eq, List.append_assoc, List.append_assoc], rfl⟩
  have versionRead :
      Reader.uint32.runFor part (Bytes.ofUInt32 version ++ (snapshot.body ++ extra)) =
        .ok (version, snapshot.body ++ extra) :=
    (Reader.runFor_eq_ok_iff Reader.takes_uint32).mpr ⟨rfl, trivial⟩
  have bodyRead : bodyReader.runFor part (snapshot.body ++ extra) = .ok (snapshot, extra) :=
    (Reader.runFor_eq_ok_iff takes_bodyReader).mpr ⟨rfl, fits⟩
  have notEmpty : ¬ extra.isEmpty = true := by
    simpa using some_extra
  unfold decode
  rw [magicRead, ok_bind]
  dsimp only
  rw [if_neg (Classical.not_not.mpr rfl)]
  refine Eq.trans (congrArg (· >>= _) versionRead) ?_
  dsimp only [ok_bind]
  rw [if_neg (Classical.not_not.mpr rfl)]
  refine Eq.trans (congrArg (· >>= _) bodyRead) ?_
  dsimp only [ok_bind]
  rw [if_neg notEmpty]
  rfl

/-- Four bytes spell some number. -/
theorem exists_ofUInt32_eq
    {digits : Bytes}
    (four : digits.length = 4) :
    ∃ number, Bytes.ofUInt32 number = digits := by
  have small : BigEndian.decode digits < UInt32.size := by
    have below := BigEndian.decode_lt digits
    rwa [four] at below
  refine ⟨UInt32.ofNat (BigEndian.decode digits), ?_⟩
  rw [Bytes.ofUInt32, UInt32.toNat_ofNat_of_lt' small, ← four, BigEndian.encode_decode]

/-- Bytes that do not start with the magic number and the version are refused. -/
theorem decode_of_altered
    (eight : head.length = 8)
    (altered : head ≠ magic ++ Bytes.ofUInt32 version) :
    decode (head ++ rest) = .error (refusal "snapshot has bad magic") ∨
      decode (head ++ rest) = .error (refusal "unsupported snapshot version") := by
  obtain ⟨letters, digits, rfl, four, alsoFour⟩ :
      ∃ letters digits,
        head = letters ++ digits ∧ letters.length = magic.length ∧ digits.length = 4 :=
    ⟨head.take 4, head.drop 4, (List.take_append_drop 4 head).symm,
      by rw [List.length_take, eight]; rfl, by rw [List.length_drop, eight]⟩
  have magicRead :
      (Reader.take magic.length).runFor part (letters ++ digits ++ rest) =
        .ok (letters, digits ++ rest) :=
    (Reader.runFor_eq_ok_iff (Reader.takes_take magic.length)).mpr
      ⟨List.append_assoc _ _ _, four⟩
  unfold decode
  rw [magicRead, ok_bind]
  dsimp only
  by_cases isMagic : letters = magic
  · obtain ⟨found, spelled⟩ := exists_ofUInt32_eq alsoFour
    have versionRead : Reader.uint32.runFor part (digits ++ rest) = .ok (found, rest) :=
      (Reader.runFor_eq_ok_iff Reader.takes_uint32).mpr ⟨by rw [spelled], trivial⟩
    have different : found ≠ version := by
      rintro rfl
      exact altered (by rw [isMagic, spelled])
    rw [if_neg (Classical.not_not.mpr isMagic)]
    refine .inr (Eq.trans (congrArg (· >>= _) versionRead) ?_)
    dsimp only [ok_bind]
    rw [if_pos different]
    rfl
  · rw [if_pos isMagic]
    exact .inl rfl

/-! ## Spelling -/

/-- The counted strings of a property, its name first. -/
def spellProperty (property : String × String) : Bytes :=
  Bytes.ofCounted (Utf8.encode property.1) ++ Bytes.ofCounted (Utf8.encode property.2)

/--
Bytes that are spelled like a snapshot: four letters, the version, the sequence,
the number of properties, the properties and the counted bytes of the entries.
-/
structure Spelled
    (bytes : Bytes)
    (sequence : UInt64)
    (properties : List (String × String))
    (entries : Bytes) :
    Prop where
  bytes_eq :
    bytes =
      Utf8.encode "DIMT" ++ Bytes.ofUInt32 1 ++ Bytes.ofUInt64 sequence ++
        Bytes.ofUInt32 (UInt32.ofNat properties.length) ++ properties.flatMap spellProperty ++
          Bytes.ofCounted entries
  few : properties.length < UInt32.size
  short :
    ∀ property ∈ properties,
      (Utf8.encode property.1).length < UInt32.size ∧
        (Utf8.encode property.2).length < UInt32.size
  entries_short : entries.length < UInt32.size

/-- A property as it is stored. -/
def storedProperty (property : String × String) : StoredProperty :=
  ⟨Utf8.encode property.1, Utf8.encode property.2⟩

theorem decode_eq_ok_iff_storedProperty
    {stored : StoredProperty}
    {property : String × String} :
    stored.decode = .ok property ↔ stored = storedProperty property := by
  obtain ⟨name, value⟩ := stored
  simp only [StoredProperty.decode, bind_eq_ok_iff, Codec.exact_string.decode_eq_ok_iff]
  constructor
  · rintro ⟨text, textStored, other, otherStored, returned⟩
    cases Except.ok.inj returned
    cases Except.ok.inj textStored
    cases Except.ok.inj otherStored
    rfl
  · intro isStored
    cases isStored
    exact ⟨property.1, rfl, property.2, rfl, rfl⟩

/-- Stored properties are read as some strings exactly if they are those strings, stored. -/
theorem mapM_decode_eq_ok_iff
    {stored : List StoredProperty}
    {properties : List (String × String)} :
    stored.mapM StoredProperty.decode = .ok properties ↔
      stored = properties.map storedProperty := by
  rw [mapM_eq_ok_iff, ← List.forall₂_eq_eq_eq, List.forall₂_map_right_iff]
  simp only [decode_eq_ok_iff_storedProperty]

/-- Bytes are spelled like a snapshot exactly if they are read as one with stored strings. -/
theorem spelled_iff
    {sequence : UInt64}
    {properties : List (String × String)}
    {entries : Bytes} :
    Spelled bytes sequence properties entries ↔
      decode bytes = .ok ⟨sequence, properties.map storedProperty, entries⟩ := by
  have letters : magic = Utf8.encode "DIMT" := by
    decide
  have fits_iff (length : Nat) : length ≤ payloadLimit ↔ length < UInt32.size :=
    Nat.le_sub_one_iff_lt (by decide)
  have encode_eq :
      encode ⟨sequence, properties.map storedProperty, entries⟩ =
        Utf8.encode "DIMT" ++ Bytes.ofUInt32 1 ++ Bytes.ofUInt64 sequence ++
          Bytes.ofUInt32 (UInt32.ofNat properties.length) ++ properties.flatMap spellProperty ++
            Bytes.ofCounted entries := by
    rw [encode, letters, List.length_map, List.flatMap_map]
    rfl
  rw [decode_eq_ok_iff, encode_eq]
  constructor
  · rintro ⟨bytes_eq, few, short, entries_short⟩
    refine ⟨bytes_eq, ?_, ?_, (fits_iff _).mpr entries_short⟩
    · rw [List.length_map]
      exact (fits_iff _).mpr few
    · intro stored member
      obtain ⟨property, isProperty, rfl⟩ := List.mem_map.mp member
      obtain ⟨nameShort, valueShort⟩ := short property isProperty
      exact ⟨(fits_iff _).mpr nameShort, (fits_iff _).mpr valueShort⟩
  · rintro ⟨bytes_eq, few, each, entriesFit⟩
    rw [List.length_map] at few
    refine ⟨bytes_eq, (fits_iff _).mp few, ?_, (fits_iff _).mp entriesFit⟩
    intro property member
    obtain ⟨nameFits, valueFits⟩ := each _ (List.mem_map_of_mem member)
    exact ⟨(fits_iff _).mp nameFits, (fits_iff _).mp valueFits⟩

end Snapshot

namespace MasterTable

variable
  {Value : Type}
  {config : MasterTableConfig}
  {codec : Codec Value}
  {master : MasterTable Value}
  {path : String}
  {bytes : Bytes}
  {host : Host}

/-! ## Opening damaged snapshots -/

theorem ofConfig_of_read
    (hasPath : config.path? = some path)
    (found : host.files.read path = .ok bytes) :
    (ofConfig config codec host).1 = opened config codec (.ok bytes) := by
  rw [ofConfig_eq, hasPath]
  dsimp only
  rw [found]

/-- Wherever the bytes are found and whatever values are expected, opening them fails. -/
def RefusedFor (bytes : Bytes) (cause : DecodeError) : Prop :=
  ∀ (Expected : Type) (config : MasterTableConfig) (codec : Codec Expected) (path : String)
    (host : Host),
    config.path? = some path →
    host.files.read path = .ok bytes →
    (ofConfig config codec host).1 = .error (.decode cause)

/-- Bytes that are no snapshot are refused. -/
theorem refusedFor_of_decode
    {cause : DecodeError}
    (refused : Snapshot.decode bytes = .error cause) :
    RefusedFor bytes cause := by
  intro Expected config codec path host hasPath found
  have unread : readSnapshot (entryFormat codec) bytes = .error cause := by
    rw [readSnapshot, refused]
    rfl
  rw [ofConfig_of_read hasPath found, opened, unread]

/-- What is left of some bytes after damage is refused. -/
structure RefusesDamage (bytes : Bytes) : Prop where
  of_cut :
    ∀ {kept},
      kept <+: bytes →
      kept ≠ bytes →
      RefusedFor kept (.truncated Snapshot.part)
  of_append :
    ∀ {extra},
      extra ≠ [] →
      RefusedFor (bytes ++ extra) (.malformed "trailing bytes after snapshot")
  /-- The first eight bytes are the magic number and the version. -/
  of_altered :
    ∀ {head},
      head.length = 8 →
      head ≠ bytes.take 8 →
      ∃ reason, RefusedFor (head ++ bytes.drop 8) (.malformed reason)

theorem refusesDamage_encode
    {snapshot : Snapshot}
    (fits : snapshot.Fits) :
    RefusesDamage snapshot.encode where
  of_cut := by
    rintro kept ⟨lost, cut⟩ shorter
    have some_lost : lost ≠ [] := by
      rintro rfl
      exact shorter ((List.append_nil kept).symm.trans cut)
    exact refusedFor_of_decode (Snapshot.decode_of_cut fits cut some_lost)
  of_append some_extra :=
    refusedFor_of_decode (Snapshot.decode_append fits some_extra)
  of_altered := by
    intro head eight altered
    rw [Snapshot.encode_eq, ← List.append_assoc] at altered
    rw [List.take_left' (by rfl)] at altered
    rcases Snapshot.decode_of_altered eight altered with badMagic | badVersion
    · exact ⟨_, refusedFor_of_decode badMagic⟩
    · exact ⟨_, refusedFor_of_decode badVersion⟩

/-- The bytes of a table spell its sequence, its properties and its encoded tree. -/
theorem spelled_of_encode (encoded : master.encode = .ok bytes) :
    ∃ tree entries,
      master.table.entries = .unique tree ∧
        master.format.encode tree = .ok entries ∧
          Snapshot.Spelled bytes master.sequence master.properties entries := by
  cases entries : master.table.entries with
  | duplicates =>
      rw [encode, Table.uniqueTree?, entries] at encoded
      contradiction
  | unique tree =>
      obtain ⟨properties, stored, storedAll, few, treeEncoded, fits, bytes_eq⟩ :=
        (encode_eq_ok_iff entries).mp encoded
      have named := Snapshot.mapM_decode_eq_ok_iff.mp (mapM_decode_of_mapM_storeProperty storedAll)
      refine ⟨tree, stored, rfl, treeEncoded, Snapshot.spelled_iff.mpr ?_⟩
      rw [← named]
      exact Snapshot.decode_eq_ok_iff.mpr
        ⟨bytes_eq.symm, few, fits_of_mapM_storeProperty storedAll, fits⟩

/-! ## Opening any bytes -/

theorem foldl_max_le_iff
    {ids : List UInt64}
    {first bound : UInt64} :
    ids.foldl max first ≤ bound ↔ first ≤ bound ∧ ∀ id ∈ ids, id ≤ bound := by
  induction ids generalizing first with
  | nil =>
      simp
  | cons id rest inductionHypothesis =>
      rw [List.foldl_cons, inductionHypothesis, List.forall_mem_cons, ← and_assoc]
      refine and_congr_left' ?_
      simp only [UInt64.le_iff_toNat_le, toNat_max]
      exact Nat.max_le

/-- The sequence of a snapshot, raised to every identifier of a tree. -/
theorem max_highestId_eq
    {tree : OrderedTree UInt64 Value}
    (sound : tree.Sound)
    (order_eq : tree.order = .natural)
    (sequence : UInt64) :
    max sequence (highestId tree) = (tree.toList.map Prod.fst).foldl max sequence := by
  have max_le (first second bound : UInt64) :
      max first second ≤ bound ↔ first ≤ bound ∧ second ≤ bound := by
    simpa using @foldl_max_le_iff [second] first bound
  have covers := @foldl_max_le_iff (tree.toList.map Prod.fst) sequence
  apply UInt64.le_antisymm
  · refine (max_le ..).mpr ⟨(covers.mp UInt64.le_rfl).1, highestId_le sound ?_⟩
    exact fun entry member => (covers.mp UInt64.le_rfl).2 _ (List.mem_map_of_mem member)
  · refine covers.mpr ⟨le_max_of_le_left UInt64.le_rfl _, ?_⟩
    intro id member
    obtain ⟨entry, entryMember, rfl⟩ := List.mem_map.mp member
    exact le_max_of_le_right _ (le_highestId sound order_eq entryMember)

/-- A table that holds what a snapshot was read as. -/
structure Holds
    (master : MasterTable Value)
    (sequence : UInt64)
    (properties : List (String × String))
    (tree : OrderedTree UInt64 Value) :
    Prop where
  /-- The entries with their identifiers, in order. -/
  toList_eq : master.table.toList = tree.toList
  get?_eq : ∀ id, master.get? id = .ok (tree.get? id)
  count_eq : master.count = tree.size
  /-- Of the properties with one name the last counts. -/
  property?_eq : ∀ name, master.property? name = properties.reverse.lookup name
  /-- The sequence is the greatest of the stored one and all identifiers. -/
  sequence_eq : master.sequence = (tree.toList.map Prod.fst).foldl max sequence

theorem get?_nameOrder
    (name : String)
    (properties : List (String × String)) :
    SortedMap.get? nameOrder name properties = properties.lookup name := by
  have found_iff (other : String) : (nameOrder name other == .eq) = (name == other) := by
    rw [Bool.eq_iff_iff, beq_iff_eq, beq_iff_eq]
    exact Std.LawfulEqOrd.compare_eq_iff_eq
  induction properties with
  | nil =>
      rfl
  | cons first rest inductionHypothesis =>
      rw [List.lookup_cons, ← inductionHypothesis]
      dsimp only [SortedMap.get?]
      rw [List.find?_cons, found_iff]
      cases name == first.1 <;> rfl

theorem holds_filled
    {sequence : UInt64}
    {properties : List (String × String)}
    {tree : OrderedTree UInt64 Value}
    (sound : tree.Sound)
    (order_eq : tree.order = .natural) :
    Holds
      (filled config codec
        ⟨max sequence (highestId tree), SortedMap.ofList nameOrder properties, tree⟩)
      sequence properties tree where
  toList_eq := rfl
  get?_eq _ := rfl
  count_eq := rfl
  property?_eq name := (SortedMap.get?_ofList name properties).trans (get?_nameOrder name _)
  sequence_eq := max_highestId_eq sound order_eq sequence

/-- Bytes are read as some contents exactly if they are spelled like a snapshot with a tree. -/
theorem readSnapshot_eq_ok_iff_spelled
    {format : TreeFormat UInt64 Value}
    {contents : Contents Value} :
    readSnapshot format bytes = .ok contents ↔
      ∃ sequence properties entries tree,
        Snapshot.Spelled bytes sequence properties entries ∧
          format.decode entries = .ok tree ∧
            ⟨max sequence (highestId tree), SortedMap.ofList nameOrder properties, tree⟩ =
              contents := by
  rw [readSnapshot_eq_ok_iff]
  constructor
  · rintro ⟨⟨sequence, stored, entries⟩, properties, tree, decoded, named, grown, rfl⟩
    cases Snapshot.mapM_decode_eq_ok_iff.mp named
    exact ⟨sequence, properties, entries, tree, Snapshot.spelled_iff.mpr decoded, grown, rfl⟩
  · rintro ⟨sequence, properties, entries, tree, spelled, grown, rfl⟩
    exact ⟨_, properties, tree, Snapshot.spelled_iff.mp spelled,
      Snapshot.mapM_decode_eq_ok_iff.mpr rfl, grown, rfl⟩

/-- Some bytes are opened exactly if they are spelled like a snapshot of some entries. -/
structure OpensAsSpelled
    (codec : Codec Value)
    (bytes : Bytes)
    (opening : Except IndexError (MasterTable Value)) :
    Prop where
  opens_iff :
    (∃ master, opening = .ok master) ↔
      ∃ sequence properties entries tree,
        Snapshot.Spelled bytes sequence properties entries ∧
          (entryFormat codec).decode entries = .ok tree
  holds :
    ∀ {master sequence properties entries tree},
      opening = .ok master →
      Snapshot.Spelled bytes sequence properties entries →
      (entryFormat codec).decode entries = .ok tree →
      Holds master sequence properties tree

theorem opensAsSpelled_opened :
    OpensAsSpelled codec bytes (opened config codec (.ok bytes)) where
  opens_iff := by
    rw [opened]
    cases read : readSnapshot (entryFormat codec) bytes with
    | ok contents =>
        obtain ⟨sequence, properties, entries, tree, spelled, grown, -⟩ :=
          readSnapshot_eq_ok_iff_spelled.mp read
        exact iff_of_true ⟨_, rfl⟩ ⟨sequence, properties, entries, tree, spelled, grown⟩
    | error cause =>
        constructor
        · rintro ⟨master, opens⟩
          contradiction
        · rintro ⟨sequence, properties, entries, tree, spelled, grown⟩
          cases read.symm.trans
            (readSnapshot_eq_ok_iff_spelled.mpr
              ⟨sequence, properties, entries, tree, spelled, grown, rfl⟩)
  holds := by
    intro master sequence properties entries tree opens spelled grown
    have read :=
      readSnapshot_eq_ok_iff_spelled.mpr ⟨sequence, properties, entries, tree, spelled, grown, rfl⟩
    rw [opened, read] at opens
    cases opens
    obtain ⟨order_eq, sound⟩ := sound_of_decode grown
    exact holds_filled sound order_eq

/-- What was saved is refused when it is damaged, and nothing but a snapshot is opened. -/
theorem opensSnapshotsOnly :
    (∀ {Value : Type} {master : MasterTable Value} {path : String} {before : Host},
      master.path? = some path →
      (master.sync before).1 = .ok () →
      ∃ bytes,
        (master.sync before).2.files.read path = .ok bytes ∧ RefusesDamage bytes) ∧
      ∀ {Value : Type} {config : MasterTableConfig} {codec : Codec Value} {path : String}
        {host : Host} {bytes : Bytes},
        config.path? = some path →
        host.files.read path = .ok bytes →
        OpensAsSpelled codec bytes (ofConfig config codec host).1 := by
  constructor
  · intro Value master path before hasPath synced
    obtain ⟨bytes, encoded, -⟩ := (sync_eq_ok_iff hasPath).mp ⟨synced, rfl⟩
    obtain ⟨tree, entries, -, -, spelled⟩ := spelled_of_encode encoded
    obtain ⟨rfl, fits⟩ := Snapshot.decode_eq_ok_iff.mp (Snapshot.spelled_iff.mp spelled)
    exact ⟨_, read_of_sync hasPath encoded synced, refusesDamage_encode fits⟩
  · intro Value config codec path host bytes hasPath found
    have opening_eq : (ofConfig config codec host).1 = opened config codec (.ok bytes) :=
      ofConfig_of_read hasPath found
    rw [opening_eq]
    exact opensAsSpelled_opened

/-- An empty table is saved, and a snapshot is opened that repeats a name and has a low sequence. -/
theorem opensSnapshotsOnly_scatteredHost :
    ∃ bytes master,
      ((blank ⟨"t", some "t"⟩ Codec.unit).sync scatteredHost).2.files.read "t" = .ok bytes ∧
        RefusesDamage bytes ∧
          (ofConfig ⟨"t", some "t"⟩ .unit scatteredHost).1 = .ok master ∧
            master.table.toList = [(9, ())] ∧
              master.property? "b" = some "3" ∧ master.sequence = 9 := by
  have plain : FileSystem.PlainName "t" := by
    constructor <;> decide
  have plainTemporary : FileSystem.PlainName (temporaryPath "t") := by
    constructor <;> decide
  have sourceFree :
      scatteredHost.files.node? (Place.workingDirectory.child (temporaryPath "t")) ≠
        some .directory := by
    decide
  have targetFree :
      scatteredHost.files.node? (Place.workingDirectory.child "t") ≠ some .directory := by
    decide
  have read : scatteredHost.files.read "t" = .ok scatteredSnapshot :=
    FileSystem.read_eq_ok_iff.mpr ⟨_, plain.resolve_eq, rfl⟩
  have spelled :
      Snapshot.Spelled scatteredSnapshot 3 [("b", "1"), ("a", "2"), ("b", "3")]
        (TreeFormat.bytesUnder 0 [⟨noNode, noNode, 0, Bytes.ofUInt64 9, []⟩]) := by
    constructor <;> decide +kernel
  have synced : ((blank ⟨"t", some "t"⟩ Codec.unit).sync scatteredHost).1 = .ok () :=
    sync_of_plainName rfl rfl plain plainTemporary rfl sourceFree targetFree
  obtain ⟨bytes, saved, refuses⟩ := opensSnapshotsOnly.1 rfl synced
  have opens :
      OpensAsSpelled .unit scatteredSnapshot
        (ofConfig ⟨"t", some "t"⟩ Codec.unit scatteredHost).1 :=
    opensSnapshotsOnly.2 rfl read
  obtain ⟨master, isMaster⟩ := opens.opens_iff.mpr ⟨_, _, _, _, spelled, rfl⟩
  have holds := opens.holds isMaster spelled rfl
  exact ⟨bytes, master, saved, refuses, isMaster, holds.toList_eq,
    holds.property?_eq "b", holds.sequence_eq⟩

end MasterTable

end OrderedIndex

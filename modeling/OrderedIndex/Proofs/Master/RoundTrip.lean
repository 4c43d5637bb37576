import OrderedIndex.Proofs.Master.Reachable
import OrderedIndex.Proofs.Master.Replacement
import OrderedIndex.Proofs.Master.Snapshot

namespace OrderedIndex

/-!
# Reopened master tables

A saved table is read back part by part: its properties as strings in name
order, its tree as a copy that is numbered in key order, and its sequence, which
covers every stored identifier already.  The copy is encoded to the same bytes,
and so is the table that is opened with it.
-/

/-- What a list is made into, item by item. -/
theorem mapM_eq_ok_iff
    {Failure Item Result : Type}
    {make : Item → Except Failure Result}
    {items : List Item}
    {results : List Result} :
    items.mapM make = .ok results ↔
      List.Forall₂ (fun item result => make item = .ok result) items results := by
  induction items generalizing results with
  | nil =>
      rw [List.mapM_nil, List.forall₂_nil_left_iff]
      exact ⟨fun returned => (Except.ok.inj returned).symm, fun isNil => congrArg _ isNil.symm⟩
  | cons item rest inductionHypothesis =>
      simp only [List.mapM_cons, bind_eq_ok_iff, inductionHypothesis]
      constructor
      · rintro ⟨result, made, others, madeOthers, returned⟩
        cases Except.ok.inj returned
        exact .cons made madeOthers
      · rintro (_ | ⟨made, madeOthers⟩)
        exact ⟨_, made, _, madeOthers, rfl⟩

namespace MasterTable

variable
  {Value : Type}
  {config : MasterTableConfig}
  {codec : Codec Value}
  {start master : MasterTable Value}
  {history : List (MasterEvent Value)}
  {path : String}
  {bytes : Bytes}

/-! ## Properties -/

/-- A property is stored as its encoded strings, if their lengths fit. -/
theorem storeProperty_eq_ok_iff
    {property : String × String}
    {stored : StoredProperty} :
    storeProperty property = .ok stored ↔
      stored = ⟨Utf8.encode property.1, Utf8.encode property.2⟩ ∧ stored.Fits := by
  simp only [storeProperty, bind_eq_ok_iff, TreeFormat.checkPayload_eq_ok_iff]
  constructor
  · rintro ⟨_, nameFits, _, valueFits, returned⟩
    cases Except.ok.inj returned
    exact ⟨rfl, nameFits, valueFits⟩
  · rintro ⟨rfl, nameFits, valueFits⟩
    exact ⟨(), nameFits, (), valueFits, rfl⟩

/-- A stored property is read back. -/
theorem decode_of_storeProperty
    {property : String × String}
    {stored : StoredProperty}
    (stores : storeProperty property = .ok stored) :
    stored.decode = .ok property := by
  rw [(storeProperty_eq_ok_iff.mp stores).1, StoredProperty.decode,
    Codec.exact_string.roundTrips property.1 _ rfl, Codec.exact_string.roundTrips property.2 _ rfl]
  rfl

/-- Stored properties are read back in their order. -/
theorem mapM_decode_of_mapM_storeProperty
    {properties : List (String × String)}
    {stored : List StoredProperty}
    (storedAll : properties.mapM storeProperty = .ok stored) :
    stored.mapM StoredProperty.decode = .ok properties :=
  mapM_eq_ok_iff.mpr ((mapM_eq_ok_iff.mp storedAll).flip.imp fun _ _ => decode_of_storeProperty)

/-- Whatever properties are stored, their lengths fit. -/
theorem fits_of_mapM_storeProperty
    {properties : List (String × String)}
    {stored : List StoredProperty}
    (storedAll : properties.mapM storeProperty = .ok stored) :
    ∀ property ∈ stored, property.Fits :=
  forall_mem_of_forall₂ (mapM_eq_ok_iff.mp storedAll) fun _ _ stores =>
    (storeProperty_eq_ok_iff.mp stores).2

/-! ## Snapshots -/

/-- A table without duplicates is encoded exactly if its lengths allow for it. -/
theorem encode_eq_ok_iff
    {tree : OrderedTree UInt64 Value}
    (entries : master.table.entries = .unique tree) :
    master.encode = .ok bytes ↔
      ∃ properties stored,
        master.properties.mapM storeProperty = .ok properties ∧
          properties.length ≤ payloadLimit ∧
            master.format.encode tree = .ok stored ∧
              stored.length ≤ payloadLimit ∧
                Snapshot.encode ⟨master.sequence, properties, stored⟩ = bytes := by
  have uniqueTree : master.table.uniqueTree? = some tree := by
    rw [Table.uniqueTree?, entries]
  simp only [encode, uniqueTree, bind_eq_ok_iff, TreeFormat.checkPayload_eq_ok_iff]
  constructor
  · rintro ⟨properties, storedAll, _, few, stored, encoded, _, fits, returned⟩
    exact ⟨properties, stored, storedAll, few, encoded, fits, Except.ok.inj returned⟩
  · rintro ⟨properties, stored, storedAll, few, encoded, fits, rfl⟩
    exact ⟨properties, storedAll, (), few, stored, encoded, (), fits, rfl⟩

/--
The bytes of a sound table are read as its sequence, its properties and a copy
of its tree.  A table that is filled with them has the same bytes.
-/
theorem Sound.readSnapshot_of_encode
    (sound : Sound config codec master)
    (roundTrips : ∀ entry ∈ master.table.toList, codec.RoundTripsAt entry.2)
    (encoded : master.encode = .ok bytes) :
    ∃ copy : OrderedTree UInt64 Value,
      readSnapshot (entryFormat codec) bytes = .ok ⟨master.sequence, master.properties, copy⟩ ∧
        copy.toList = master.table.toList ∧
          ∀ other,
            (filled other codec ⟨master.sequence, master.properties, copy⟩).encode = .ok bytes := by
  obtain ⟨tree, entries, order_eq, treeSound, toList_eq⟩ := sound.tree
  rw [toList_eq] at roundTrips ⊢
  obtain ⟨properties, stored, storedAll, few, treeEncoded, fits, rfl⟩ :=
    (encode_eq_ok_iff entries).mp encoded
  rw [sound.format_eq] at treeEncoded
  obtain ⟨nodes, represents⟩ := treeSound.represents
  obtain ⟨copy, decoded, isCopy, copyValid, -, copyEncoded⟩ :=
    represents.round_trips order_eq
      (fun entry member => ⟨Codec.exact_uint64.roundTrips entry.1, roundTrips entry member⟩)
      treeEncoded
  refine ⟨copy, ?_, isCopy.toList_eq, fun other =>
    (encode_eq_ok_iff rfl).mpr ⟨properties, stored, storedAll, few, copyEncoded, fits, rfl⟩⟩
  -- No stored identifier is above the sequence, so it is the maximum of both.
  have highest : highestId copy ≤ master.sequence := by
    refine highestId_le (sound_of_decode decoded).2 ?_
    rw [isCopy.toList_eq, ← toList_eq]
    exact fun _ => sound.le_sequence
  refine readSnapshot_eq_ok_iff.mpr
    ⟨_, _, _,
      Snapshot.decode_eq_ok_iff.mpr ⟨rfl, few, fits_of_mapM_storeProperty storedAll, fits⟩,
      mapM_decode_of_mapM_storeProperty storedAll, decoded, ?_⟩
  rw [max_eq_of_le highest, SortedMap.ofList_of_ascending sound.ascending]

/-! ## Opening again -/

/-- A table that holds what another one holds. -/
structure SameContents (saved restored : MasterTable Value) : Prop where
  /-- The entries with their identifiers, in order. -/
  toList_eq : restored.table.toList = saved.table.toList
  get?_eq : ∀ id, restored.get? id = saved.get? id
  count_eq : restored.count = saved.count
  properties_eq : restored.properties = saved.properties
  sequence_eq : restored.sequence = saved.sequence

/-- Sound tables of the same pairs and properties hold the same. -/
theorem Sound.sameContents
    {other : MasterTableConfig}
    {restored : MasterTable Value}
    (sound : Sound config codec master)
    (restoredSound : Sound other codec restored)
    (toList_eq : restored.table.toList = master.table.toList)
    (properties_eq : restored.properties = master.properties)
    (sequence_eq : restored.sequence = master.sequence) :
    SameContents master restored where
  toList_eq := toList_eq
  get?_eq id := by
    obtain ⟨tree, entries, order_eq, treeSound, tree_toList⟩ := sound.tree
    obtain ⟨restoredTree, restoredEntries, restoredOrder_eq, restoredTreeSound, restored_toList⟩ :=
      restoredSound.tree
    rw [get?, get?, Table.get, Table.get, entries, restoredEntries]
    dsimp only
    rw [treeSound.get?_eq, restoredTreeSound.get?_eq, order_eq, restoredOrder_eq, ← tree_toList,
      ← restored_toList, toList_eq]
  count_eq := by
    rw [count, count, sound.table.counted, restoredSound.table.counted,
      ← TableSpec.length_tuples, ← TableSpec.length_tuples, ← Table.toList_eq_tuples,
      ← Table.toList_eq_tuples, toList_eq]
  properties_eq := properties_eq
  sequence_eq := sequence_eq

/-- Wherever the bytes of a table are found, they are opened as a table that holds the same. -/
theorem Sound.reopens
    (sound : Sound config codec master)
    (roundTrips : ∀ entry ∈ master.table.toList, codec.RoundTripsAt entry.2)
    (encoded : master.encode = .ok bytes)
    {other : MasterTableConfig}
    {host : Host}
    (hasPath : other.path? = some path)
    (found : host.files.read path = .ok bytes) :
    ∃ reopened,
      (ofConfig other codec host).1 = .ok reopened ∧
        reopened.path? = some path ∧
          SameContents master reopened ∧ reopened.encode = .ok bytes := by
  obtain ⟨copy, read, toList_eq, sameBytes⟩ := sound.readSnapshot_of_encode roundTrips encoded
  refine ⟨filled other codec ⟨master.sequence, master.properties, copy⟩, ?_, hasPath,
    sound.sameContents (sound_filled other read) toList_eq rfl rfl, sameBytes other⟩
  rw [ofConfig_eq, hasPath]
  dsimp only
  rw [found, opened, read]

/-- Filling a table leaves the files alone. -/
theorem files_load
    (master : MasterTable Value)
    (bytes : Bytes)
    (host : Host) :
    (master.load bytes host).2.files = host.files := by
  rw [load]
  cases readSnapshot master.format bytes with
  | error cause =>
      rfl
  | ok contents =>
      dsimp only
      cases master.table.loadUnique contents.tree <;> rfl

/-- Opening a table leaves the files alone. -/
theorem files_ofConfig
    (config : MasterTableConfig)
    (codec : Codec Value)
    (host : Host) :
    (ofConfig config codec host).2.files = host.files := by
  obtain ⟨name, path?⟩ := config
  cases path? with
  | none =>
      rfl
  | some path =>
      obtain ⟨ready, started, files_eq⟩ := ofConfig_started name path codec host
      rw [started]
      refine Eq.trans ?_ files_eq
      cases host.files.read path with
      | ok bytes =>
          exact files_load _ bytes ready
      | error kind =>
          cases kind <;> rfl

/-! ## Saving -/

/-- A table that is not encoded changes nothing. -/
theorem sync_of_encode_eq_error
    (hasPath : master.path? = some path)
    {cause : IndexError}
    (fails : master.encode = .error cause)
    (host : Host) :
    master.sync host = (.error cause, host) := by
  rw [sync, hasPath]
  dsimp only
  rw [fails]
  rfl

/-- A table that is encoded is saved exactly if its file is replaced. -/
theorem sync_of_encode_eq_ok
    (hasPath : master.path? = some path)
    (encoded : master.encode = .ok bytes)
    (host : Host) :
    ∃ answer,
      host.files.replace path (temporaryPath path) bytes = (answer, (master.sync host).2.files) ∧
        ((master.sync host).1 = .ok () ↔ answer = .ok ()) := by
  have replaceFile_eq :
      Host.replaceFile path (temporaryPath path) bytes host =
        ((host.files.replace path (temporaryPath path) bytes).1,
          { host with files := (host.files.replace path (temporaryPath path) bytes).2 }) :=
    rfl
  rw [sync, hasPath]
  dsimp only
  rw [encoded]
  simp only [bind, StateT.bind, replaceFile_eq]
  rcases host.files.replace path (temporaryPath path) bytes with ⟨kind | ⟨⟩, written⟩
  · exact ⟨_, rfl, iff_of_false nofun nofun⟩
  · exact ⟨_, rfl, iff_of_true rfl rfl⟩

/-- A table with a path is saved exactly if it is encoded and its file is replaced. -/
theorem sync_eq_ok_iff
    (hasPath : master.path? = some path)
    {host : Host}
    {after : FileSystem} :
    (master.sync host).1 = .ok () ∧ (master.sync host).2.files = after ↔
      ∃ bytes,
        master.encode = .ok bytes ∧
          host.files.replace path (temporaryPath path) bytes = (.ok (), after) := by
  cases encoded : master.encode with
  | error cause =>
      rw [sync_of_encode_eq_error hasPath encoded]
      refine iff_of_false nofun ?_
      rintro ⟨bytes, impossible, -⟩
      cases impossible
  | ok bytes =>
      obtain ⟨answer, replacing, synced_iff⟩ := sync_of_encode_eq_ok hasPath encoded host
      simp only [Except.ok.injEq, exists_eq_left']
      rw [synced_iff, replacing, Prod.mk.injEq]

/-- Under a plain name, saving fails only over entries and over files in the way. -/
theorem sync_of_plainName
    {name : String}
    (hasPath : master.path? = some name)
    (encoded : master.encode = .ok bytes)
    {host : Host}
    (plain : FileSystem.PlainName name)
    (plainTemporary : FileSystem.PlainName (temporaryPath name))
    (calm : host.files.mishap = none)
    (source_free :
      host.files.node? (Place.workingDirectory.child (temporaryPath name)) ≠ some .directory)
    (target_free : host.files.node? (Place.workingDirectory.child name) ≠ some .directory) :
    (master.sync host).1 = .ok () :=
  ((sync_eq_ok_iff hasPath).mpr ⟨bytes, encoded,
    FileSystem.replace_eq_ok_iff_replaceable.mpr
      ⟨_, _, plain.replaceable plainTemporary calm source_free target_free, rfl⟩⟩).1

/-- What is saved is found under the path. -/
theorem read_of_sync
    (hasPath : master.path? = some path)
    (encoded : master.encode = .ok bytes)
    {host : Host}
    (synced : (master.sync host).1 = .ok ()) :
    (master.sync host).2.files.read path = .ok bytes := by
  obtain ⟨written, writes, replaced⟩ := (sync_eq_ok_iff hasPath).mp ⟨synced, rfl⟩
  cases encoded.symm.trans writes
  exact (FileSystem.read_of_replace replaced).1

/-- Where a table was saved, any table that is encoded can be saved under the same path. -/
theorem sync_again
    (hasPath : master.path? = some path)
    {host ready : Host}
    (synced : (master.sync host).1 = .ok ())
    (files_eq : ready.files = (master.sync host).2.files)
    {other : MasterTable Value}
    (otherPath : other.path? = some path)
    (encoded : other.encode = .ok bytes) :
    (other.sync ready).1 = .ok () := by
  obtain ⟨written, -, replaced⟩ := (sync_eq_ok_iff hasPath).mp ⟨synced, rfl⟩
  obtain ⟨later, replacedAgain⟩ := (FileSystem.read_of_replace replaced).2 bytes
  rw [← files_eq] at replacedAgain
  exact ((sync_eq_ok_iff otherPath).mpr ⟨bytes, encoded, replacedAgain⟩).1

/--
Some bytes are what a table was saved as under a path, and a table that is opened
on them holds what was saved.
-/
structure Restores
    (codec : Codec Value)
    (master : MasterTable Value)
    (path : String)
    (saved : Host)
    (bytes : Bytes) :
    Prop where
  found : saved.files.read path = .ok bytes
  /-- Wherever the bytes are found, a table opens that holds the same and is saved as them. -/
  reopens :
    ∀ {other elsewhere host},
      other.path? = some elsewhere →
      host.files.read elsewhere = .ok bytes →
      ∃ reopened,
        (ofConfig other codec host).1 = .ok reopened ∧
          SameContents master reopened ∧
            ∀ later,
              (reopened.sync later).1 = .ok () →
              (reopened.sync later).2.files.read elsewhere = .ok bytes
  /-- Where the table was saved, it is opened again, and saving that succeeds. -/
  again :
    ∀ {other},
      other.path? = some path →
      ∃ reopened ready,
        (ofConfig other codec saved).run = (.ok reopened, ready) ∧
          (reopened.sync ready).1 = .ok () ∧ (reopened.sync ready).2.files.read path = .ok bytes

/-- However a table was opened and whatever calls were made of it, what was saved restores it. -/
theorem Ran.restores
    {host before : Host}
    (opens : (ofConfig config codec host).1 = .ok start)
    (ran : Ran start history master)
    (hasPath : config.path? = some path)
    (roundTrips : ∀ entry ∈ master.table.toList, codec.RoundTripsAt entry.2)
    (synced : (master.sync before).1 = .ok ()) :
    ∃ bytes, Restores codec master path (master.sync before).2 bytes := by
  have sound := (sound_of_ofConfig opens).ran ran
  rw [← sound.path?_eq] at hasPath
  obtain ⟨bytes, encoded, -⟩ := (sync_eq_ok_iff hasPath).mp ⟨synced, rfl⟩
  have found := read_of_sync hasPath encoded synced
  refine ⟨bytes, found, ?_, ?_⟩
  · intro other elsewhere host otherPath otherFound
    obtain ⟨reopened, opensAgain, reopenedPath, same, sameBytes⟩ :=
      sound.reopens roundTrips encoded otherPath otherFound
    exact ⟨reopened, opensAgain, same, fun later => read_of_sync reopenedPath sameBytes⟩
  · intro other otherPath
    obtain ⟨reopened, opensAgain, reopenedPath, -, sameBytes⟩ :=
      sound.reopens roundTrips encoded otherPath found
    have syncedAgain :=
      sync_again hasPath synced (files_ofConfig other codec _) reopenedPath sameBytes
    exact ⟨reopened, _, Prod.ext opensAgain rfl, syncedAgain,
      read_of_sync reopenedPath sameBytes syncedAgain⟩

/-- A snapshot whose sequence is low and whose properties are out of order and repeat a name. -/
def scatteredSnapshot : Bytes :=
  Snapshot.encode
    ⟨3,
      [⟨Utf8.encode "b", Utf8.encode "1"⟩, ⟨Utf8.encode "a", Utf8.encode "2"⟩,
        ⟨Utf8.encode "b", Utf8.encode "3"⟩],
      TreeFormat.bytesUnder 0 [⟨noNode, noNode, 0, Bytes.ofUInt64 9, []⟩]⟩

/-- A host with that snapshot in its working directory. -/
def scatteredHost : Host :=
  ⟨.undescribed Backend.firstId .empty,
    FileSystem.empty.put (Place.workingDirectory.child "t") (.file scatteredSnapshot)⟩

/-- After `9` was loaded, `10` was handed out and `20` was stored, the table is saved. -/
theorem restores_scatteredHost :
    ∃ start history master bytes,
      (ofConfig ⟨"t", some "t"⟩ .unit scatteredHost).1 = .ok start ∧
        Ran start history master ∧
          master.table.toList = [(9, ()), (20, ())] ∧
            master.properties = [("a", "2"), ("b", "4")] ∧
              master.sequence = 20 ∧
                Restores .unit master "t" (master.sync scatteredHost).2 bytes := by
  have plain : FileSystem.PlainName "t" := by
    constructor <;> decide
  have plainTemporary : FileSystem.PlainName (temporaryPath "t") := by
    constructor <;> decide
  have read : scatteredHost.files.read "t" = .ok scatteredSnapshot :=
    FileSystem.read_eq_ok_iff.mpr ⟨_, plain.resolve_eq, rfl⟩
  have opens :
      (ofConfig ⟨"t", some "t"⟩ .unit scatteredHost).1 =
        opened ⟨"t", some "t"⟩ .unit (scatteredHost.files.read "t") :=
    ofConfig_eq _ _ _
  rw [read] at opens
  have ran (start : MasterTable Unit) :=
    (((@Ran.started Unit start).called .nextId scatteredHost).called (.put 20 ())
      scatteredHost).called (.setProperty "b" "4") scatteredHost
  have calm : scatteredHost.files.mishap = none := rfl
  have sourceFree :
      scatteredHost.files.node? (Place.workingDirectory.child (temporaryPath "t")) ≠
        some .directory := by
    decide
  have targetFree :
      scatteredHost.files.node? (Place.workingDirectory.child "t") ≠ some .directory := by
    decide
  obtain ⟨bytes, restores⟩ :=
    (ran _).restores opens rfl (fun entry _ => Codec.exact_unit.roundTrips entry.2)
      (sync_of_plainName rfl rfl plain plainTemporary calm sourceFree targetFree)
  exact ⟨_, _, _, bytes, opens, ran _, rfl, rfl, rfl, restores⟩

end MasterTable

end OrderedIndex

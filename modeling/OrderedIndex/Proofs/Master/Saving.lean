import OrderedIndex.Proofs.Master.Damage

namespace OrderedIndex

/-!
# Saving that fails

The temporary file stands beside the snapshot file: its path goes the same way
and ends in another name.  Every step before the last writes nothing but the
temporary file, and the last one fails without a change, so whatever step fails,
the snapshot file is what it was.
-/

/-! ## Paths beside each other -/

namespace Place

variable {place : Place}

theorem child_ne_self (place : Place) (name : String) : place.child name ≠ place := by
  intro same
  have longer := congrArg (List.length ∘ names) same
  simp [child] at longer

theorem child_ne_parent (place : Place) (name : String) : place.child name ≠ place.parent := by
  intro same
  have longer := congrArg (List.length ∘ names) same
  obtain ⟨base, names⟩ := place
  cases names with
  | nil =>
      cases base <;> simp [child, parent, top] at longer
  | cons first rest =>
      simp [child, parent] at longer
      omega

theorem child_injective
    {first second : String}
    (same : place.child first = place.child second) :
    first = second := by
  have names := congrArg names same
  simpa [child] using names

end Place

namespace FileSystem

variable {files other : FileSystem} {place source : Place} {path temporary : String}
  {content : Bytes}

/-- Beside a path that is not empty another one ends in a longer name. -/
theorem exists_pathNames_eq (path : String) :
    ∃ front last,
      pathNames path = front ++ [last] ∧
        pathNames (MasterTable.temporaryPath path) = front ++ [last ++ ".mut"] := by
  obtain ⟨front, back, -, split⟩ := exists_splitOn_eq '/' path.toList
  refine ⟨front.map String.ofList, String.ofList back, ?_, ?_⟩
  · have plain := split [] (by simp)
    rw [List.append_nil, List.append_nil] at plain
    rw [pathNames, plain, List.map_append, List.map_singleton]
  · have longer := split ".mut".toList (by decide)
    rw [pathNames, MasterTable.temporaryPath, String.toList_append, longer, List.map_append,
      List.map_singleton, String.ofList_append, String.ofList_toList]

/-- The directory that a name leads to which others follow. -/
def enter (files : FileSystem) (place : Place) (name : String) : Except IoKind Place :=
  if staysInPlace name then .ok place
  else if name = ".." then .ok place.parent
  else if maxNameSize < name.utf8ByteSize then .error .invalidFilename
  else
    match files.node? (place.child name) with
    | some .directory => .ok (place.child name)
    | some (.file _) => .error .notADirectory
    | none => .error .notFound

theorem follow_cons
    {name : String}
    {rest : List String}
    (goesOn : rest ≠ []) :
    files.follow place (name :: rest) =
      files.enter place name >>= fun next => files.follow next rest := by
  rw [follow, enter, if_neg (mt List.isEmpty_iff.mp goesOn)]
  split
  next =>
    rfl
  next =>
    split
    next =>
      rfl
    next =>
      split
      next =>
        rfl
      next =>
        rcases files.node? (place.child name) with _ | _ | _ <;> rfl

/-- Where names lead that end in a longer name, they lead elsewhere without the ending. -/
theorem follow_beside
    {front : List String}
    {last : String}
    (leads : files.follow place (front ++ [last ++ ".mut"]) = .ok source) :
    ∃ target, files.follow place (front ++ [last]) = .ok target ∧ target ≠ source := by
  induction front generalizing place with
  | cons name rest inductionHypothesis =>
      rw [List.cons_append, follow_cons (by simp)] at leads ⊢
      obtain ⟨next, enters, leads⟩ := bind_eq_ok_iff.mp leads
      rw [enters]
      exact inductionHypothesis leads
  | nil =>
      have isLonger (name : String) (short : name.length < 4) : last ++ ".mut" ≠ name := by
        rintro rfl
        rw [String.length_append] at short
        exact Nat.not_lt_of_le (Nat.le_add_left _ _) short
      have moves : ¬ staysInPlace (last ++ ".mut") = true := by
        simp [staysInPlace, isLonger "" (by decide), isLonger "." (by decide)]
      rw [List.nil_append, follow] at leads ⊢
      rw [if_neg moves, if_neg (isLonger ".." (by decide))] at leads
      split at leads
      next =>
        contradiction
      next short =>
        cases Except.ok.inj leads
        split
        next =>
          exact ⟨place, rfl, (place.child_ne_self _).symm⟩
        next =>
          split
          next =>
            exact ⟨place.parent, rfl, (place.child_ne_parent _).symm⟩
          next =>
            rw [if_neg (by rw [String.utf8ByteSize_append] at short; omega)]
            refine ⟨place.child last, rfl, fun same => ?_⟩
            have lengths := congrArg String.length (Place.child_injective same)
            simp at lengths

/-- Where a temporary path leads, the path beside it leads elsewhere, if it is one. -/
theorem resolve_beside
    (nonempty : path ≠ "")
    (leads : files.resolve (MasterTable.temporaryPath path) = .ok source) :
    ∃ target, files.resolve path = .ok target ∧ target ≠ source := by
  obtain ⟨front, last, names_eq, temporaryNames_eq⟩ := exists_pathNames_eq path
  have startsWith_eq : (MasterTable.temporaryPath path).startsWith "/" = path.startsWith "/" := by
    rw [Bool.eq_iff_iff, startsWith_slash_iff, startsWith_slash_iff, MasterTable.temporaryPath,
      String.toList_append]
    cases letters : path.toList with
    | nil =>
        exact (nonempty (String.toList_inj.mp letters)).elim
    | cons first rest =>
        simp [List.cons_prefix_cons]
  rw [resolve, locate, temporaryNames_eq, startsWith_eq] at leads
  rw [resolve, locate, names_eq]
  split at leads
  next =>
    contradiction
  next unterminated =>
    split at leads
    next =>
      contradiction
    next =>
      split at leads
      next =>
        contradiction
      next short =>
        rw [MasterTable.temporaryPath, String.toList_append] at unterminated
        rw [MasterTable.temporaryPath, String.utf8ByteSize_append] at short
        rw [if_neg (by simpa using unterminated), if_neg (by simpa using nonempty),
          if_neg (by omega)]
        exact follow_beside leads

/-! ## Steps before the last -/

/-- A file system that differs from another one in no directory and at most in one file. -/
structure Scratched (source : Place) (files after : FileSystem) : Prop where
  sameDirectories : files.SameDirectories after
  elsewhere : ∀ place, place ≠ source → after.node? place = files.node? place

namespace Scratched

variable {after later : FileSystem}

theorem refl (source : Place) (files : FileSystem) : Scratched source files files :=
  ⟨fun _ => Iff.rfl, fun _ _ => rfl⟩

theorem trans
    (scratched : Scratched source files after)
    (again : Scratched source after later) :
    Scratched source files later where
  sameDirectories := scratched.sameDirectories.trans again.sameDirectories
  elsewhere place isOther :=
    (again.elsewhere place isOther).trans (scratched.elsewhere place isOther)

/-- Writing a file changes it alone. -/
theorem of_write
    (leads : files.resolve temporary = .ok source)
    (writes : files.write temporary content = .ok after) :
    Scratched source files after := by
  obtain ⟨place, isPlace, free, rfl⟩ := write_eq_ok_iff.mp writes
  cases leads.symm.trans isPlace
  refine ⟨.put_file free content, fun other isOther => ?_⟩
  rw [node?_put (names_ne_nil free), if_neg isOther]

/-- Other files are read as before. -/
theorem read_eq
    (scratched : Scratched source files after)
    {target : Place}
    (leads : files.resolve path = .ok target)
    (isOther : target ≠ source) :
    after.read path = files.read path := by
  rw [read, read, leads, scratched.sameDirectories.resolve leads, ok_bind, ok_bind,
    scratched.elsewhere target isOther]

end Scratched

theorem eq_of_attempt_eq_error
    {step : FileStep}
    {change : FileSystem → Except IoKind FileSystem}
    {kind : IoKind}
    {after : FileSystem}
    (fails : files.attempt step change = (.error kind, after)) :
    after = files := by
  unfold attempt at fails
  split at fails
  next =>
    exact (congrArg Prod.snd fails).symm
  next =>
    split at fails
    next =>
      cases congrArg Prod.fst fails
    next =>
      exact (congrArg Prod.snd fails).symm

theorem followed_eq_error_iff
    {first : Except IoKind Unit × FileSystem}
    {second : FileSystem → Except IoKind Unit × FileSystem}
    {kind : IoKind}
    {after : FileSystem} :
    followed first second = (.error kind, after) ↔
      first = (.error kind, after) ∨
        ∃ middle, first = (.ok (), middle) ∧ second middle = (.error kind, after) := by
  obtain ⟨cause | ⟨⟩, middle⟩ := first
  · simp [followed]
  · simp [followed]

/-- Whether all of the content is written or some or none of it, one file is changed. -/
theorem scratched_of_writeContent
    (leads : files.resolve temporary = .ok source)
    {answer : Except IoKind Unit}
    {after : FileSystem}
    (written : files.writeContent temporary content = (answer, after)) :
    Scratched source files after := by
  have wroteOrKept : (∃ part, files.write temporary part = .ok after) ∨ after = files := by
    unfold writeContent attempt at written
    split at written <;> grind
  obtain ⟨part, wrote⟩ | rfl := wroteOrKept
  · exact .of_write leads wrote
  · exact .refl source after

/-- Until a file is replaced, only the temporary one is changed. -/
theorem scratched_of_replace_eq_error
    {kind : IoKind}
    {after : FileSystem}
    (fails : files.replace path temporary content = (.error kind, after)) :
    after = files ∨
      ∃ source, files.resolve temporary = .ok source ∧ Scratched source files after := by
  rw [replace_eq_followed] at fails
  rcases followed_eq_error_iff.mp fails with notCreated | ⟨created, creates, fails⟩
  · exact .inl (eq_of_attempt_eq_error notCreated)
  obtain ⟨-, emptied⟩ := attempt_eq_ok_iff.mp creates
  obtain ⟨source, leads, -, -⟩ := write_eq_ok_iff.mp emptied
  have scratched := Scratched.of_write leads emptied
  have leadsOn := scratched.sameDirectories.resolve leads
  refine .inr ⟨source, leads, scratched.trans ?_⟩
  rcases followed_eq_error_iff.mp fails with notWritten | ⟨written, writes, fails⟩
  · exact scratched_of_writeContent leadsOn notWritten
  have scratchedAgain := scratched_of_writeContent leadsOn writes
  rcases followed_eq_error_iff.mp fails with notFlushed | ⟨flushed, flushes, fails⟩
  · exact eq_of_attempt_eq_error notFlushed ▸ scratchedAgain
  · obtain ⟨-, same⟩ := attempt_eq_ok_iff.mp flushes
    cases same
    exact eq_of_attempt_eq_error fails ▸ scratchedAgain

/-- A file that could not be replaced is as it was. -/
theorem read_of_replace_eq_error
    {kind : IoKind}
    {after : FileSystem}
    (fails :
      files.replace path (MasterTable.temporaryPath path) content = (.error kind, after)) :
    after.read path = files.read path := by
  rcases scratched_of_replace_eq_error fails with rfl | ⟨source, leads, scratched⟩
  · rfl
  · by_cases empty : path = ""
    · rw [empty]
      rfl
    · obtain ⟨target, isTarget, isOther⟩ := resolve_beside empty leads
      exact scratched.read_eq isTarget isOther

/-! ## After the last step -/

/-- A temporary file that replaced the file beside it is gone. -/
theorem read_temporary_of_replace
    {after : FileSystem}
    (replaced : files.replace path (MasterTable.temporaryPath path) content = (.ok (), after)) :
    after.read (MasterTable.temporaryPath path) = .error .notFound := by
  obtain ⟨source, target, replaceable, rfl⟩ := replace_eq_ok_iff_replaceable.mp replaced
  have nonempty : path ≠ "" := by
    rintro rfl
    cases replaceable.named
  obtain ⟨beside, isBeside, isOther⟩ := resolve_beside nonempty replaceable.source_eq
  cases isBeside.symm.trans replaceable.target_eq
  have same := (replaceable.sameDirectories content).2
  have gone : (files.moved source target content).node? source = none := by
    rw [moved, node?_put (names_ne_nil replaceable.target_free), if_neg isOther.symm,
      node?_erase (names_ne_nil replaceable.source_free), if_pos rfl]
  rw [read, same.resolve replaceable.source_eq, ok_bind, gone]

/-- Replacing a file changes that file and the temporary one, and no other. -/
theorem node?_of_replace
    {answer : Except IoKind Unit}
    {after : FileSystem}
    (replaced : files.replace path temporary content = (answer, after))
    (notPath : files.resolve path ≠ .ok place)
    (notTemporary : files.resolve temporary ≠ .ok place) :
    after.node? place = files.node? place := by
  cases answer with
  | error kind =>
      rcases scratched_of_replace_eq_error replaced with rfl | ⟨source, leads, scratched⟩
      · rfl
      · refine scratched.elsewhere place ?_
        rintro rfl
        exact notTemporary leads
  | ok =>
      obtain ⟨source, target, replaceable, rfl⟩ := replace_eq_ok_iff_replaceable.mp replaced
      have notSource : place ≠ source := by
        rintro rfl
        exact notTemporary replaceable.source_eq
      have notTarget : place ≠ target := by
        rintro rfl
        exact notPath replaceable.target_eq
      have sourceNamed := names_ne_nil replaceable.source_free
      rw [moved, node?_put (names_ne_nil replaceable.target_free), if_neg notTarget,
        node?_erase sourceNamed, if_neg notSource, node?_put sourceNamed, if_neg notSource,
        node?_put sourceNamed, if_neg notSource]

end FileSystem

namespace MasterTable

variable
  {Value : Type}
  {config : MasterTableConfig}
  {codec : Codec Value}
  {master : MasterTable Value}
  {path : String}
  {bytes : Bytes}
  {host : Host}

/-! ## Saving -/

/-- The values of all entries of a table are encoded if the table is. -/
theorem Sound.values_encoded
    (sound : Sound config codec master)
    (encoded : master.encode = .ok bytes)
    {entry : UInt64 × Value}
    (member : entry ∈ master.table.toList) :
    ∃ stored, codec.encode entry.2 = .ok stored := by
  obtain ⟨tree, entries, order_eq, treeSound, toList_eq⟩ := sound.tree
  obtain ⟨nodes, represents⟩ := treeSound.represents
  obtain ⟨properties, stored, -, -, treeEncoded, -, -⟩ := (encode_eq_ok_iff entries).mp encoded
  obtain ⟨-, records, -, written, -⟩ :=
    (TreeFormat.encode_eq_ok_iff represents.valid).mp treeEncoded
  rw [toList_eq] at member
  rw [sound.format_eq] at written
  have each : ∀ pair ∈ tree.toList, ∃ stored, codec.encode pair.2 = .ok stored :=
    forall_mem_of_forall₂ written.flip fun _ _ writes => ⟨_, writes.2.1⟩
  exact each entry member

/-- Saving keeps the snapshot file or replaces it, and leaves all else alone. -/
structure KeepsOrReplaces (master : MasterTable Value) (path : String) (host : Host) : Prop where
  kept :
    ∀ {cause},
      (master.sync host).1 = .error cause →
      (master.sync host).2.files.read path = host.files.read path
  untouched :
    ∀ {cause},
      master.encode = .error cause →
      master.sync host = (.error cause, host)
  /-- One entry that is not encoded is enough. -/
  untouched_of_entry :
    ∀ {config codec entry},
      Sound config codec master →
      entry ∈ master.table.toList →
      (∀ stored, codec.encode entry.2 ≠ .ok stored) →
      ∃ cause, master.sync host = (.error cause, host)
  replaced :
    (master.sync host).1 = .ok () →
    ∃ tree entries bytes,
      master.table.entries = .unique tree ∧
        master.format.encode tree = .ok entries ∧
          Snapshot.Spelled bytes master.sequence master.properties entries ∧
            (master.sync host).2.files.read path = .ok bytes ∧
              (master.sync host).2.files.read (temporaryPath path) = .error .notFound
  elsewhere :
    ∀ {place},
      host.files.resolve path ≠ .ok place →
      host.files.resolve (temporaryPath path) ≠ .ok place →
      (master.sync host).2.files.node? place = host.files.node? place

/-- Wherever saving fails, the snapshot file is what it was before. -/
theorem keepsOrReplaces
    (hasPath : master.path? = some path)
    (host : Host) :
    KeepsOrReplaces master path host where
  kept := by
    intro cause failed
    cases encoded : master.encode with
    | error other =>
        rw [sync_of_encode_eq_error hasPath encoded]
    | ok bytes =>
        obtain ⟨answer, replacing, synced_iff⟩ := sync_of_encode_eq_ok hasPath encoded host
        rw [failed] at synced_iff
        cases answer with
        | ok =>
            cases synced_iff.mpr rfl
        | error kind =>
            exact FileSystem.read_of_replace_eq_error replacing
  untouched fails := sync_of_encode_eq_error hasPath fails host
  untouched_of_entry := by
    intro config codec entry sound member unencoded
    cases encoded : master.encode with
    | error cause =>
        exact ⟨cause, sync_of_encode_eq_error hasPath encoded host⟩
    | ok bytes =>
        obtain ⟨stored, isStored⟩ := sound.values_encoded encoded member
        exact (unencoded stored isStored).elim
  replaced := by
    intro synced
    obtain ⟨bytes, encoded, replaced⟩ := (sync_eq_ok_iff hasPath).mp ⟨synced, rfl⟩
    obtain ⟨tree, entries, isTree, treeEncoded, spelled⟩ := spelled_of_encode encoded
    exact ⟨tree, entries, bytes, isTree, treeEncoded, spelled,
      read_of_sync hasPath encoded synced, FileSystem.read_temporary_of_replace replaced⟩
  elsewhere := by
    intro place notPath notTemporary
    cases encoded : master.encode with
    | error cause =>
        rw [sync_of_encode_eq_error hasPath encoded]
    | ok bytes =>
        obtain ⟨answer, replacing, -⟩ := sync_of_encode_eq_ok hasPath encoded host
        exact FileSystem.node?_of_replace replacing notPath notTemporary

/-- A host with a snapshot whose disk is full once two more bytes are written. -/
def fullHost : Host :=
  { scatteredHost with
    files := { scatteredHost.files with mishap := some ⟨.write, .storageFull, 2⟩ } }

/-- Saving an empty table leaves two bytes of it beside the snapshot, which is as before. -/
theorem keepsOrReplaces_fullHost :
    ∃ failed,
      ((blank ⟨"t", some "t"⟩ Codec.unit).sync fullHost).2.files = failed ∧
        ((blank ⟨"t", some "t"⟩ Codec.unit).sync fullHost).1 = .error (.io .storageFull) ∧
          failed.read (temporaryPath "t") = .ok (Snapshot.magic.take 2) ∧
            failed.read "t" = .ok scatteredSnapshot := by
  have plain : FileSystem.PlainName "t" := by
    constructor <;> decide
  have read : fullHost.files.read "t" = .ok scatteredSnapshot :=
    FileSystem.read_eq_ok_iff.mpr ⟨_, plain.resolve_eq, rfl⟩
  have failed :
      ((blank ⟨"t", some "t"⟩ Codec.unit).sync fullHost).1 = .error (.io .storageFull) := by
    decide +kernel
  have started :
      ((blank ⟨"t", some "t"⟩ Codec.unit).sync fullHost).2.files.read (temporaryPath "t") =
        .ok (Snapshot.magic.take 2) := by
    decide +kernel
  have keeps : KeepsOrReplaces (blank ⟨"t", some "t"⟩ Codec.unit) "t" fullHost :=
    keepsOrReplaces rfl fullHost
  exact ⟨_, rfl, failed, started, (keeps.kept failed).trans read⟩

end MasterTable

end OrderedIndex

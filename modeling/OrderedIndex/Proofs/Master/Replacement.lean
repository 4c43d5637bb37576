import OrderedIndex.Master.FileSystem
import OrderedIndex.Proofs.Computation

namespace OrderedIndex.FileSystem

/-!
# Replaced files

Where a path leads depends on which places are directories, and replacing a file
changes no directory.  So a file that was replaced is found under its path, and
it can be replaced again.
-/

variable {files other : FileSystem} {place : Place} {path temporary : String} {content : Bytes}

/-! ## What is at a place -/

/-- What is not a directory has a name. -/
theorem names_ne_nil (free : files.node? place ≠ some .directory) : place.names ≠ [] := by
  intro isBase
  rw [node?, isBase] at free
  exact free rfl

/-- Without the entries of one place, every other place leads to what it led to. -/
theorem lookup_filter_ne
    (nodes : List (Place × FileNode))
    (place found : Place) :
    (nodes.filter fun entry => entry.1 != place).lookup found =
      if found = place then none else nodes.lookup found := by
  induction nodes with
  | nil =>
      simp
  | cons first rest inductionHypothesis =>
      obtain ⟨other, node⟩ := first
      by_cases isPlace : other = place
      · rw [List.filter_cons_of_neg (by simp [isPlace]), inductionHypothesis, List.lookup_cons,
          isPlace]
        by_cases isFound : found = place
        · rw [if_pos isFound, if_pos isFound]
        · rw [if_neg isFound, if_neg isFound, beq_false_of_ne isFound]
      · rw [List.filter_cons_of_pos (by simp [isPlace]), List.lookup_cons, List.lookup_cons,
          inductionHypothesis]
        by_cases isFound : found = place
        · have elsewhere : found ≠ other := by
            rw [isFound]
            exact Ne.symm isPlace
          rw [if_pos isFound, if_pos isFound, beq_false_of_ne elsewhere]
        · rw [if_neg isFound, if_neg isFound]

/-- A node is put in its place and nowhere else. -/
theorem node?_put
    (named : place.names ≠ [])
    (node : FileNode)
    (found : Place) :
    (files.put place node).node? found =
      if found = place then some node else files.node? found := by
  by_cases isFound : found = place
  · rw [if_pos isFound, isFound, node?, if_neg (by simpa using named), put,
      List.lookup_cons_self]
  · rw [if_neg isFound, node?, node?, put, List.lookup_cons, beq_false_of_ne isFound]
    dsimp only
    rw [lookup_filter_ne, if_neg isFound]

/-- A node is taken from its place and from nowhere else. -/
theorem node?_erase
    (named : place.names ≠ [])
    (found : Place) :
    (files.erase place).node? found = if found = place then none else files.node? found := by
  rw [node?, node?, erase, lookup_filter_ne]
  by_cases isFound : found = place
  · rw [if_pos isFound, if_pos isFound, isFound, if_neg (by simpa using named)]
  · rw [if_neg isFound, if_neg isFound]

/-! ## Where paths lead -/

/-- The same places are directories. -/
def SameDirectories (files other : FileSystem) : Prop :=
  ∀ place, files.node? place = some .directory ↔ other.node? place = some .directory

namespace SameDirectories

/-- What has the directories of another has them the other way around too. -/
theorem symm (same : files.SameDirectories other) : other.SameDirectories files :=
  fun place => (same place).symm

/-- What has the directories of a third over a second has them. -/
theorem trans
    {third : FileSystem}
    (same : files.SameDirectories other)
    (sameAgain : other.SameDirectories third) :
    files.SameDirectories third :=
  fun place => (same place).trans (sameAgain place)

/-- Writing a file where no directory is keeps the directories. -/
theorem put_file
    (free : files.node? place ≠ some .directory)
    (content : Bytes) :
    files.SameDirectories (files.put place (.file content)) := by
  intro found
  rw [node?_put (names_ne_nil free)]
  split
  next isPlace =>
    rw [isPlace]
    exact iff_of_false free (by simp)
  next =>
    exact Iff.rfl

/-- Erasing what is no directory keeps the directories. -/
theorem erase (free : files.node? place ≠ some .directory) :
    files.SameDirectories (files.erase place) := by
  intro found
  rw [node?_erase (names_ne_nil free)]
  split
  next isPlace =>
    rw [isPlace]
    exact iff_of_false free (by simp)
  next =>
    exact Iff.rfl

/-- A place without a directory has none in files with the same directories either. -/
theorem free
    (same : files.SameDirectories other)
    (free : files.node? place ≠ some .directory) :
    other.node? place ≠ some .directory :=
  mt (same place).mpr free

/-- Names lead to the same place. -/
theorem follow
    (same : files.SameDirectories other)
    {names : List String}
    {target : Place}
    (leads : files.follow place names = .ok target) :
    other.follow place names = .ok target := by
  induction names generalizing place with
  | nil =>
      exact leads
  | cons name rest inductionHypothesis =>
      unfold FileSystem.follow at leads ⊢
      split at leads
      next stays =>
        rw [if_pos stays]
        exact inductionHypothesis leads
      next moves =>
        rw [if_neg moves]
        split at leads
        next isUp =>
          rw [if_pos isUp]
          exact inductionHypothesis leads
        next notUp =>
          rw [if_neg notUp]
          split at leads
          next =>
            contradiction
          next short =>
            rw [if_neg short]
            dsimp only at leads ⊢
            split at leads
            next isLast =>
              rw [if_pos isLast]
              exact leads
            next notLast =>
              rw [if_neg notLast]
              split at leads
              next isDirectory =>
                rw [(same _).mp isDirectory]
                exact inductionHypothesis leads
              next =>
                contradiction
              next =>
                contradiction

/-- A path leads to the same place in files with the same directories. -/
theorem locate
    (same : files.SameDirectories other)
    {names : List String}
    {target : Place}
    (leads : files.locate path names = .ok target) :
    other.locate path names = .ok target := by
  unfold FileSystem.locate at leads ⊢
  split at leads
  · contradiction
  · split at leads
    · contradiction
    · split at leads
      · contradiction
      · rename_i plain nonempty short
        rw [if_neg plain, if_neg nonempty, if_neg short]
        exact same.follow leads

/-- A whole path leads to the same place in files with the same directories. -/
theorem resolve
    (same : files.SameDirectories other)
    {target : Place}
    (leads : files.resolve path = .ok target) :
    other.resolve path = .ok target :=
  same.locate leads

end SameDirectories

/--
What is behind the last separator is the last part, and the only one that an
ending without separators changes.
-/
theorem exists_splitOn_eq
    {Element : Type}
    [BEq Element]
    [LawfulBEq Element]
    (separator : Element)
    (elements : List Element) :
    ∃ front back,
      (back = elements ∨ separator :: back <:+ elements) ∧
        ∀ ending,
          separator ∉ ending →
          (elements ++ ending).splitOn separator = front ++ [back ++ ending] := by
  by_cases separated : separator ∈ elements
  · obtain ⟨back, front, reverse_eq, notInBack⟩ :=
      List.eq_append_cons_of_mem (List.mem_reverse.mpr separated)
    have elements_eq : elements = front.reverse ++ separator :: back.reverse := by
      rw [← List.reverse_reverse elements, reverse_eq]
      simp
    refine ⟨front.reverse.splitOn separator, back.reverse, .inr ⟨_, elements_eq.symm⟩, ?_⟩
    intro ending notInEnding
    have unseparated : separator ∉ back.reverse ++ ending := by
      simp [notInBack, notInEnding]
    rw [elements_eq, List.append_assoc, List.cons_append, List.splitOn_append_cons_self,
      List.splitOn_eq_singleton unseparated]
  · refine ⟨[], elements, .inl rfl, fun ending notInEnding => ?_⟩
    exact List.splitOn_eq_singleton (by simp [separated, notInEnding])

/-- What is split at a separator ends in an empty part only if it ends in the separator. -/
theorem getLast?_splitOn_ne
    {Element : Type}
    [BEq Element]
    [LawfulBEq Element]
    {separator : Element}
    {elements : List Element}
    (nonempty : elements ≠ [])
    (endsOtherwise : ¬ [separator] <:+ elements) :
    (elements.splitOn separator).getLast? ≠ some [] := by
  obtain ⟨front, back, isLast, split⟩ := exists_splitOn_eq separator elements
  have parts := split [] List.not_mem_nil
  rw [List.append_nil, List.append_nil] at parts
  rw [parts, List.getLast?_concat]
  intro isEmpty
  rw [Option.some.inj isEmpty] at isLast
  rcases isLast with noElements | ends
  · exact nonempty noElements.symm
  · exact endsOtherwise ends

theorem startsWith_slash_iff : path.startsWith "/" = true ↔ ['/'] <+: path.toList := by
  rw [String.startsWith_eq_startsWith_toSlice, String.Slice.startsWith_string_iff,
    String.copy_toSlice]
  exact Iff.rfl

theorem endsWith_slash_iff : path.endsWith "/" = true ↔ ['/'] <:+ path.toList := by
  rw [String.endsWith_eq_endsWith_toSlice, String.Slice.endsWith_string_iff, String.copy_toSlice]
  exact Iff.rfl

/-- The last name of a path that does not end in a slash is not empty. -/
theorem getLast?_pathNames_ne
    (nonempty : path ≠ "")
    (unslashed : path.endsWith "/" = false) :
    (pathNames path).getLast? ≠ some "" := by
  intro isEmpty
  rw [pathNames, List.getLast?_map] at isEmpty
  obtain ⟨part, last, part_eq⟩ := Option.map_eq_some_iff.mp isEmpty
  rw [String.ofList_eq_empty_iff.mp part_eq] at last
  refine getLast?_splitOn_ne ?_ ?_ last
  · intro noLetters
    exact nonempty (String.toList_inj.mp noLetters)
  · intro endsInSlash
    rw [endsWith_slash_iff.mpr endsInSlash] at unslashed
    contradiction

/-- Only slashes at its end let a path lead elsewhere as a directory. -/
theorem resolveDirectory_eq (unslashed : path.endsWith "/" = false) :
    files.resolveDirectory path = files.resolve path := by
  by_cases empty : path = ""
  · rw [empty]
    rfl
  · have last := getLast?_pathNames_ne empty unslashed
    rw [resolveDirectory, resolve]
    refine congrArg _ ?_
    rcases List.eq_nil_or_concat (pathNames path) with noNames | ⟨front, name, names_eq⟩
    · rw [noNames]
      rfl
    · rw [names_eq, List.concat_eq_append] at last ⊢
      rw [List.getLast?_concat] at last
      have named : name ≠ "" := mt (congrArg some) last
      rw [List.reverse_concat, List.dropWhile_cons_of_neg (by simpa using named),
        ← List.reverse_concat, List.reverse_reverse]

/-! ## Reading and writing -/

/-- A path is read if it leads to a file, and its content is what is read. -/
theorem read_eq_ok_iff :
    files.read path = .ok content ↔
      ∃ place, files.resolve path = .ok place ∧ files.node? place = some (.file content) := by
  rw [read, bind_eq_ok_iff]
  refine exists_congr fun place => and_congr_right fun _ => ?_
  split
  next stored found =>
    simp [found, pure, Except.pure]
  next isDirectory =>
    simp [isDirectory]
  next absent =>
    simp [absent]

/-- A path is written if it leads to a place without a directory, which then has the content. -/
theorem write_eq_ok_iff
    {changed : FileSystem} :
    files.write path content = .ok changed ↔
      ∃ place,
        files.resolve path = .ok place ∧
          files.node? place ≠ some .directory ∧ files.put place (.file content) = changed := by
  rw [write, bind_eq_ok_iff]
  refine exists_congr fun place => and_congr_right fun _ => ?_
  split
  next isDirectory =>
    simp [isDirectory]
  next free =>
    have notDirectory : files.node? place ≠ some .directory := free
    simp [notDirectory, pure, Except.pure]

/-- A file takes another path if there is one and the other path can be that of a file. -/
theorem rename_eq_ok_iff
    {source target : String}
    {changed : FileSystem} :
    files.rename source target = .ok changed ↔
      ∃ origin destination content,
        files.resolve source = .ok origin ∧
          files.resolveDirectory target = .ok destination ∧
            files.node? origin = some (.file content) ∧
              endsInName target = true ∧
                target.endsWith "/" = false ∧
                  files.node? destination ≠ some .directory ∧
                    (files.erase origin).put destination (.file content) = changed := by
  simp only [rename, bind_eq_ok_iff]
  constructor
  · rintro ⟨origin, isOrigin, destination, isDestination, renamed⟩
    split at renamed
    next content found =>
      split at renamed
      next =>
        contradiction
      next named =>
        split at renamed
        next =>
          contradiction
        next unslashed =>
          split at renamed
          next =>
            contradiction
          next free =>
            exact ⟨origin, destination, content, isOrigin, isDestination, found,
              by simpa using named, by simpa using unslashed, free, Except.ok.inj renamed⟩
    next =>
      contradiction
    next =>
      contradiction
  · rintro ⟨origin, destination, content, isOrigin, isDestination, found, named, unslashed, free,
      rfl⟩
    refine ⟨origin, isOrigin, destination, isDestination, ?_⟩
    rw [found, named, unslashed]
    dsimp only
    rw [if_neg (by decide), if_neg (by decide)]
    split
    next isDirectory =>
      contradiction
    next =>
      rfl

/-! ## Replacing -/

/-- A step succeeds if no failure was planned for it and what it does succeeds. -/
theorem attempt_eq_ok_iff
    {step : FileStep}
    {change : FileSystem → Except IoKind FileSystem}
    {changed : FileSystem} :
    files.attempt step change = (.ok (), changed) ↔
      files.planned? step = none ∧ change files = .ok changed := by
  unfold attempt
  cases files.planned? step with
  | some mishap =>
      simp
  | none =>
      cases change files <;> simp

/-- Writing succeeds if no failure was planned for it and the path can be written. -/
theorem writeContent_eq_ok_iff
    {changed : FileSystem} :
    files.writeContent path content = (.ok (), changed) ↔
      files.planned? .write = none ∧ files.write path content = .ok changed := by
  unfold writeContent
  cases planned : files.planned? .write with
  | some mishap =>
      dsimp only
      split <;> simp
  | none =>
      dsimp only
      rw [attempt_eq_ok_iff, planned]

/-- A step and then another, unless the first fails. -/
def followed
    (first : Except IoKind Unit × FileSystem)
    (second : FileSystem → Except IoKind Unit × FileSystem) :
    Except IoKind Unit × FileSystem :=
  match first with
  | (.error kind, after) => (.error kind, after)
  | (.ok (), middle) => second middle

/-- A replacement creates, writes, flushes and renames, each step if the last one succeeded. -/
theorem replace_eq_followed :
    files.replace path temporary content =
      followed (files.attempt .create fun current => current.write temporary []) fun created =>
        followed (created.writeContent temporary content) fun written =>
          followed (written.attempt .flush .ok) fun flushed =>
            flushed.attempt .rename fun current => current.rename temporary path :=
  rfl

/-- Two steps succeed together if the second one succeeds on what the first one left. -/
theorem followed_eq_ok_iff
    {first : Except IoKind Unit × FileSystem}
    {second : FileSystem → Except IoKind Unit × FileSystem}
    {after : FileSystem} :
    followed first second = (.ok (), after) ↔
      ∃ middle, first = (.ok (), middle) ∧ second middle = (.ok (), after) := by
  obtain ⟨cause | ⟨⟩, middle⟩ := first
  · simp [followed]
  · simp [followed]

/-- A file is replaced if all steps of it succeed. -/
theorem replace_eq_ok_iff
    {after : FileSystem} :
    files.replace path temporary content = (.ok (), after) ↔
      ∃ created written,
        (files.planned? .create = none ∧ files.write temporary [] = .ok created) ∧
          (created.planned? .write = none ∧ created.write temporary content = .ok written) ∧
            written.planned? .flush = none ∧
              written.planned? .rename = none ∧ written.rename temporary path = .ok after := by
  simp only [replace_eq_followed, followed_eq_ok_iff, attempt_eq_ok_iff, writeContent_eq_ok_iff]
  constructor
  · rintro ⟨created, creates, written, writes, flushed, ⟨flushes, same⟩, renames⟩
    cases same
    exact ⟨created, written, creates, writes, flushes, renames⟩
  · rintro ⟨created, written, creates, writes, flushes, renames⟩
    exact ⟨created, creates, written, writes, written, ⟨flushes, rfl⟩, renames⟩

/-- What it takes to replace a file: no step fails, and both paths are free for a file. -/
structure Replaceable
    (files : FileSystem)
    (path temporary : String)
    (source target : Place) :
    Prop where
  calm : files.mishap = none
  source_eq : files.resolve temporary = .ok source
  source_free : files.node? source ≠ some .directory
  target_eq : files.resolve path = .ok target
  named : endsInName path = true
  unslashed : path.endsWith "/" = false
  target_free : files.node? target ≠ some .directory

/-- The files with a content written to one place and moved to another. -/
def moved (files : FileSystem) (source target : Place) (content : Bytes) : FileSystem :=
  ((((files.put source (.file [])).put source (.file content)).erase source).put target
    (.file content))

/-- Every step can be planned to fail. -/
theorem mishap_eq_none (planned : ∀ step, files.planned? step = none) : files.mishap = none := by
  cases mishap : files.mishap with
  | none =>
      rfl
  | some planned? =>
      have fails := planned planned?.step
      rw [FileSystem.planned?, mishap] at fails
      simp at fails

/-- A calm file system has no failure planned for any step. -/
theorem planned?_eq_none
    (calm : files.mishap = none)
    (step : FileStep) :
    files.planned? step = none := by
  rw [planned?, calm]
  rfl

namespace Replaceable

variable {source target : Place}

/-- Writing the temporary file changes no directory, nor does moving it. -/
theorem sameDirectories
    (replaceable : Replaceable files path temporary source target)
    (content : Bytes) :
    files.SameDirectories ((files.put source (.file [])).put source (.file content)) ∧
      files.SameDirectories (files.moved source target content) := by
  have created := SameDirectories.put_file replaceable.source_free []
  have written :=
    created.trans (.put_file (created.free replaceable.source_free) content)
  have erased := written.trans (.erase (written.free replaceable.source_free))
  exact ⟨written, erased.trans (.put_file (erased.free replaceable.target_free) content)⟩

end Replaceable

/-- A file is replaced exactly if it can be. -/
theorem replace_eq_ok_iff_replaceable
    {after : FileSystem} :
    files.replace path temporary content = (.ok (), after) ↔
      ∃ source target,
        Replaceable files path temporary source target ∧
          files.moved source target content = after := by
  simp only [replace_eq_ok_iff, write_eq_ok_iff, rename_eq_ok_iff]
  constructor
  · rintro ⟨created, written, ⟨creates, source, source_eq, source_free, rfl⟩,
      ⟨writes, again, again_eq, again_free, rfl⟩, flushes, renames, origin, target, stored,
      origin_eq, target_eq, found, named, unslashed, target_free, rfl⟩
    -- The temporary path leads to the same place at every step.
    have created := SameDirectories.put_file source_free []
    cases (created.resolve source_eq).symm.trans again_eq
    have written := created.trans (.put_file again_free content)
    cases (written.resolve source_eq).symm.trans origin_eq
    rw [node?_put (names_ne_nil source_free), if_pos rfl] at found
    cases found
    rw [resolveDirectory_eq unslashed] at target_eq
    have calm : files.mishap = none := by
      refine mishap_eq_none fun step => ?_
      cases step with
      | create => exact creates
      | write => exact writes
      | flush => exact flushes
      | rename => exact renames
    exact ⟨source, target, ⟨calm, source_eq, source_free, written.symm.resolve target_eq, named,
      unslashed, written.symm.free target_free⟩, rfl⟩
  · rintro ⟨source, target, replaceable, rfl⟩
    have created := SameDirectories.put_file replaceable.source_free []
    have written := (replaceable.sameDirectories content).1
    have planned := planned?_eq_none replaceable.calm
    have source_eq := replaceable.source_eq
    refine
      ⟨_, _, ⟨planned _, source, source_eq, replaceable.source_free, rfl⟩,
        ⟨planned _, source, created.resolve source_eq, created.free replaceable.source_free, rfl⟩,
        planned _, planned _, source, target, content, written.resolve source_eq, ?_, ?_,
        replaceable.named, replaceable.unslashed, written.free replaceable.target_free, rfl⟩
    · rw [resolveDirectory_eq replaceable.unslashed]
      exact written.resolve replaceable.target_eq
    · rw [node?_put (names_ne_nil replaceable.source_free), if_pos rfl]

/-- A replaced file is found under its path, and can be replaced again with any content. -/
theorem read_of_replace
    {after : FileSystem}
    (replaced : files.replace path temporary content = (.ok (), after)) :
    after.read path = .ok content ∧
      ∀ next, ∃ later, after.replace path temporary next = (.ok (), later) := by
  obtain ⟨source, target, replaceable, rfl⟩ := replace_eq_ok_iff_replaceable.mp replaced
  have same := (replaceable.sameDirectories content).2
  constructor
  · have found :
        (files.moved source target content).node? target = some (.file content) := by
      rw [moved, node?_put (names_ne_nil replaceable.target_free), if_pos rfl]
    exact read_eq_ok_iff.mpr ⟨target, same.resolve replaceable.target_eq, found⟩
  · intro next
    have again : (files.moved source target content).Replaceable path temporary source target := {
      calm := replaceable.calm
      source_eq := same.resolve replaceable.source_eq
      source_free := same.free replaceable.source_free
      target_eq := same.resolve replaceable.target_eq
      named := replaceable.named
      unslashed := replaceable.unslashed
      target_free := same.free replaceable.target_free }
    exact ⟨_, replace_eq_ok_iff_replaceable.mpr ⟨source, target, again, rfl⟩⟩

/-! ## Plain names -/

/-- A path that is a name in the working directory. -/
structure PlainName (name : String) : Prop where
  nonempty : name ≠ ""
  unseparated : '/' ∉ name.toList
  unterminated : '\x00' ∉ name.toList
  notDot : name ≠ "."
  notDots : name ≠ ".."
  short : name.utf8ByteSize ≤ maxNameSize

namespace PlainName

variable {name : String}

/-- A plain name is the only name of its path. -/
theorem pathNames_eq (plain : PlainName name) : pathNames name = [name] := by
  rw [pathNames, List.splitOn_eq_singleton plain.unseparated, List.map_singleton,
    String.ofList_toList]

theorem startsWith_eq (plain : PlainName name) : name.startsWith "/" = false := by
  rw [← Bool.not_eq_true, startsWith_slash_iff]
  exact fun begins => plain.unseparated (begins.subset (List.mem_singleton_self _))

theorem endsWith_eq (plain : PlainName name) : name.endsWith "/" = false := by
  rw [← Bool.not_eq_true, endsWith_slash_iff]
  exact fun ends => plain.unseparated (ends.subset (List.mem_singleton_self _))

/-- A plain name ends in a name. -/
theorem endsInName_eq (plain : PlainName name) : endsInName name = true := by
  rw [endsInName, plain.pathNames_eq]
  simp [plain.nonempty, plain.notDot, plain.notDots]

/-- A plain name leads to its place in the working directory, whatever is there. -/
theorem resolve_eq (plain : PlainName name) :
    files.resolve name = .ok (Place.workingDirectory.child name) := by
  have moves : staysInPlace name = false := by
    simp [staysInPlace, plain.nonempty, plain.notDot]
  have short := plain.short
  have pathShort : ¬ maxPathSize < name.utf8ByteSize :=
    Nat.not_lt_of_le (Nat.le_trans short (by decide))
  rw [resolve, plain.pathNames_eq, locate, follow, moves, plain.startsWith_eq,
    if_neg (by simpa using plain.unterminated), if_neg (by simpa using plain.nonempty),
    if_neg pathShort]
  simp only [Bool.false_eq_true, if_false, if_neg plain.notDots, if_neg (Nat.not_lt_of_le short)]
  rfl

/-- Where no step fails, a plain name can be replaced by way of another one. -/
theorem replaceable
    (plain : PlainName name)
    (plainTemporary : PlainName temporary)
    (calm : files.mishap = none)
    (source_free :
      files.node? (Place.workingDirectory.child temporary) ≠ some .directory)
    (target_free : files.node? (Place.workingDirectory.child name) ≠ some .directory) :
    files.Replaceable name temporary (Place.workingDirectory.child temporary)
      (Place.workingDirectory.child name) where
  calm := calm
  source_eq := plainTemporary.resolve_eq
  source_free := source_free
  target_eq := plain.resolve_eq
  named := plain.endsInName_eq
  unslashed := plain.endsWith_eq
  target_free := target_free

end PlainName

end OrderedIndex.FileSystem

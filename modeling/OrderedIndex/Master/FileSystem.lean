import OrderedIndex.Error
import OrderedIndex.Bytes.Basic
import OrderedIndex.Order

namespace OrderedIndex

/-!
# A working directory

The files and directories in and around one working directory, as values.  A
file is replaced by writing a temporary file in full and renaming it; any of the steps
may be planned to fail, and writing may fail in the middle.
-/

/-- What a name in a directory stands for. -/
inductive FileNode where
  | file (content : Bytes)
  | directory
  deriving Repr, DecidableEq

/-- The steps of replacing a file. -/
inductive FileStep where
  /-- Create the temporary file, or empty the one that is there. -/
  | create
  /-- Write the content. -/
  | write
  /-- Bring the content to the disk. -/
  | flush
  /-- Give the temporary file its final name. -/
  | rename
  deriving Repr, DecidableEq

/-- A planned failure of one step. -/
structure Mishap where
  step : FileStep
  kind : IoKind
  /-- Number of bytes that a failing write still writes. -/
  written : Nat
  deriving Repr, DecidableEq

/-- The directory that the names of a place start from. -/
inductive Base where
  /-- The working directory, or the directory so many levels above it. -/
  | working (above : Nat)
  /-- The topmost directory. -/
  | top
  deriving Repr, DecidableEq

/-- The place of a file or directory: the names that lead to it from a directory. -/
structure Place where
  base : Base
  names : List String
  deriving Repr, DecidableEq

namespace Place

/-- The working directory. -/
def workingDirectory : Place := ⟨.working 0, []⟩

/-- The topmost directory. -/
def top : Place := ⟨.top, []⟩

/-- The place of a name in a directory. -/
def child (place : Place) (name : String) : Place :=
  { place with names := place.names ++ [name] }

/-- The directory that a place is in; the topmost one is in itself. -/
def parent (place : Place) : Place :=
  match place.names, place.base with
  | [], .working above => ⟨.working (above + 1), []⟩
  | [], .top => top
  | names, base => ⟨base, names.dropLast⟩

end Place

/-- The files and directories that were made in and around a working directory. -/
structure FileSystem where
  /-- Every file and directory by its place, apart from the directories that places start from. -/
  nodes : List (Place × FileNode)
  /-- The step that is planned to fail, if there is one. -/
  mishap : Option Mishap
  deriving Repr, DecidableEq

namespace FileSystem

/-- A working directory without files. -/
def empty : FileSystem := ⟨[], none⟩

/-- What is at a place. -/
def node? (files : FileSystem) (place : Place) : Option FileNode :=
  if place.names.isEmpty then some .directory else files.nodes.lookup place

/-- Put a file or directory at a place. -/
def put (files : FileSystem) (place : Place) (node : FileNode) : FileSystem :=
  { files with nodes := (place, node) :: files.nodes.filter fun other => other.1 != place }

/-- Leave nothing at a place. -/
def erase (files : FileSystem) (place : Place) : FileSystem :=
  { files with nodes := files.nodes.filter fun other => other.1 != place }

/-! ## Paths -/

/-- The most bytes that a name may have. -/
def maxNameSize : Nat := 255

/-- The most bytes that a path may have. -/
def maxPathSize : Nat := 4095

/-- The names of a path, in order; slashes that meet or stand at an end leave empty names. -/
def pathNames (path : String) : List String :=
  (path.toList.splitOn '/').map String.ofList

/-- Whether a name leads from a directory to itself. -/
def staysInPlace (name : String) : Bool := name = "" || name = "."

/--
Follow names from a directory.  All but the last have to lead to directories;
an empty name and a single dot stay where they are, and two dots go up.
-/
def follow (files : FileSystem) (place : Place) : List String → Except IoKind Place
  | [] => .ok place
  | name :: rest =>
      if staysInPlace name then files.follow place rest
      else if name = ".." then files.follow place.parent rest
      else if maxNameSize < name.utf8ByteSize then .error .invalidFilename
      else
        let child := place.child name
        if rest.isEmpty then .ok child
        else
          match files.node? child with
          | some .directory => files.follow child rest
          | some (.file _) => .error .notADirectory
          | none => .error .notFound

/-- The place that the names of a path lead to; a leading slash starts at the top. -/
def locate (files : FileSystem) (path : String) (names : List String) :
    Except IoKind Place :=
  if path.toList.contains '\x00' then .error .invalidInput
  else if path.isEmpty then .error .notFound
  else if maxPathSize < path.utf8ByteSize then .error .invalidFilename
  else files.follow (if path.startsWith "/" then .top else .workingDirectory) names

/-- The place that a path names; slashes at its end ask for a directory. -/
def resolve (files : FileSystem) (path : String) : Except IoKind Place :=
  files.locate path (pathNames path)

/-- The place that a path names for a directory, which slashes at its end do not change. -/
def resolveDirectory (files : FileSystem) (path : String) : Except IoKind Place :=
  files.locate path ((pathNames path).reverse.dropWhile (· = "")).reverse

/-- Whether a path ends in a name of its own, and not in a dot, two dots or the top. -/
def endsInName (path : String) : Bool :=
  match (pathNames path).reverse.find? (· ≠ "") with
  | some name => name ≠ "." && name ≠ ".."
  | none => false

/-! ## Reading -/

/-- The content of the file that a path names. -/
def read (files : FileSystem) (path : String) : Except IoKind Bytes := do
  match files.node? (← files.resolve path) with
  | some (.file content) => return content
  | some .directory => .error .isADirectory
  | none => .error .notFound

/-- The names in the working directory, in order. -/
def names (files : FileSystem) : List String :=
  let found := files.nodes.filterMap fun (place, _) =>
    match place with
    | ⟨.working 0, [name]⟩ => some name
    | _ => none
  found.mergeSort fun first second => compare first second != .gt

/-! ## Changing -/

/-- Write a file in one go. -/
def write (files : FileSystem) (path : String) (content : Bytes) :
    Except IoKind FileSystem := do
  let place ← files.resolve path
  match files.node? place with
  | some .directory => .error .isADirectory
  | _ => return files.put place (.file content)

/-- Remove a file. -/
def remove (files : FileSystem) (path : String) : Except IoKind FileSystem := do
  let place ← files.resolve path
  match files.node? place with
  | some (.file _) => return files.erase place
  | some .directory => .error .isADirectory
  | none => .error .notFound

/-- Make a directory. -/
def makeDirectory (files : FileSystem) (path : String) : Except IoKind FileSystem := do
  let place ← files.resolveDirectory path
  match files.node? place with
  | some _ => .error .alreadyExists
  | none => return files.put place .directory

/-- Give a file another path, in place of the file that had it. -/
def rename (files : FileSystem) (source target : String) : Except IoKind FileSystem := do
  let sourcePlace ← files.resolve source
  let targetPlace ← files.resolveDirectory target
  match files.node? sourcePlace with
  | some (.file content) =>
      if !endsInName target then .error .resourceBusy
      else if target.endsWith "/" then .error .notADirectory
      else
        match files.node? targetPlace with
        | some .directory => .error .isADirectory
        | _ => return (files.erase sourcePlace).put targetPlace (.file content)
  | some .directory => .error .isADirectory
  | none => .error .notFound

/-! ## Replacing a file -/

/-- The planned failure of a step. -/
def planned? (files : FileSystem) (step : FileStep) : Option Mishap :=
  files.mishap.filter fun mishap => mishap.step = step

/-- Make a change unless its step is planned to fail. -/
def attempt
    (files : FileSystem)
    (step : FileStep)
    (change : FileSystem → Except IoKind FileSystem) :
    Except IoKind Unit × FileSystem :=
  match files.planned? step with
  | some mishap => (.error mishap.kind, files)
  | none =>
      match change files with
      | .ok changed => (.ok (), changed)
      | .error kind => (.error kind, files)

/-- Write the content of a file that was created; a failing write leaves a part of it. -/
def writeContent (files : FileSystem) (path : String) (content : Bytes) :
    Except IoKind Unit × FileSystem :=
  match files.planned? .write with
  | some mishap =>
      match files.write path (content.take mishap.written) with
      | .ok changed => (.error mishap.kind, changed)
      | .error kind => (.error kind, files)
  | none => files.attempt .write fun current => current.write path content

/--
Replace a file by way of a temporary one.  The steps are taken in order up to
the first that fails, and what was done before it stays.
-/
def replace (files : FileSystem) (path temporary : String) (content : Bytes) :
    Except IoKind Unit × FileSystem :=
  match files.attempt .create fun current => current.write temporary [] with
  | (.error kind, after) => (.error kind, after)
  | (.ok (), created) =>
      match created.writeContent temporary content with
      | (.error kind, after) => (.error kind, after)
      | (.ok (), written) =>
          match written.attempt .flush .ok with
          | (.error kind, after) => (.error kind, after)
          | (.ok (), flushed) =>
              flushed.attempt .rename fun current => current.rename temporary path

end FileSystem

end OrderedIndex

import ResourceCli.Failure.Basic
import ResourceCli.File.Path
import ResourceCli.Text.Utf8

/-!
# A disk

A disk is a tree of directories and files, given as the list of what stands where.  It answers the
file operations of a run, with the faults that an operating system has for a path that leads
nowhere, through a file, or to a directory.  A system may also refuse operations for reasons of its
own (`Disk.refuses`).
-/

namespace ResourceCli

open Text (Bytes)

/-- The file operations. -/
inductive FileOperation
  /-- Reading a file. -/
  | read
  /-- Writing a file. -/
  | write
  /-- Making a directory, with those that it lies in. -/
  | makeDirectories
  deriving DecidableEq, Repr

/-- What stands at a place of a disk. -/
inductive Entry
  /-- A file with its content. -/
  | file (content : Bytes)
  /-- A directory. -/
  | directory
  deriving DecidableEq, Repr, Inhabited

/-- A place on a disk: the names that lead there from the root. -/
abbrev Place := List String

/-- A disk. -/
structure Disk where
  /-- What stands where. -/
  entries : List (Place × Entry) := []
  /-- The directory in which relative paths start. -/
  home : Place := []
  /-- The operations that the system refuses. -/
  refuses : FileOperation → String → Option FileFault := fun _ _ => none
  deriving Inhabited

/-- There is nothing at the path. -/
def FileFault.missing : FileFault := ⟨.notFound, "No such file or directory (os error 2)"⟩

/-- The path leads through a file. -/
def FileFault.throughFile : FileFault := ⟨.other, "Not a directory (os error 20)"⟩

/-- There is a directory at the path. -/
def FileFault.isDirectory : FileFault := ⟨.other, "Is a directory (os error 21)"⟩

/-- There is a file where a directory is to be. -/
def FileFault.exists : FileFault := ⟨.other, "File exists (os error 17)"⟩

/-- A path holds the character that ends one. -/
def FileFault.endInside : FileFault :=
  ⟨.other, "file name contained an unexpected NUL byte"⟩

/-- The file holds bytes that are no text. -/
def FileFault.notText : FileFault := ⟨.other, "stream did not contain valid UTF-8"⟩

/-- A name in the path is too long. -/
def FileFault.tooLong : FileFault := ⟨.other, "File name too long (os error 36)"⟩

namespace Disk

/-- What stands at a place. -/
def lookup? (d : Disk) (place : Place) : Option Entry :=
  if place.isEmpty then some .directory else d.entries.lookup place

/-- The disk with something at a place. -/
def put (d : Disk) (place : Place) (entry : Entry) : Disk :=
  { d with entries := (place, entry) :: d.entries }

/-- What stands at a place is what was put there last. -/
theorem lookup?_put (d : Disk) (place other : Place) (entry : Entry) (h : other ≠ []) :
    (d.put place entry).lookup? other = if other = place then some entry else d.lookup? other := by
  cases other with
  | nil => exact absurd rfl h
  | cons name rest =>
    by_cases hp : name :: rest = place
    · subst hp; simp [put, lookup?]
    · have : (name :: rest == place) = false := by simpa using hp
      simp [put, lookup?, List.lookup_cons, hp, this]

/-- The files of the disk, each with its content. -/
def files (d : Disk) : List (Place × Bytes) :=
  (d.entries.map Prod.fst).eraseDups.filterMap fun place =>
    match d.lookup? place with
    | some (.file content) => some (place, content)
    | _ => none

/-- The names that a path goes through; one that ends with a slash goes on inside. -/
def steps (path : String) : List String :=
  let inside := path.toList.getLast? == some '/' || (Text.stripEnd "/." path).isSome
  Path.names path ++ if inside then ["."] else []

/-- The place to which names lead from a directory, each but the last one a directory. -/
def walk (d : Disk) (place : Place) : List String → Except FileFault Place
  | [] => .ok place
  | name :: rest =>
    if name == "." then walk d place rest
    else if name == ".." then walk d place.dropLast rest
    else if name.utf8ByteSize > 255 then .error .tooLong
    else if rest.isEmpty then .ok (place ++ [name])
    else
      match d.lookup? (place ++ [name]) with
      | some .directory => walk d (place ++ [name]) rest
      | some (.file _) => .error .throughFile
      | none => .error .missing

/-- The place to which a path leads. -/
def locate (d : Disk) (path : String) : Except FileFault Place :=
  if path == "" then .error .missing
  else if path.toList.contains '\x00' then .error .endInside
  else d.walk (if Path.isAbsolute path then [] else d.home) (steps path)

/-- What stands at a path, or why nothing does. -/
def find (d : Disk) (path : String) : Except FileFault Entry := do
  match d.lookup? (← d.locate path) with
  | some entry => return entry
  | none => throw .missing

/-- Whether something stands at a path. -/
def has (d : Disk) (path : String) : Bool := (d.find path).toOption.isSome

/-- Reads a file. -/
def read (d : Disk) (path : String) : Except FileFault Bytes :=
  match d.refuses .read path with
  | some fault => .error fault
  | none => do
    match ← d.find path with
    | .file content => return content
    | .directory => throw .isDirectory

/-- Reads a file that is a text. -/
def readText (d : Disk) (path : String) : Except FileFault String := do
  match Text.utf8Decode? (← d.read path) with
  | some text => return text
  | none => throw .notText

/-- The place at which a file can be written. -/
def writable (d : Disk) (path : String) : Except FileFault Place :=
  match d.refuses .write path with
  | some fault => .error fault
  | none => do
    let place ← d.locate path
    match d.lookup? place with
    | some .directory => throw .isDirectory
    | _ => return place

/-- Writes a file anew. -/
def write (d : Disk) (path : String) (content : Bytes) : Except FileFault Disk := do
  return d.put (← d.writable path) (.file content)

/-- Writes at the end of a file, which is made if there is none. -/
def append (d : Disk) (path : String) (content : Bytes) : Except FileFault Disk := do
  let place ← d.writable path
  let before := match d.lookup? place with
    | some (.file before) => before
    | _ => []
  return d.put place (.file (before ++ content))

/-- Makes the directories that names lead through. -/
def makeAlong (d : Disk) (place : Place) : List String → Except FileFault Disk
  | [] => .ok d
  | name :: rest =>
    if name == "." then makeAlong d place rest
    else if name == ".." then makeAlong d place.dropLast rest
    else
      match d.lookup? (place ++ [name]) with
      | some .directory => makeAlong d (place ++ [name]) rest
      | some (.file _) => .error (if rest.isEmpty then .exists else .throughFile)
      | none => makeAlong (d.put (place ++ [name]) .directory) (place ++ [name]) rest

/-- Makes a directory, with those that it lies in. -/
def makeDirectories (d : Disk) (path : String) : Except FileFault Disk :=
  match d.refuses .makeDirectories path with
  | some fault => .error fault
  | none => d.makeAlong (if Path.isAbsolute path then [] else d.home) (Path.names path)

end Disk

end ResourceCli

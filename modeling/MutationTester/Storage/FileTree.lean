import MutationTester.Storage.FileSystem

/-!
# File trees

A file tree is a file system in memory: what there is under the root, each thing with the names
that lead to it, and the directory that relative paths begin in. A directory is there if it is
listed, or if something is below it.

A path is followed part by part, and each part needs a directory to go on from. A path that
ends with a slash or a dot can only name a directory, so no file can be written there, whether
something is there or not; and a path that is too long leads nowhere.
-/

set_option autoImplicit false

namespace MutationTester

/-- A file that is no store: nothing can be read from it. -/
inductive Device
  /-- Whatever is written to it is gone. -/
  | null
  /-- Nothing more can be written to it. -/
  | full
  deriving DecidableEq

/-- What there is under the root, by the names that lead to it. -/
structure FileTree where
  files : List (List String × ByteArray) := []
  devices : List (List String × Device) := []
  directories : List (List String) := []
  /-- Directories that no file can be added to. -/
  closed : List (List String) := []
  /-- The directory that relative paths begin in. -/
  current : List String := []

namespace FileTree

/-- What names can lead to. -/
inductive Entry
  | file (bytes : ByteArray)
  | device (d : Device)
  | directory

/-- Whether names lead to a directory. -/
def isDirectory (t : FileTree) (names : List String) : Bool :=
  names.isPrefixOf t.current || t.directories.any names.isPrefixOf ||
    t.closed.any names.isPrefixOf || (t.devices.map Prod.fst).any names.isPrefixOf ||
    (t.files.map Prod.fst).any names.isPrefixOf

/-- What names lead to, if they lead anywhere. -/
def entry? (t : FileTree) (names : List String) : Option Entry :=
  match t.files.lookup names, t.devices.lookup names with
  | some bytes, _ => some (.file bytes)
  | none, some device => some (.device device)
  | none, none => if t.isDirectory names then some .directory else none

/-- The number of bytes that a name may have. -/
def maxNameSize : Nat := 255

/-- The number of bytes that a path may have, less the one that marks its end. -/
def maxPathSize : Nat := 4095

/-- Goes on by one part of a path. The root lies in itself. -/
def follow (t : FileTree) (names : List String) (part : String) : Except FileError (List String) :=
  match t.entry? names with
  | none => .error .notFound
  | some .directory =>
    if part = "" ∨ part = "." then .ok names
    else if part = ".." then .ok names.dropLast
    else if maxNameSize < part.utf8ByteSize then .error .nameTooLong
    else .ok (names ++ [part])
  | some _ => .error .notDirectory

/-- Where a path begins. The empty path begins nowhere. -/
def origin (t : FileTree) (p : Path) : Except FileError (List String) :=
  if p.toList.contains '\x00' then .error .invalidName
  else if p = "" then .error .notFound
  else if maxPathSize < p.utf8ByteSize then .error .nameTooLong
  else .ok (if p.isAbsolute then [] else t.current)

/-- Where the given parts of a path lead. -/
def locate (t : FileTree) (p : Path) (parts : List String) : Except FileError (List String) := do
  parts.foldlM t.follow (← t.origin p)

/-- The bytes of the file at a path. -/
def read (t : FileTree) (p : Path) : Except FileError ByteArray := do
  match t.entry? (← t.locate p p.parts) with
  | some (.file bytes) => .ok bytes
  | some (.device _) => .ok .empty
  | some .directory => .error .isDirectory
  | none => .error .notFound

/-- Gives a file new bytes, or adds it. -/
def put (t : FileTree) (names : List String) (bytes : ByteArray) : FileTree :=
  { t with files := (names, bytes) :: t.files.filter fun file => file.1 ≠ names }

/-- Writes the file that names lead to. -/
def writeAt (t : FileTree) (names : List String) (bytes : ByteArray) : Except FileError FileTree :=
  match t.entry? names with
  | some (.file _) => .ok (t.put names bytes)
  | some (.device .null) => .ok t
  | some (.device .full) => .error .noSpace
  | some .directory => .error .isDirectory
  | none => if t.closed.contains names.dropLast then .error .notFound else .ok (t.put names bytes)

/-- Whether a path can only name a directory, given its last part that is not empty. -/
def namesDirectory (p : Path) (last : String) : Bool :=
  last = "." || last = ".." || p.parts.getLast? = some ""

/-- Writes the file at a path. The directory that it lies in has to be there. -/
def write (t : FileTree) (p : Path) (bytes : ByteArray) : Except FileError FileTree := do
  match p.parts.reverse.dropWhile (· = "") with
  | [] =>
    let _ ← t.origin p
    .error .isDirectory
  | last :: before =>
    let directory ← t.follow (← t.locate p before.reverse) "."
    if namesDirectory p last then .error .isDirectory
    else t.writeAt (← t.follow directory last) bytes

/-- Where the parts of a path lead one after the other, if all that they need is there. -/
def stations (start : List String) : List String → List (List String)
  | [] => []
  | part :: parts =>
    let names :=
      if part = "" ∨ part = "." then start
      else if part = ".." then start.dropLast
      else start ++ [part]
    names :: stations names parts

/-- Adds a file at a path, and the directories that the path leads through. -/
def add (t : FileTree) (p : Path) (bytes : ByteArray) : FileTree :=
  let way := stations (if p.isAbsolute then [] else t.current) p.parts
  let t := { t with directories := way.dropLast ++ t.directories }
  t.put (way.getLastD t.current) bytes

/-- The tree as a file system, whose actions change it. -/
def fileSystem : FileSystem (StateM FileTree) where
  read p := do return (← get).read p
  write p bytes := do
    match (← get).write p bytes with
    | .ok t =>
      set t
      return .ok ()
    | .error e => return .error e

end FileTree

end MutationTester

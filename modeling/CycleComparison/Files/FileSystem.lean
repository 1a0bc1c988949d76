import CycleComparison.Files.Path

/-!
# File systems

A `FileSystem` has files and directories at locations, which are lists of names
from the root. A path starts at the root if it is absolute, else in the working
directory, and is followed name by name: every name but the last one must be that
of a directory, `..` leads to the parent, and the root is its own parent.

Writing creates a file or replaces its content, and leaves every other location
as it is.
-/

namespace CycleComparison

/-- What is at a location. -/
inductive Entry where
  | file (content : List UInt8)
  | directory
  deriving DecidableEq

/-- The names that lead from the root to a location. -/
abbrev Location := List String

/-- The entries at all locations but the root, which is a directory. -/
structure FileSystem where
  entries : List (Location × Entry)
  /-- The location where relative paths start. -/
  workingDirectory : Location

/-- Why a path cannot be used. -/
inductive FileError where
  | notFound
  | notDirectory
  | isDirectory
  | nameTooLong
  /-- The path holds the character with the code zero. -/
  | zeroCharacter
  deriving DecidableEq

namespace FileError

def message : FileError → String
  | .notFound => "No such file or directory (os error 2)"
  | .notDirectory => "Not a directory (os error 20)"
  | .isDirectory => "Is a directory (os error 21)"
  | .nameTooLong => "File name too long (os error 36)"
  | .zeroCharacter => "file name contained an unexpected NUL byte"

end FileError

namespace FileSystem

def lookup (fs : FileSystem) (location : Location) : Option Entry :=
  if location = [] then some .directory else fs.entries.lookup location

def set (fs : FileSystem) (location : Location) (entry : Entry) : FileSystem :=
  { fs with entries := (location, entry) :: fs.entries.filter fun e => e.1 != location }

def maxNameBytes : Nat := 255

def maxPathBytes : Nat := 4095

/-- Goes from a directory into the one of a name. -/
def enter (fs : FileSystem) (here : Location) (name : String) : Except FileError Location :=
  if name = "." then .ok here
  else if name = ".." then .ok here.dropLast
  else if maxNameBytes < name.utf8ByteSize then .error .nameTooLong
  else
    match fs.lookup (here ++ [name]) with
    | none => .error .notFound
    | some (.file _) => .error .notDirectory
    | some .directory => .ok (here ++ [name])

/-- What a path leads to. -/
inductive Target where
  /-- A directory that is known to exist. -/
  | directory
  /-- A name in a directory, after which a slash may ask for a directory. -/
  | name (location : Location) (asDirectory : Bool)

/-- Follows a path up to its last name. -/
def resolve (fs : FileSystem) (path : String) : Except FileError Target := do
  if path.toList.contains '\x00' then throw .zeroCharacter
  if path = "" then throw .notFound
  if maxPathBytes < path.utf8ByteSize then throw .nameTooLong
  let names := Path.names path
  let start := if Path.isAbsolute path then [] else fs.workingDirectory
  let here ← names.dropLast.foldlM fs.enter start
  match names.getLast? with
  | none => return .directory
  | some "." => return .directory
  | some ".." => return .directory
  | some last => return .name (here ++ [last]) (Path.endsWithSlash path)

/-- The location of a name, unless the name is too long. -/
def checkName (location : Location) : Except FileError Unit :=
  if location.any fun name => decide (maxNameBytes < name.utf8ByteSize) then
    .error .nameTooLong
  else .ok ()

def find (fs : FileSystem) (path : String) : Except FileError Entry := do
  match ← fs.resolve path with
  | .directory => return .directory
  | .name location asDirectory =>
      checkName location
      match fs.lookup location with
      | none => throw .notFound
      | some .directory => return .directory
      | some (.file content) =>
          if asDirectory then throw .notDirectory else return .file content

/-- Writes a file, which is created if it does not exist. -/
def write (fs : FileSystem) (path : String) (content : List UInt8) :
    Except FileError FileSystem := do
  match ← fs.resolve path with
  | .directory => throw .isDirectory
  | .name location asDirectory =>
      if asDirectory then throw .isDirectory
      checkName location
      match fs.lookup location with
      | some .directory => throw .isDirectory
      | _ => return fs.set location (.file content)

/-- Adds a directory and the directories on the way to it. -/
def addDirectory (fs : FileSystem) (location : Location) : FileSystem :=
  (List.range location.length).foldl
    (fun fs n => fs.set (location.take (n + 1)) .directory) fs

/-- A file system without files: a working directory and the directories on the
way to it. -/
def withWorkingDirectory (location : Location) : FileSystem :=
  addDirectory ⟨[], location⟩ location

/-- Adds a file and the directories on the way to it. -/
def addFile (fs : FileSystem) (location : Location) (content : List UInt8) : FileSystem :=
  (fs.addDirectory location.dropLast).set location (.file content)

end FileSystem

end CycleComparison

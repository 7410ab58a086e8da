import DscAudit.File.Path
import DscAudit.Text.Encoding

/-!
# Volumes

A volume holds the files and directories at absolute places.  A place is found by walking along a
path: every part before the last has to name a directory, also one that a double point leaves again.
-/

namespace DscAudit

open Text (Octets)

/-- What is at a place. -/
inductive Node where
  | directory
  | file (content : Octets)
  deriving DecidableEq

/-- The parts from the root of the volume on. -/
abbrev Place := List String

structure Volume where
  entries : List (Place × Node)

/-- Why a file cannot be reached or made. -/
inductive FileError where
  | notFound
  | present
  | notDirectory
  | isDirectory
  | nameTooLong
  deriving DecidableEq, Repr

def FileError.number : FileError → Nat
  | notFound => 2
  | present => 17
  | notDirectory => 20
  | isDirectory => 21
  | nameTooLong => 36

def FileError.message : FileError → String
  | notFound => "No such file or directory"
  | present => "File exists"
  | notDirectory => "Not a directory"
  | isDirectory => "Is a directory"
  | nameTooLong => "File name too long"

/-- The number of octets that the name of a file or directory may take up. -/
def nameLimit : Nat := 255

def isTooLong (name : String) : Bool := nameLimit < (Text.Utf8.encode name.toList).length

namespace Volume

/-- What is at a place.  The root is a directory. -/
def find? (volume : Volume) (place : Place) : Option Node :=
  if place.isEmpty then some .directory
  else (volume.entries.find? fun entry => entry.1 == place).map (·.2)

/-- Entries with a node at a place. -/
def putIn (place : Place) (node : Node) : List (Place × Node) → List (Place × Node)
  | [] => [(place, node)]
  | entry :: entries =>
    if entry.1 = place then (place, node) :: entries else entry :: putIn place node entries

/-- The volume with a node at a place. -/
def put (volume : Volume) (place : Place) (node : Node) : Volume := ⟨putIn place node volume.entries⟩

/-- The volume with directories at a place and on the way to it, where there is nothing yet. -/
def putDirectories (volume : Volume) (place : Place) : Volume :=
  (List.range place.length).foldl
    (fun volume n =>
      let directory := place.take (n + 1)
      if (volume.find? directory).isSome then volume else volume.put directory .directory)
    volume

/-- The place that a path leads to from a place, where the path need not exist but all that it passes
does.  A name is looked at only in a directory that is there. -/
def walk (volume : Volume) (place : Place) : List String → Except FileError Place
  | [] => .ok place
  | part :: parts =>
    match volume.find? place with
    | none => .error .notFound
    | some (.file _) => .error .notDirectory
    | some .directory =>
      if part = ".." then walk volume place.dropLast parts
      else if isTooLong part then .error .nameTooLong
      else walk volume (place ++ [part]) parts

/-- The place of a path, relative paths being followed from a directory. -/
def locate (volume : Volume) (directory path : Path) : Except FileError Place :=
  volume.walk [] (directory.join path).parts

/-- Does the path lead to a name that no file can have? -/
def refuses (volume : Volume) (directory path : Path) : Bool :=
  match volume.locate directory path with
  | .error .nameTooLong => true
  | _ => false

/-- What a path leads to. -/
def lookup (volume : Volume) (directory path : Path) : Except FileError (Place × Node) := do
  let place ← volume.locate directory path
  match volume.find? place with
  | some node => return (place, node)
  | none => throw .notFound

def isDirectory (volume : Volume) (directory path : Path) : Bool :=
  !path.hasNull &&
    match volume.lookup directory path with
    | .ok (_, .directory) => true
    | _ => false

def isFile (volume : Volume) (directory path : Path) : Bool :=
  !path.hasNull &&
    match volume.lookup directory path with
    | .ok (_, .file _) => true
    | _ => false

def isPresent (volume : Volume) (directory path : Path) : Bool :=
  !path.hasNull && (volume.lookup directory path).isOk

/-- The content of the file that a path leads to. -/
def read (volume : Volume) (directory path : Path) : Except FileError Octets := do
  match ← volume.lookup directory path with
  | (_, .file content) => return content
  | (_, .directory) => throw .isDirectory

/-- The places below a place, relative to it, and what is there. -/
def below (volume : Volume) (place : Place) : List (Place × Node) :=
  volume.entries.filterMap fun entry =>
    if place.isPrefixOf entry.1 && place.length < entry.1.length then
      some (entry.1.drop place.length, entry.2)
    else none

/-- The names in the directory at a place, and what they name. -/
def children (volume : Volume) (place : Place) : List (String × Node) :=
  (volume.below place).filterMap fun entry =>
    match entry.1 with
    | [name] => some (name, entry.2)
    | _ => none

/-- The volume with a directory at a place, unless something is there that is no directory. -/
def makeDirectory (volume : Volume) (place : Place) : Except FileError Volume :=
  match volume.find? place with
  | none => .ok (volume.put place .directory)
  | some _ => .error .present

/-- The volume with a content in the file that a path leads to, a new one if there is none. -/
def write (volume : Volume) (directory path : Path) (content : Octets) : Except FileError Volume := do
  let place ← volume.locate directory path
  match volume.find? place with
  | some .directory => throw .isDirectory
  | _ => return volume.put place (.file content)

end Volume

end DscAudit

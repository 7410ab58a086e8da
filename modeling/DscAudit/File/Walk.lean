import DscAudit.Host.Basic
import DscAudit.Text.LetterCase

/-!
# Finding files

The files below a directory, without those in excluded directories, in the order of their paths.
-/

namespace DscAudit.File

/-- The files below a directory that are not excluded, relative to it, in the order of the texts of
their paths. -/
def all (root : Path) (excluded : List String) : Action (List Path) := do
  let files := (← Action.below root).filterMap fun entry =>
    match entry.2 with
    | .file _ => if entry.1.isExcluded excluded then none else some entry.1
    | .directory => none
  return files.mergeSort fun a b => decide (a.toString ≤ b.toString)

/-- Is the suffix of a path one of the given ones, which are in lower case? -/
def hasSuffix (suffixes : List String) (path : Path) : Bool :=
  suffixes.contains (Text.lowerString path.suffix)

/-- The files with one of the suffixes, in any case. -/
def withSuffix (root : Path) (excluded suffixes : List String) : Action (List Path) := do
  let suffixes := suffixes.map Text.lowerString
  return (← all root excluded).filter (hasSuffix suffixes)

/-- The files whose suffixes or whole names are among the extensions, in any case. -/
def withExtension (root : Path) (excluded extensions : List String) : Action (List Path) := do
  let extensions := extensions.map Text.lowerString
  return (← all root excluded).filter fun path =>
    hasSuffix extensions path || extensions.contains (Text.lowerString path.name)

/-- The suffixes of scripts. -/
def scriptSuffixes : List String := [".ps1", ".psm1"]

/-- The scripts that a path stands for: those in a directory, or a single file, whatever its name. -/
def scriptsAt (excluded : List String) (path : Path) : Action (List Path) := do
  if ← Action.isDirectory path then
    let files := (← Action.below path).filterMap fun entry =>
      match entry.2 with
      | .file _ =>
        if hasSuffix scriptSuffixes entry.1 && !entry.1.isExcluded excluded then some entry.1 else none
      | .directory => none
    return (files.mergeSort Path.precedes).map path.join
  else if ← Action.isFile path then return [path]
  else return []

/-- The scripts that paths stand for. -/
def scripts (excluded : List String) (paths : List Path) : Action (List Path) := do
  return (← paths.mapM (scriptsAt excluded)).flatten

/-- The names of the files, or of the directories, in a directory, in order. -/
def namesIn (path : Path) (wanted : Node → Bool) : Action (List String) := do
  let entries := (← Action.children path).filter fun entry => wanted entry.2
  return (entries.map (·.1)).mergeSort fun a b => decide (a ≤ b)

def isFileNode : Node → Bool
  | .file _ => true
  | .directory => false

def isDirectoryNode : Node → Bool
  | .directory => true
  | .file _ => false

end DscAudit.File

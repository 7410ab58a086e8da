import DscAudit.DataFile.Document
import DscAudit.File.Walk
import DscAudit.Text.Encoding

/-!
# The manifest of a module

The manifest is the data file in the root directory of the module that has the name of the module, or
the only one there.
-/

namespace DscAudit.Manifest

/-- The suffix of a manifest. -/
def suffix : String := ".psd1"

/-- The names of data files in the root directory, in order. -/
def candidates (root : Path) : Action (List String) := do
  let names ← File.namesIn root File.isFileNode
  return names.filter fun name => Text.lowerString (Path.splitName name).2 == suffix

/-- The manifest among the candidates: the first one with the name of the module, or a single one. -/
def choose? (moduleName : String) (candidates : List String) : Option String :=
  let named := candidates.find? fun name =>
    Text.lowerString (Path.splitName name).1 == Text.lowerString moduleName
  named.or <|
    match candidates with
    | [name] => some name
    | _ => none

/-- What there is to know of a manifest. -/
inductive Content where
  | absent
  | unreadable (name reason : String)
  | entries (name : String) (table : Table)

/-- The content of the manifest with a name in the root directory. -/
def Content.ofFile (name : String) (octets : Text.Octets) : Content :=
  match Text.readTextFile? octets with
  | none => .unreadable name "manifest is not valid UTF-8: <utf-8>"
  | some text =>
    match DataFile.read text with
    | .ok table => .entries name table
    | .error fault => .unreadable name fault.message

/-- The content of the manifest of the module in a directory. -/
def Content.load (root : Path) : Action Content := do
  match choose? root.name (← candidates root) with
  | none => return .absent
  | some name => return .ofFile name (← Action.readFile (root.child name))

end DscAudit.Manifest

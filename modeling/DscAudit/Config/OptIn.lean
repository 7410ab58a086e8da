import DscAudit.Config.Basic
import DscAudit.Host.Basic
import DscAudit.Json.Reader
import DscAudit.Text.CharacterClass
import DscAudit.Text.Encoding
import DscAudit.Text.Sorted

/-!
# Opt-in

Some checks fail only for modules that opt in to them by name.  A module names them in its
configuration and in a file of its own, which holds a JSON array of strings.
-/

namespace DscAudit

open Text (Octets)

/-- The names that a module opts in to, sorted, each once. -/
structure OptIn where
  names : List String

namespace OptIn

/-- The name of the file with names. -/
def fileName : String := ".MetaTestOptIn.json"

/-- Names without blanks at their ends; empty ones do not count. -/
def ofNames (names : List String) : OptIn :=
  let trimmed := names.map fun name => String.ofList (Text.trim name.toList)
  ⟨Text.Sorted.ofList (trimmed.filter (· ≠ ""))⟩

def contains (optIn : OptIn) (name : String) : Bool := optIn.names.contains name

/-- The complaint that the file is refused. -/
def invalid (message : String) : Complaint := ⟨fileName ++ ": " ++ message, .config, "opt_in_invalid"⟩

/-- The texts of a list that holds nothing else. -/
def texts? : Value → Option (List String)
  | .list items => items.mapM fun item => match item with
    | .text s => some s
    | _ => none
  | _ => none

/-- The names in the content of a file. -/
def namesOf (content : Octets) : Except Complaint (List String) :=
  match Text.readTextFile? content with
  | none => .error (invalid "invalid JSON: <utf-8>")
  | some text =>
    match Json.read? text with
    | none => .error (invalid "invalid JSON: <json>")
    | some payload =>
      match texts? payload with
      | some names => .ok names
      | none => .error (invalid "must be a JSON array of strings")

/-- The names that the module in a directory opts in to. -/
def load (root : Path) (config : Config) : Action OptIn := do
  let path := root.child fileName
  if ← Action.isFile path then
    match namesOf (← Action.readFile path) with
    | .ok names => return ofNames (config.optIn ++ names)
    | .error complaint => throw (.complaint complaint)
  else return ofNames config.optIn

end OptIn

end DscAudit

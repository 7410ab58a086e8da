import DscAudit.Check.Basic

/-!
# Checks that scripts parse

PowerShell itself parses the modules and the scripts.
-/

namespace DscAudit.Check.Parsing

open DscAudit.Tool.Pwsh (SyntaxFault)

/-- Entries by the absolute paths that their paths lead to. -/
def byPath {α : Type} (entries : List (String × α)) : Action (Entries α) := do
  let resolved ← entries.mapM fun entry => do
    return ((← Action.resolve (Path.ofString entry.1)).toString, entry.2)
  return Entries.ofList resolved

/-- The outcome for files of a kind. -/
def parse (subject : Subject) (files : List Path) (kind : String) : Checking Outcome := do
  if files.isEmpty then return .skip ("no " ++ kind ++ " files")
  match ← Tool.Pwsh.find subject.config with
  | none => return .skip (Subject.notFound subject.config.powershell.executable)
  | some executable =>
    let found ← Tool.Pwsh.parse (subject.session executable) (files.map subject.path)
    let faults ← byPath found
    let violations ← files.mapM fun file => do
      let path ← Action.resolve (subject.path file)
      return ((faults.get? path.toString).getD []).map fun fault =>
        Violation.atPlace "PARSE_ERROR" fault.message file.toString fault.line fault.column
    return .found violations.flatten [("files", .int files.length)]

def modules (subject : Subject) : Checking Outcome := do
  let files ← File.withSuffix subject.root subject.config.excludedDirectories [".psm1"]
  parse subject files "module"

/-- Does a file lie in the directory with a name, or have that name itself? -/
def startsWith (name : String) (file : Path) : Bool :=
  file.parts.head?.any fun part => Text.lowerString part == Text.lowerString name

def scripts (subject : Subject) : Checking Outcome := do
  let files ← File.withSuffix subject.root subject.config.excludedDirectories [".ps1"]
  parse subject (files.filter fun file => !startsWith subject.config.examplesDirectory file) "script"

end DscAudit.Check.Parsing

import DscAudit.Check.Parsing

/-!
# The check that examples compile
-/

namespace DscAudit.Check.Examples

open DscAudit.Tool.Pwsh (Compilation)

/-- The directory of the examples. -/
def directory (subject : Subject) : Path :=
  subject.root.join (Path.ofString subject.config.examplesDirectory)

/-- The examples. -/
def files (subject : Subject) : Action (List Path) := do
  let directory := directory subject
  if ← Action.isDirectory directory then
    let files ← File.withSuffix directory subject.config.excludedDirectories [".ps1"]
    return files.map directory.join
  else return []

/-- The path of a file relative to the module, which it has to lie in. -/
def relative (subject : Subject) (file : Path) : Action Path :=
  match file.relativeTo? subject.root with
  | some path => return path
  | none => Action.defect (.notWithin file.toString subject.root.toString)

/-- The violation of an example that was compiled like this, or not at all. -/
def violation? (path : String) : Option Compilation → Option Violation
  | none => some (.ofFile "EXAMPLE_NOT_COMPILED" "example produced no compile result" path)
  | some compilation =>
    if compilation.passed then none
    else
      let message :=
        if compilation.error.isEmpty then "example failed to compile" else compilation.error
      some (.ofFile "EXAMPLE_COMPILE_FAILED" message path)

/-- The number of configurations that a compilation gave. -/
def configurations : Option Compilation → Nat
  | some compilation => if compilation.passed then compilation.configurations.length else 0
  | none => 0

def compile (subject : Subject) : Checking Outcome := do
  let files ← files subject
  if files.isEmpty then
    return .skip ("no examples under " ++ subject.config.examplesDirectory ++ "/")
  match ← Tool.Pwsh.find subject.config with
  | none => return .skip (Subject.notFound subject.config.powershell.executable)
  | some executable =>
    let found ← Tool.Pwsh.compile (subject.session executable) files (subject.evidence.child "examples")
    let compilations ← Parsing.byPath (found.map fun compilation => (compilation.path, compilation))
    let results ← files.mapM fun file => do
      let path ← relative subject file
      return (path.toString, compilations.get? (← Action.resolve file).toString)
    return .found (results.filterMap fun result => violation? result.1 result.2)
      [("examples", .int files.length),
       ("configurations", .int (results.foldl (fun total result => total + configurations result.2) 0))]

end DscAudit.Check.Examples

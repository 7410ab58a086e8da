import DscAudit.Check.Basic
import DscAudit.Config.Load
import DscAudit.Config.OptIn
import DscAudit.Json.Writer

/-!
# The context of a run

A run has an identifier, a module, a directory for the evidence that it writes, and the configuration
of the module.  What the command line does not say comes from the environment.  A run writes nothing
outside its directory for evidence, except what tools do.
-/

namespace DscAudit

inductive OutputFormat where
  | text
  | json
  deriving DecidableEq, Repr

namespace OutputFormat

def name : OutputFormat → String
  | text => "text"
  | json => "json"

/-- The format that is wanted: a command asks for JSON, or the program for a format; otherwise it
depends on whether the run is part of an automated build. -/
def choose (wantsJson : Bool) (wanted : Option OutputFormat) (isAutomated : Bool) : OutputFormat :=
  if wantsJson then json else wanted.getD (if isAutomated then json else text)

theorem choose_of_wantsJson (wanted : Option OutputFormat) (isAutomated : Bool) :
    choose true wanted isAutomated = json := rfl

end OutputFormat

/-- What is said of a run beforehand. -/
structure RunSettings where
  moduleRoot : Option String
  runId : Option String
  evidenceRoot : Option String
  format : OutputFormat
  verbose : Bool
  quiet : Bool
  logJson : Bool

structure RunContext where
  runId : String
  root : Path
  evidence : Path
  format : OutputFormat
  verbose : Bool
  quiet : Bool
  logJson : Bool
  config : Config
  optIn : OptIn

namespace RunContext

/-- Where a run writes unless it is told otherwise. -/
def defaultEvidence : String := "output/dscmeta"

/-- A text unless it is missing or empty. -/
def nonEmpty? (s : Option String) : Option String := s.filter fun s => !s.isEmpty

/-- The directory that a tilde stands for. -/
def home : Action Path := do
  match ← Action.environment? "HOME" with
  | none => Action.defect .noHome
  | some home =>
    let path := Path.ofString home
    return if path.root = .relative && path.parts.isEmpty then ⟨.slash, []⟩ else path

/-- The path with a tilde at its start replaced. -/
def expandHome (path : Path) : Action Path := do
  match path.root, path.parts with
  | .relative, "~" :: rest => do
    let home ← home
    return { home with parts := home.parts ++ rest }
  | .relative, first :: _ =>
    if first.toList.head? = some '~' then Action.defect .noHome else return path
  | _, _ => return path

/-- The root directory of the module: the one that is named, or that of the environment, or the
current directory. -/
def moduleRoot (named : Option String) : Action Path := do
  let fromEnvironment ← Action.environment? "DSCMETA_MODULE_ROOT"
  let path ← match (nonEmpty? named).or (nonEmpty? fromEnvironment) with
    | some raw => pure (Path.ofString raw)
    | none => pure (← get).directory
  let root ← Action.resolve (← expandHome path)
  if !(← Action.isDirectory root) then
    Action.fail ("module root does not exist: " ++ root.toString) .config "module_root_missing"
  return root

/-- The identifier of the run: the one that is named, or that of the environment, or one made of the
point in time. -/
def runIdentifier (named : Option String) : Action String := do
  match nonEmpty? named with
  | some id => return id
  | none =>
    let now := (← get).now
    return (← Action.environment? "DSCMETA_RUN_ID").getD ("dscmeta-" ++ now.compact)

/-- The directory for evidence, relative to the module unless its path is absolute. -/
def evidenceRoot (root : Path) (named : Option String) : Action Path := do
  let raw ← match nonEmpty? named with
    | some raw => pure raw
    | none => pure ((← Action.environment? "DSCMETA_EVIDENCE_ROOT").getD defaultEvidence)
  Action.resolve (root.join (Path.ofString raw))

/-- The context of a run. -/
def load (settings : RunSettings) : Action RunContext := do
  let root ← moduleRoot settings.moduleRoot
  let runId ← runIdentifier settings.runId
  let evidence ← evidenceRoot root settings.evidenceRoot
  let config ← Config.load root
  let optIn ← OptIn.load root config
  return ⟨runId, root, evidence, settings.format, settings.verbose, settings.quiet,
    settings.logJson, config, optIn⟩

def moduleName (context : RunContext) : String := context.root.name

def logSettings (context : RunContext) : LogSettings :=
  ⟨context.runId, context.verbose, context.quiet, context.logJson⟩

/-- The module as checks see it. -/
def subject (context : RunContext) : Subject :=
  ⟨context.root, context.config, context.evidence, some context.logSettings⟩

/-! ## Evidence -/

/-- The absolute path of a file that may be written, whose directory is made. -/
def evidencePath (context : RunContext) (path : Path) : Action Path := do
  let resolved ← Action.resolve (context.root.join path)
  let evidence ← Action.resolve context.evidence
  if resolved.isWithin evidence then
    Action.makeDirectory resolved.parent
    return resolved
  else
    Action.fail ("forbidden write path outside evidence root: " ++ resolved.toString) .validation
      "forbidden_write_path"

/-- Writes a value as indented JSON, and gives the absolute path of the file. -/
def writeJson (context : RunContext) (path : Path) (payload : Value) : Action Path := do
  let path ← evidencePath context path
  Action.writeFile path (Text.Utf8.encode (Json.write .indented payload ++ "\n").toList)
  return path

end RunContext

end DscAudit

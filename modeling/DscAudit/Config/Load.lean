import DscAudit.Config.Basic
import DscAudit.Host.Basic
import DscAudit.Host.Failure
import DscAudit.Shape.Basic
import DscAudit.Yaml.Construction

/-!
# Reading a configuration

A mapping configures what it names and leaves the rest as it is by default.  It is refused if it does
not have the shape of a configuration.
-/

namespace DscAudit.Config

/-- A text that starts with a point. -/
def startsWithPoint : Pattern where
  text := "^\\."
  occursIn s := s.head? == some '.'

/-- Is the text some digits, and `left` or fewer times a point and some digits?  A line feed may end
it.  The first flag tells whether the last character was a digit, the second whether a point has
come. -/
def isDottedNumber (afterDigit afterPoint : Bool) (left : Nat) : List Char → Bool
  | [] => afterDigit && afterPoint
  | ['\n'] => afterDigit && afterPoint
  | c :: rest =>
    if c.isDigit then isDottedNumber true afterPoint left rest
    else
      match left with
      | 0 => false
      | left + 1 => c == '.' && afterDigit && isDottedNumber false true left rest

/-- Two to four numbers with points between them. -/
def dottedNumber : Pattern where
  text := "^[0-9]+(\\.[0-9]+)\x7b1,3\x7d$"
  occursIn s := isDottedNumber false false 3 s

def someText : Shape := .ofKind .string [.nonEmpty]

def positive : Shape := .ofKind .integer [.atLeast 1]

/-- The shape of a configuration. -/
def shape : Shape :=
  .group
    [("exclude_dirs", .listOf someText),
     ("text_extensions", .listOf (.ofKind .string [.matching startsWithPoint])),
     ("opt_in", .listOf someText),
     ("powershell", .group [("executable", someText), ("timeout_seconds", positive)]),
     ("analyzer", .group
       [("required_rules", .listOf .anyText), ("flagged_rules", .listOf .anyText),
        ("ignore_rules", .listOf .anyText)]),
     ("manifest", .group
       [("min_powershell_version", .ofKind .string [.matching dottedNumber])]),
     ("paths", .group [("max_relative_length", positive)]),
     ("examples", .group [("directory", someText)]),
     ("markdown", .group [("npm", someText), ("timeout_seconds", positive)])]

/-- The name of the file that configures a module. -/
def fileName : String := ".dscmeta.yml"

def textOf : Datum → String
  | .text s => s
  | d => d.literal

def textsOf : Datum → List String
  | .list items => items.map textOf
  | _ => []

def numberOf : Datum → Number
  | .int n => .int n
  | .float x => .float x
  | _ => .int 0

/-- A setting read from a mapping, or what holds if the mapping does not have it. -/
def setting {α : Type} (payload : Datum) (read : Datum → α) (fallback : α) (key : String) : α :=
  ((payload.get? key).map read).getD fallback

/-- A setting in a section of a mapping. -/
def settingIn {α : Type} (payload : Datum) (read : Datum → α) (fallback : α) (part key : String) : α :=
  setting ((payload.get? part).getD .null) read fallback key

/-- The default configuration with the settings of a mapping, which has the right shape. -/
def merge (payload : Datum) (source : String) : Config where
  excludedDirectories := setting payload textsOf default.excludedDirectories "exclude_dirs"
  textExtensions := setting payload textsOf default.textExtensions "text_extensions"
  optIn := setting payload textsOf default.optIn "opt_in"
  powershell :=
    ⟨settingIn payload textOf default.powershell.executable "powershell" "executable",
     settingIn payload numberOf default.powershell.timeout "powershell" "timeout_seconds"⟩
  analyzer :=
    ⟨settingIn payload textsOf default.analyzer.requiredRules "analyzer" "required_rules",
     settingIn payload textsOf default.analyzer.flaggedRules "analyzer" "flagged_rules",
     settingIn payload textsOf default.analyzer.ignoredRules "analyzer" "ignore_rules"⟩
  minPowerShellVersion :=
    settingIn payload textOf default.minPowerShellVersion "manifest" "min_powershell_version"
  maxPathLength := settingIn payload numberOf default.maxPathLength "paths" "max_relative_length"
  examplesDirectory := settingIn payload textOf default.examplesDirectory "examples" "directory"
  markdown :=
    ⟨settingIn payload textOf default.markdown.npm "markdown" "npm",
     settingIn payload numberOf default.markdown.timeout "markdown" "timeout_seconds"⟩
  source := source

/-- The complaint that a configuration is refused. -/
def invalid (message : String) : Complaint := ⟨message, .config, "config_invalid"⟩

/-- The configuration of a mapping that comes from a source. -/
def ofDatum (payload : Datum) (source : String) : Except Complaint Config :=
  match Problem.worst? (shape.problems payload) with
  | none => .ok (merge payload source)
  | some problem =>
    let shown := if source.isEmpty then fileName else source
    .error (invalid (shown ++ ": schema validation failed at " ++ problem.place ++ ": " ++
      problem.message))

/-!
## The file

The file lies in the root directory of the module and is a YAML document.  A module without one, and
one whose document is empty, is configured by default.
-/

open Text (Octets)

/-- The configuration that the content of a file from a source writes. -/
def ofFile (content : Octets) (source : String) : Except Failure Config :=
  match Yaml.read shape.depth content with
  | .error .invalid => .error (.complaint (invalid (fileName ++ ": invalid YAML: <yaml>")))
  | .error (.defect defect) => .error (.defect defect)
  | .ok .null => .ok { default with source := source }
  | .ok payload =>
    if Kind.object.holds payload then
      match ofDatum payload source with
      | .ok config => .ok config
      | .error complaint => .error (.complaint complaint)
    else .error (.complaint (invalid (fileName ++ ": root must be a mapping")))

/-- The configuration of the module in a directory. -/
def load (root : Path) : Action Config := do
  let path := root.child fileName
  if ← Action.isFile path then
    match ofFile (← Action.readFile path) path.toString with
    | .ok config => return config
    | .error failure => throw failure
  else return default

end DscAudit.Config

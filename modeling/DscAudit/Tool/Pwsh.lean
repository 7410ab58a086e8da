import DscAudit.Config.Basic
import DscAudit.Host.Command
import DscAudit.Json.Reader
import DscAudit.Text.CharacterClass
import DscAudit.Text.Lines
import DscAudit.Tool.Script
import DscAudit.Value.Access

/-!
# Running scripts with PowerShell

A script runs in a process of its own.  It takes its inputs from the environment, so that no path
needs quoting, and gives its result on a result line.
-/

/-!
## Result lines

A tool writes its result as JSON on a line that starts with a mark; what else it writes does not
matter.  The last such line counts.
-/

namespace DscAudit.Tool.ResultLine

/-- The mark that a result line starts with. -/
def mark : String := "##dscmeta-json:"

/-- Why there is no result. -/
inductive Fault where
  | missing
  | unreadable
  deriving DecidableEq, Repr

def Fault.message : Fault → String
  | missing => "pwsh output carries no result line"
  | unreadable => "<json>"

/-- The text behind the mark of a line, if it has one. -/
def behindMark? (line : List Char) : Option (List Char) :=
  let line := Text.trim line
  if mark.toList.isPrefixOf line then some (line.drop mark.length) else none

/-- The result in the output of a tool. -/
def read (output : List Char) : Except Fault Value :=
  match (Text.lines output).reverse.findSome? behindMark? with
  | none => .error .missing
  | some text =>
    match Json.read? text with
    | some value => .ok value
    | none => .error .unreadable

end DscAudit.Tool.ResultLine

/-! ## Sessions -/

namespace DscAudit.Tool.Pwsh

/-- Where scripts run: the executable, the directory, and how long they may take. -/
structure Session where
  executable : String
  directory : Path
  timeout : Number
  log : Option LogSettings

/-- The executable of a configuration: a file if the configuration has an absolute path, otherwise a
tool to be found. -/
def find (config : Config) : Action (Option String) := do
  let executable := config.powershell.executable
  if executable.toList.head? = some '/' then
    if ← Action.isFile (Path.ofString executable) then return some executable else return none
  else Action.findTool executable

/-- The environment with other values for some of its names. -/
def override (environment overrides : List (String × String)) : List (String × String) :=
  (environment.filter fun entry => !(overrides.any fun other => other.1 == entry.1)) ++ overrides

/-- The options with which a script runs: nothing but the script decides what it does. -/
def options : List String := ["-NoLogo", "-NoProfile", "-NonInteractive", "-Command"]

/-- The result of a script. -/
def run (session : Session) (script : String) (overrides : List (String × String)) :
    Action Value := do
  let environment := override (← get).environment overrides
  let command : Command :=
    ⟨session.executable :: options ++ [script], session.directory, session.timeout, some environment⟩
  let result ← command.runOnce session.log
  if result.code = timeoutCode then
    Action.fail ("pwsh timed out after " ++ session.timeout.text ++ "s") .timeout "pwsh_timeout"
  if result.code ≠ 0 then
    Action.fail ("pwsh exited with " ++ String.ofList (integerText result.code) ++ ": " ++
      result.combined) .prereq "pwsh_failed"
  match ResultLine.read result.output.toList with
  | .ok value => return value
  | .error fault =>
    Action.fail ("pwsh returned unreadable output: " ++ fault.message) .prereq "pwsh_output"

/-- What a reader makes of a result. -/
def reading {α : Type} (result : Except Defect α) : Action α :=
  match result with
  | .ok a => return a
  | .error defect => Action.defect defect

/-- Paths as a script takes them: a JSON array on one line. -/
def pathList (paths : List Path) : String :=
  Json.write .oneLine (.list (paths.map fun path => .text path.toString))

/-! ## The script analyzer -/

/-- A finding of the script analyzer. -/
structure Finding where
  rule : String
  severity : String
  script : String
  line : Int
  column : Int
  message : String

def Finding.ofValue (row : Value) : Except Defect Finding := do
  return {
    rule := (← row.memberOr "RuleName" (.text "")).plain
    severity := (← row.memberOr "Severity" (.text "")).plain
    script := (← row.memberOr "ScriptPath" .null).plainIfAny
    line := ← (← row.memberOr "Line" .null).toIntegerIfAny
    column := ← (← row.memberOr "Column" .null).toIntegerIfAny
    message := String.ofList (Text.trim (← row.memberOr "Message" (.text "")).plain.toList) }

/-- The findings of a result, nothing if the analyzer is not installed. -/
def findings? (result : Value) : Except Defect (Option (List Finding)) := do
  if !(← result.memberOr "available" .null).isTruthy then return none
  let rows ← (← result.memberOr "records" .null).partsIfAny
  return some (← rows.mapM Finding.ofValue)

/-- The findings of the script analyzer in the module in a directory. -/
def analyze? (session : Session) : Action (Option (List Finding)) := do
  let result ← run session Script.analyze [("DSCMETA_ROOT", session.directory.toString)]
  reading (findings? result)

/-! ## Syntax errors -/

/-- A syntax error in a script. -/
structure SyntaxFault where
  line : Int
  column : Int
  message : String

def SyntaxFault.ofValue (row : Value) : Except Defect SyntaxFault := do
  return {
    line := ← (← row.memberOr "line" .null).toIntegerIfAny
    column := ← (← row.memberOr "column" .null).toIntegerIfAny
    message := (← row.memberOr "message" (.text "")).plain }

/-- The errors of one script with its path. -/
def parsed (row : Value) : Except Defect (String × List SyntaxFault) := do
  let path := (← row.required "path").plain
  let rows ← (← row.memberOr "errors" .null).partsIfAny
  return (path, ← rows.mapM SyntaxFault.ofValue)

/-- The syntax errors of scripts, by the paths that the result has. -/
def parse (session : Session) (files : List Path) : Action (Entries (List SyntaxFault)) := do
  let result ← run session Script.parse [("DSCMETA_FILES", pathList files)]
  reading do return Entries.ofList (← (← result.parts).mapM parsed)

/-! ## Example configurations -/

/-- How the compilation of an example went. -/
structure Compilation where
  path : String
  passed : Bool
  configurations : List String
  error : String

def Compilation.ofValue (row : Value) : Except Defect Compilation := do
  let path := (← row.memberOr "path" (.text "")).plain
  let passed := match ← row.memberOr "status" .null with
    | .text status => status == "pass"
    | _ => false
  let names ← (← row.memberOr "configurations" .null).partsIfAny
  return ⟨path, passed, names.map Value.plain, (← row.memberOr "error" .null).plainIfAny⟩

/-- Compiles examples of the module in a directory into another directory, which is made. -/
def compile (session : Session) (files : List Path) (output : Path) : Action (List Compilation) := do
  Action.makeDirectory output
  let result ← run session Script.compile
    [("DSCMETA_FILES", pathList files),
     ("DSCMETA_MODULE_PARENT", session.directory.parent.toString),
     ("DSCMETA_OUTPUT", output.toString)]
  reading do return ← (← result.parts).mapM Compilation.ofValue

end DscAudit.Tool.Pwsh

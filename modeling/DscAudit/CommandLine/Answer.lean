import DscAudit.Check.Catalogue
import DscAudit.CommandLine.Request
import DscAudit.Report.Payload
import DscAudit.Report.Text
import DscAudit.Rule.Script
import DscAudit.Run.Context

/-!
# Answers to requests

Every request is answered by what is written to the two streams and by an exit code.  A failure is
written to the stream for errors.
-/

namespace DscAudit.CommandLine

/-- The version of the program. -/
def version : String := "0.1.0"

/-- What every JSON answer starts with. -/
def head (status : String) : Table :=
  [("schema_version", .int 1), ("tool", .text "dscmeta"), ("status", .text status)]

/-- The line of a failure. -/
def errorLine (format : OutputFormat) (message : String) (code : Int) (kind : String) : String :=
  match format with
  | .json =>
    Json.write .oneLine <| .table <| head "fail" ++
      [("error", .table [("message", .text message), ("code", .int code), ("kind", .text kind)])]
  | .text => message

/-- What an answer within a run starts with. -/
def runHead (context : RunContext) : Table :=
  head "ok" ++
    [("run_id", .text context.runId), ("module_root", .text context.root.toString),
     ("evidence_root", .text context.evidence.toString), ("format", .text context.format.name)]

/-- Writes a table as JSON on one line. -/
def printJson (table : Table) : Action Unit :=
  Action.printLine (Json.write .oneLine (.table table))

/-- The result of a step that may be refused. -/
def accepted {α : Type} (result : Except Complaint α) : Action α :=
  match result with
  | .ok a => return a
  | .error complaint => throw (.complaint complaint)

def answerVersion (format : OutputFormat) : Action ExitCode := do
  match format with
  | .json => printJson (head "ok" ++ [("version", .text version)])
  | .text => Action.printLine ("dscmeta " ++ version)
  return .ok

/-- A check in a list. -/
def checkRow (check : Check) : Value :=
  .table
    [("id", .text check.id), ("domain", .text check.domain), ("title", .text check.title),
     ("opt_in", .bool check.optIn), ("description", .text check.description)]

def checkLine (check : Check) : String :=
  check.id ++ "\t" ++ (if check.optIn then "opt-in" else "always") ++ "\t" ++ check.title

def answerList (domain : String) (format : OutputFormat) : Action ExitCode := do
  let checks ← accepted (Check.select domain [])
  match format with
  | .json => printJson (head "ok" ++ [("checks", .list (checks.map checkRow))])
  | .text => checks.forM fun check => Action.printLine (checkLine check)
  return .ok

def answerExplain (id : String) (format : OutputFormat) : Action ExitCode := do
  let check ← accepted (Check.find id)
  match format with
  | .json => printJson (Report.explanationTable check)
  | .text => Action.printLine (Report.explanation check)
  return .ok

/-- How much of a report a run shows. -/
def detail (context : RunContext) : Report.Detail :=
  if context.quiet then .quiet else if context.verbose then .verbose else .normal

def answerCheck (context : RunContext) (domain : String) (ids : List String) (failFast : Bool)
    (outFile : Option String) : Action ExitCode := do
  let checks ← accepted (Check.select domain ids)
  if checks.isEmpty then
    Action.fail ("no checks selected for domain \x60" ++ domain ++ "\x60") .usage "empty_selection"
  let summary ← Check.runChecks context.subject checks context.optIn failFast
  let payload ← accepted (Report.payload summary context.runId context.root.toString)
  match RunContext.nonEmpty? outFile with
  | some file =>
    let path ← context.writeJson (Path.ofString file) payload
    Action.log context.logSettings ⟨"debug", "report", "write", [("path", .text path.toString)]⟩
  | none => pure ()
  match context.format with
  | .json => Action.printLine (Json.write .oneLine payload)
  | .text => Action.printLine (← Tool.Pwsh.reading (Report.text (detail context) payload))
  return if summary.status = .pass then .ok else .checks

/-- The findings of the rules for parameter blocks in a file. -/
def analyzeFile (path : Path) : Action (List (Rule.Diagnostic PowerShell.Extent)) := do
  return Rule.analyze (Text.readTextFile (← Action.readFile path))

def answerAnalyze (context : RunContext) (raw : List String) : Action ExitCode := do
  let paths := raw.map Path.ofString
  let missing ← paths.filterM fun path => do return !(← Action.isPresent path)
  if !missing.isEmpty then
    Action.fail ("path not found: " ++ ", ".intercalate (missing.map Path.toString)) .usage
      "path_missing"
  let files ← File.scripts context.config.excludedDirectories paths
  let found ← files.mapM fun file => do
    return (← analyzeFile file).map fun diagnostic => (file.toString, diagnostic)
  let diagnostics := found.flatten
  Action.log context.logSettings
    ⟨"debug", "analyze", "finish", [("diagnostics", .int diagnostics.length)]⟩
  match context.format with
  | .json =>
    printJson <| head (if diagnostics.isEmpty then "ok" else "fail") ++
      [("rules", .ofTexts (Rule.all.map Rule.Name.text)),
       ("diagnostics", .list (diagnostics.map fun found => found.2.toValue found.1))]
  | .text => diagnostics.forM fun found => Action.printLine (found.2.render found.1)
  return if diagnostics.isEmpty then .ok else .checks

def answerDump (context : RunContext) : Action ExitCode := do
  let table := runHead context ++
    [("config", context.config.toValue), ("opt_in", .ofTexts context.optIn.names)]
  let layout := match context.format with
    | .json => Json.Layout.oneLine
    | .text => Json.Layout.indented
  Action.printLine (Json.write layout (.table table))
  return .ok

/-- Where the configuration of a run comes from. -/
def source (context : RunContext) : String :=
  if context.config.source.isEmpty then "<defaults>" else context.config.source

/-- The names that the module opts in to and that no check has. -/
def unknownNames (optIn : OptIn) : List String :=
  optIn.names.filter fun name => !(Check.all.any fun check => check.id == name || check.title == name)

def answerValidate (context : RunContext) : Action ExitCode := do
  let unknown := unknownNames context.optIn
  match context.format with
  | .json =>
    printJson <| runHead context ++
      [("source", .text (source context)), ("opt_in", .ofTexts context.optIn.names),
       ("unknown_opt_in", .ofTexts unknown)]
  | .text =>
    Action.printLine ("config ok: " ++ source context)
    unknown.forM fun name =>
      Action.printLine ("warning: opt-in \x60" ++ name ++ "\x60 does not name a known check")
  return .ok

/-- The first line that a tool writes when it is asked for its version. -/
def toolVersion (path : String) : Action String := do
  let isPwsh := Text.lowerString (Path.ofString path).stem == "pwsh"
  let directory := (← get).directory
  let command : DscAudit.Command :=
    ⟨[path, if isPwsh then "-Version" else "--version"], directory, .int 30, none⟩
  let result ← command.runOnce none
  if result.code = 0 then
    return String.ofList ((Text.lines (Text.trim result.output.toList)).headD [])
  else return ""

/-- A tool that checks need: its name, its path if it can be found, and its version. -/
structure ToolState where
  name : String
  path : Option String
  version : String

def ToolState.toValue (tool : ToolState) : Value :=
  .table
    [("name", .text tool.name), ("path", .text (tool.path.getD "")),
     ("available", .bool tool.path.isSome), ("version", .text tool.version)]

def ToolState.line (tool : ToolState) : String :=
  let state := match tool.path with
    | some path => String.ofList (Text.trim (path ++ " " ++ tool.version).toList)
    | none => "not found"
  tool.name ++ ": " ++ state

/-- Looks for a tool under the name of its executable. -/
def lookForTool (name executable : String) : Action ToolState := do
  let path ← Action.findTool executable
  match RunContext.nonEmpty? path with
  | some found => return ⟨name, path, ← toolVersion found⟩
  | none => return ⟨name, path, ""⟩

def answerDoctor (context : RunContext) : Action ExitCode := do
  let executables :=
    [("pwsh", context.config.powershell.executable), ("npm", context.config.markdown.npm),
     ("node", "node")]
  let tools ← executables.mapM fun tool => lookForTool tool.1 tool.2
  let platform := (← get).platform
  match context.format with
  | .json =>
    printJson <| runHead context ++
      [("python_version", .text platform), ("tools", .list (tools.map ToolState.toValue))]
  | .text =>
    Action.printLine ("dscmeta " ++ version ++ " python " ++ platform)
    tools.forM fun tool => Action.printLine tool.line
  return .ok

/-- Answers a command that needs the context of a run. -/
def answerInRun (context : RunContext) (command : Command) : Action ExitCode := do
  let log (event : Event) : Action Unit := Action.log context.logSettings event
  log ⟨"info", "cli", "start",
    [("cmd", .text command.word), ("fmt", .text context.format.name),
     ("module", .text context.moduleName)]⟩
  log ⟨"debug", "config", "load",
    [("source", .text (source context)), ("opt_in", .int context.optIn.names.length)]⟩
  match command with
  | .check domain ids failFast outFile => answerCheck context domain ids failFast outFile
  | .analyze paths => answerAnalyze context paths
  | .dump => answerDump context
  | .validate => answerValidate context
  | .doctor => answerDoctor context
  | _ => return .usage

/-- Answers a request in a format. -/
def answer (request : Request) (format : OutputFormat) : Action ExitCode := do
  match request.command with
  | .version => answerVersion format
  | .list domain => answerList domain format
  | .explain id => answerExplain id format
  | command => answerInRun (← RunContext.load (request.runSettings format)) command

/-- The line and the exit code of a failure. -/
def failureLine (format : OutputFormat) : Failure → String × ExitCode
  | .complaint complaint =>
    (errorLine format complaint.message complaint.code.number complaint.kind, complaint.code)
  | .defect defect =>
    (errorLine format ("internal error: " ++ defect.message) ExitCode.internal.number
      "internal_error", .internal)

/-- The format in which a request is answered. -/
def formatOf (request : Request) : Action OutputFormat := do
  let automated := RunContext.nonEmpty? (← Action.environment? "CI")
  return .choose request.wantsJson request.format automated.isSome

/-- Answers a request; a failure is written, and gives its own exit code. -/
def run (request : Request) : Action ExitCode := do
  let format ← formatOf request
  tryCatch (answer request format) fun failure => do
    let (line, code) := failureLine format failure
    Action.printError (line ++ "\n")
    return code

end DscAudit.CommandLine

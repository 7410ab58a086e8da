import DscAudit.CommandLine.Reading
import DscAudit.Run.Context

/-!
# Requests

What the command line asks for.
-/

namespace DscAudit.CommandLine

inductive Command where
  | check (domain : String) (ids : List String) (failFast : Bool) (outFile : Option String)
  | list (domain : String)
  | explain (id : String)
  | analyze (paths : List String)
  | dump
  | validate
  | doctor
  | version

/-- The word that names a command in the log. -/
def Command.word : Command → String
  | check _ _ _ _ => "check"
  | list _ => "list"
  | explain _ => "explain"
  | analyze _ => "analyze"
  | dump => "config"
  | validate => "config"
  | doctor => "doctor"
  | version => "version"

structure Request where
  moduleRoot : Option String
  runId : Option String
  evidenceRoot : Option String
  format : Option OutputFormat
  logJson : Bool
  verbose : Bool
  quiet : Bool
  wantsJson : Bool
  command : Command

namespace Reading

/-- The values that an option has been given, in order. -/
def values (reading : Reading) (name : String) : List String :=
  reading.settings.filterMap fun setting => if setting.1 = name then some setting.2 else none

/-- The value that an option has been given last. -/
def value? (reading : Reading) (name : String) : Option String := (reading.values name).getLast?

def has (reading : Reading) (name : String) : Bool := (reading.value? name).isSome

def format? (reading : Reading) : Option OutputFormat :=
  (reading.value? "--format").map fun name => if name = "json" then .json else .text

/-- The command of a level. -/
def command (reading : Reading) : Level → Command
  | .check =>
    .check ((reading.value? "--domain").getD "all") (reading.values "--select")
      (reading.has "--fail-fast") (reading.value? "--out-file")
  | .list => .list ((reading.value? "--domain").getD "all")
  | .explain => .explain (reading.operands.headD "")
  | .analyze => .analyze reading.operands
  | .dump => .dump
  | .validate => .validate
  | .doctor => .doctor
  | _ => .version

end Reading

namespace Request

/-- The request that a command line writes. -/
def ofWords (words : List String) : Except Stop Request := do
  let (level, reading) ← read words
  return {
    moduleRoot := reading.value? "--module-root"
    runId := reading.value? "--run-id"
    evidenceRoot := reading.value? "--evidence-root"
    format := reading.format?
    logJson := reading.has "--log-json"
    verbose := reading.has "--verbose"
    quiet := reading.has "--quiet"
    wantsJson := reading.has "--json"
    command := reading.command level }

/-- What the request says of a run in a format. -/
def runSettings (request : Request) (format : OutputFormat) : RunSettings :=
  ⟨request.moduleRoot, request.runId, request.evidenceRoot, format, request.verbose, request.quiet,
    request.logJson⟩

end Request

end DscAudit.CommandLine

import DscAudit.Host.Log
import DscAudit.Text.CharacterClass

/-!
# Commands

A command is started again after a failure, as often as allowed.  A process that is stopped because
it takes too long, and a tool that is not there, count as failures with codes of their own.
-/

namespace DscAudit

open Decimal (Binary64)

/-- The code of a process that took too long. -/
def timeoutCode : Int := 124

/-- The code for a tool that is not there. -/
def missingCode : Int := 127

structure CommandResult where
  code : Int
  output : String
  errors : String
  milliseconds : Nat

/-- What the command wrote to both streams, without blanks at its ends. -/
def CommandResult.combined (result : CommandResult) : String :=
  String.ofList (Text.trim (result.output ++ result.errors).toList)

structure Command where
  words : List String
  directory : Path
  timeout : Number
  environment : Option (List (String × String))

namespace Command

/-- The time that the process may take, if it is limited. -/
def limit (command : Command) : Option Number :=
  if command.timeout.isPositive then some command.timeout else none

/-- The result of a command whose process ended like this. -/
def resultOf (command : Command) : ProcessResult → CommandResult
  | .finished code output errors => ⟨code, output, errors, 0⟩
  | .timedOut output errors =>
    let note := errors.toText ++ "\ncommand timed out after " ++ command.timeout.text ++ "s"
    ⟨timeoutCode, output.toText, String.ofList (Text.trim note.toList), 0⟩
  | .missing name =>
    let shown := match name with
      | some name => if name.isEmpty then command.words.headD "" else name
      | none => command.words.headD ""
    ⟨missingCode, "", "command not found: " ++ shown, 0⟩

/-- Starts the process of a command. -/
def start (command : Command) : Action CommandResult := do
  let host ← get
  let call : ProcessCall :=
    ⟨command.words, command.directory, command.limit, command.environment⟩
  set { host with calls := host.calls ++ [call], results := host.results.tail }
  return command.resultOf (host.results.headD (.missing none))

/-- The event that a process has ended. -/
def event (command : Command) (attempt : Nat) (result : CommandResult) : Event :=
  { level := "info", component := "process", action := "run-command"
    fields :=
      [("command", .text (" ".intercalate command.words)), ("cwd", .text command.directory.toString),
       ("attempt", .int attempt), ("code", .int result.code),
       ("duration_ms", .int result.milliseconds)] }

/-- Lets time pass. -/
def pause (delay : Binary64) : Action Unit :=
  if delay.gtInt 0 then modify fun host => { host with sleeps := host.sleeps ++ [delay] }
  else return ()

/-- Runs a command that was started `attempt - 1` times already, and again after each failure while
attempts are left. -/
def attempts (command : Command) (delay : Binary64) (settings : Option LogSettings) :
    (attempt left : Nat) → Action CommandResult
  | attempt, left => do
    let result ← command.start
    Action.log? settings (command.event attempt result)
    match left with
    | 0 => return result
    | left + 1 =>
      if result.code = 0 then return result
      else
        pause delay
        attempts command delay settings (attempt + 1) left

/-- Runs a command as often as allowed until it succeeds. -/
def run (command : Command) (allowed : Nat) (delay : Binary64) (settings : Option LogSettings) :
    Action CommandResult :=
  match allowed with
  | 0 => return ⟨1, "", "unknown error", 0⟩
  | left + 1 => attempts command delay settings 1 left

/-- Runs a command once. -/
def runOnce (command : Command) (settings : Option LogSettings) : Action CommandResult :=
  command.run 1 (.finite false 0) settings

end Command

end DscAudit

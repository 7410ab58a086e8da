import DscAudit.Host.Basic
import DscAudit.Json.Writer

/-!
# The log

An event has a level, a component, an action and fields.  It is written as one line of text with the
fields in the order of their names, or as JSON.
-/

namespace DscAudit

/-- How events are written, and which of them are not. -/
structure LogSettings where
  runId : String
  verbose : Bool
  quiet : Bool
  json : Bool

structure Event where
  level : String
  component : String
  action : String
  fields : Table

namespace Event

/-- Details are written only on demand; nothing but warnings and errors if that is what is wanted. -/
def isWritten (settings : LogSettings) (event : Event) : Bool :=
  !(event.level == "debug" && !settings.verbose) &&
    !(settings.quiet && (event.level == "debug" || event.level == "info"))

/-- What every event has, and its own fields.  These win over the point in time and the run. -/
def record (settings : LogSettings) (now : Moment) (event : Event) : Table :=
  event.fields.foldl (fun table field => table.insert field.1 field.2)
    [("ts", .text now.extended), ("level", .text event.level), ("run_id", .text settings.runId),
     ("component", .text event.component), ("action", .text event.action)]

/-- The fields in the order of their names. -/
def sortedFields (event : Event) : Table := event.fields.mergeSort fun a b => decide (a.1 ≤ b.1)

/-- The line of an event. -/
def line (settings : LogSettings) (now : Moment) (event : Event) : String :=
  let record := event.record settings now
  if settings.json then Json.write .oneLine (.table record)
  else
    let time := ((record.get? "ts").getD .null).plain
    let core := "ts=" ++ time ++ " level=" ++ event.level ++ " run_id=" ++ settings.runId ++
      " component=" ++ event.component ++ " action=" ++ event.action
    let extras := " ".intercalate (event.sortedFields.map fun field => field.1 ++ "=" ++ field.2.plain)
    if extras.isEmpty then core else core ++ " " ++ extras

end Event

namespace Action

/-- Writes an event to the stream for errors. -/
def log (settings : LogSettings) (event : Event) : Action Unit := do
  if event.isWritten settings then
    printError (event.line settings (← get).now ++ "\n")

/-- Writes an event if there are settings. -/
def log? (settings : Option LogSettings) (event : Event) : Action Unit :=
  match settings with
  | some settings => log settings event
  | none => return ()

end Action

end DscAudit

import DscAudit.PowerShell.ParameterBlock
import DscAudit.Rule.Parameter
import DscAudit.Value.Basic

/-!
# Findings in a script

The findings for all parameters of a script, in the order of lines, columns and rule names.  A script
that cannot be read has a single finding, where reading fails.
-/

namespace DscAudit.Rule

open PowerShell (Extent)

/-- The order of findings. -/
def precedes (a b : Diagnostic Extent) : Bool :=
  let lines := compare a.location.first.line b.location.first.line
  let columns := compare a.location.first.column b.location.first.column
  ((lines.then columns).then (compare a.rule.text b.rule.text)).isLE

/-- The finding that a script cannot be read. -/
def unreadable (fault : PowerShell.Fault) (text : List Char) : Diagnostic Extent :=
  let position := fault.position text
  ⟨.unreadable, .parseError, fault.cause.message, ⟨position, position, ""⟩⟩

/-- The findings in a script. -/
def analyze (text : List Char) : List (Diagnostic Extent) :=
  match PowerShell.parameters text with
  | .error fault => [unreadable fault text]
  | .ok parameters =>
    let extents := parameters.map fun parameter => parameter.map (·.extent text)
    (extents.flatMap diagnostics).mergeSort precedes

/-- The line that shows a finding in the file at a path. -/
def Diagnostic.render (path : String) (diagnostic : Diagnostic Extent) : String :=
  path ++ ":" ++ toString diagnostic.location.first.line ++ ":" ++
    toString diagnostic.location.first.column ++ ": " ++ diagnostic.severity.text ++ " " ++
    diagnostic.rule.text ++ " " ++ diagnostic.message

/-- The finding as a table. -/
def Diagnostic.toValue (path : String) (diagnostic : Diagnostic Extent) : Value :=
  .table
    [("path", .text path), ("rule_name", .text diagnostic.rule.text),
     ("severity", .text diagnostic.severity.text), ("message", .text diagnostic.message),
     ("line", .int diagnostic.location.first.line), ("column", .int diagnostic.location.first.column),
     ("end_line", .int diagnostic.location.last.line),
     ("end_column", .int diagnostic.location.last.column), ("text", .text diagnostic.location.text)]

end DscAudit.Rule

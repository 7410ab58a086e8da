import DscAudit.Text.CharacterClass
import DscAudit.Value.Basic

/-!
# Violations

A violation is what a check finds wrong, with its place if it has one: a path, and a line and a column
that are zero if they are not known.
-/

namespace DscAudit

inductive Severity where
  | error
  | warn
  | info
  deriving DecidableEq, Repr

def Severity.text : Severity → String
  | error => "error"
  | warn => "warn"
  | info => "info"

structure Violation where
  code : String
  message : String
  path : String
  line : Int
  column : Int
  severity : Severity
  deriving DecidableEq, Repr

namespace Violation

def trimmed (s : String) : String := String.ofList (Text.trim s.toList)

/-- The code of violations without one. -/
def genericCode : String := "CHECK_GENERIC"

/-- The violation with texts that have no blanks at their ends. -/
def normalize (violation : Violation) : Violation :=
  let code := trimmed violation.code
  { violation with
    code := if code.isEmpty then genericCode else code
    message := trimmed violation.message
    path := trimmed violation.path }

/-- A violation of the module as a whole. -/
def ofModule (code message : String) : Violation := normalize ⟨code, message, "", 0, 0, .error⟩

/-- A violation of a file or directory as a whole. -/
def ofFile (code message path : String) : Violation :=
  normalize ⟨code, message, path, 0, 0, .error⟩

/-- A violation at a place in a file. -/
def atPlace (code message path : String) (line column : Int) : Violation :=
  normalize ⟨code, message, path, line, column, .error⟩

/-- The order of violations: by path, code, message, line and column. -/
def compareTo (a b : Violation) : Ordering :=
  (compare a.path b.path).then <| (compare a.code b.code).then <|
    (compare a.message b.message).then <| (compare a.line b.line).then (compare a.column b.column)

def sort (violations : List Violation) : List Violation :=
  violations.mergeSort fun a b => (a.compareTo b).isLE

/-- The violation on one line. -/
def render (violation : Violation) : String :=
  let place :=
    if violation.path.isEmpty || violation.line = 0 then violation.path
    else violation.path ++ ":" ++ String.ofList (integerText violation.line)
  if place.isEmpty then violation.message else place ++ ": " ++ violation.message

def toValue (violation : Violation) : Value :=
  .table
    [("code", .text violation.code), ("message", .text violation.message),
     ("path", .text violation.path), ("line", .int violation.line),
     ("column", .int violation.column), ("severity", .text violation.severity.text)]

theorem code_normalize_ne_empty (violation : Violation) : violation.normalize.code ≠ "" := by
  simp only [normalize]
  split
  · decide
  · intro h
    simp_all

theorem severity_normalize (violation : Violation) :
    violation.normalize.severity = violation.severity := by
  simp only [normalize]

end Violation

end DscAudit

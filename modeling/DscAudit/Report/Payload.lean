import DscAudit.Check.Basic
import DscAudit.Check.Run
import DscAudit.Json.Writer
import DscAudit.Shape.Basic

/-!
# Payloads of reports

The payload of a report is a table with a row for each check, in the order of their identifiers.  It
has a fixed shape.
-/

namespace DscAudit.Report

open DscAudit.Check (Result Summary Status)

/-- The name of the form of a payload. -/
def formName : String := "dscmeta.check-run.v1"

/-- A run of small letters, a slash, and small letters, digits or hyphens; a line feed may end it. -/
def isIdentifier (s : List Char) : Bool :=
  let rest := s.dropWhile Char.isLower
  let behind := rest.drop 1
  let tail := behind.dropWhile fun c => c.isLower || c.isDigit || c == '-'
  s.head?.any Char.isLower && rest.head? == some '/' && tail.length < behind.length &&
    (tail.isEmpty || tail == ['\n'])

def identifier : Pattern where
  text := "^[a-z]+/[a-z0-9-]+$"
  occursIn := isIdentifier

def flag : Shape := .ofRules [.kind .boolean]

def count : Shape := .ofKind .integer [.atLeast 0]

def oneOf (texts : List String) : Shape := .ofRules [.oneOf texts]

def violationShape : Shape :=
  .record
    [("code", .ofKind .string [.nonEmpty]), ("message", .anyText), ("path", .anyText),
     ("line", count), ("column", count), ("severity", oneOf ["error", "warn", "info"])]

def rowShape : Shape :=
  .record
    [("id", .ofKind .string [.matching identifier]), ("domain", .anyText),
     ("title", .anyText), ("status", oneOf ["PASS", "FAIL", "SKIP", "ERROR"]),
     ("duration_ms", count), ("budget_ms", count), ("budget_status", oneOf ["pass", "warn"]),
     ("opt_in", flag), ("opted_in", flag), ("skipped_reason", .anyText), ("hint", .anyText),
     ("violations", .listOf violationShape), ("warnings", .listOf .anyText),
     ("metrics", .ofKind .object [])]

def summaryShape : Shape :=
  .record
    [("passed", count), ("failed", count), ("skipped", count), ("errors", count), ("total", count),
     ("duration_ms", count)]

/-- The shape of a payload. -/
def shape : Shape :=
  .record
    [("schema_name", .ofRules [.textIs formName]), ("schema_version", .ofRules [.numberIs 1]),
     ("tool", .ofRules [.textIs "dscmeta"]), ("kind", .ofRules [.textIs "check-run"]),
     ("run_id", .anyText), ("module_root", .anyText), ("status", oneOf ["pass", "fail"]),
     ("summary", summaryShape), ("rows", .listOf rowShape)]

/-- Did a check take longer than it should? -/
def isOverBudget (result : Result) : Bool :=
  result.check.budget ≠ 0 && decide (result.check.budget < result.milliseconds)

/-- The row of a result. -/
def row (result : Result) : Value :=
  .table
    [("id", .text result.check.id), ("domain", .text result.check.domain),
     ("title", .text result.check.title), ("status", .text result.status.capitals),
     ("duration_ms", .int result.milliseconds), ("budget_ms", .int result.check.budget),
     ("budget_status", .text (if isOverBudget result then "warn" else "pass")),
     ("opt_in", .bool result.check.optIn), ("opted_in", .bool result.optedIn),
     ("skipped_reason", .text result.skipped), ("hint", .text result.check.hint),
     ("violations", .list ((Violation.sort result.violations).map Violation.toValue)),
     ("warnings", .ofTexts result.warnings), ("metrics", .table result.metrics)]

/-- Results in the order of the identifiers of their checks. -/
def sortResults (results : List Result) : List Result :=
  results.mergeSort fun a b => decide (a.check.id ≤ b.check.id)

def summaryTable (summary : Summary) : Table :=
  [("passed", .int (summary.count .pass)), ("failed", .int (summary.count .fail)),
   ("skipped", .int (summary.count .skip)), ("errors", .int (summary.count .error)),
   ("total", .int summary.results.length), ("duration_ms", .int summary.milliseconds)]

/-- The payload of a run before its shape is looked at. -/
def draft (summary : Summary) (runId moduleRoot : String) : Table :=
  [("schema_name", .text formName), ("schema_version", .int 1), ("tool", .text "dscmeta"),
   ("kind", .text "check-run"), ("run_id", .text runId), ("module_root", .text moduleRoot),
   ("status", .text summary.status.text), ("summary", .table (summaryTable summary)),
   ("rows", .list ((sortResults summary.results).map row))]

/-- The payload of a run, if it has the right shape. -/
def payload (summary : Summary) (runId moduleRoot : String) : Except Complaint Value :=
  let payload := Value.table (draft summary runId moduleRoot)
  match Problem.worst? (shape.problems payload.toDatum) with
  | none => .ok payload
  | some problem =>
    .error ⟨formName ++ " payload invalid at " ++ problem.place ++ ": " ++ problem.message,
      .internal, "report_invalid"⟩

/-! ## Explanations of checks -/

/-- The explanation of a check as a table. -/
def explanationTable (check : Check) : Table :=
  [("schema_version", .int 1), ("tool", .text "dscmeta"), ("status", .text "ok"),
   ("check", .table
     [("id", .text check.id), ("domain", .text check.domain), ("title", .text check.title),
      ("description", .text check.description), ("opt_in", .bool check.optIn),
      ("budget_ms", .int check.budget), ("external_tools", .list (check.tools.map .text)),
      ("hint", .text check.hint)])]

/-- The explanation of a check in lines of text. -/
def explanation (check : Check) : String :=
  let requirements :=
    if check.tools.isEmpty then [] else ["  requires: " ++ ", ".intercalate check.tools]
  "\n".intercalate <|
    [check.id ++ ": " ++ check.description, "  title: " ++ check.title,
     "  domain: " ++ check.domain, "  opt-in: " ++ (if check.optIn then "yes" else "no"),
     "  budget: " ++ String.ofList (integerText check.budget) ++ "ms"] ++
    requirements ++ ["  fix: " ++ check.hint]

end DscAudit.Report

import DscAudit.Value.Access

/-!
# The text of a report

A line for each row of a payload and one for their sum; then the failing checks, each with all that is
wrong on one line.  The fields of a row are taken only where they are shown.
-/

namespace DscAudit.Report

/-- How much of a report is shown. -/
inductive Detail where
  | quiet
  | normal
  | verbose
  deriving DecidableEq, Repr

abbrev Lines := Except Defect (List String)

/-- A number that a table has under a key, zero if it has none. -/
def number (v : Value) (key : String) : Except Defect String := do
  return String.ofList (integerText (← (← v.memberOr key (.int 0)).toInteger))

/-- Is the row that of a check that failed or broke off? -/
def isFailing (row : Value) : Except Defect Bool := do
  match ← row.member? "status" with
  | some (.text status) => return status == "FAIL" || status == "ERROR"
  | _ => return false

/-- The rows of a payload in the order of their identifiers. -/
def sortedRows (payload : Value) : Except Defect (List Value) := do
  let rows ← (← payload.memberOr "rows" (.list [])).parts
  let keyed ← rows.mapM fun row => do return ((← row.memberOr "id" (.text "")).plain, row)
  return (keyed.mergeSort fun a b => decide (a.1 ≤ b.1)).map (·.2)

/-- The line of a violation below its row. -/
def violationLine (violation : Value) : Except Defect String := do
  let path ← violation.required "path"
  let place ←
    if path.isTruthy then do
      let line ← violation.required "line"
      if line.isTruthy then pure (path.plain ++ ":" ++ line.plain) else pure path.plain
    else pure path.plain
  let message := (← violation.required "message").plain
  return if path.isTruthy then "  " ++ place ++ ": " ++ message else "  " ++ message

/-- The first line of a row. -/
def headLine (detail : Detail) (row : Value) : Except Defect String := do
  let status := (← row.required "status").plain
  let id := (← row.required "id").plain
  let line := status ++ " " ++ id ++ " (" ++ (← number row "duration_ms") ++ "ms)"
  let skipped ← row.memberOr "skipped_reason" .null
  let line := if skipped.isTruthy then line ++ " skipped: " ++ skipped.plain else line
  if detail = .verbose then
    match ← row.member? "budget_status" with
    | some (.text "warn") => return line ++ " over budget " ++ (← number row "budget_ms") ++ "ms"
    | _ => return line
  else return line

/-- The lines of a row. -/
def rowLines (detail : Detail) (row : Value) : Lines := do
  let head ← headLine detail row
  let violations ←
    if ← isFailing row then
      (← (← row.memberOr "violations" (.list [])).parts).mapM violationLine
    else pure []
  let warnings ←
    if detail = .verbose then do
      let warnings ← (← row.memberOr "warnings" (.list [])).parts
      pure (warnings.map fun warning => "  warning: " ++ warning.plain)
    else pure []
  return head :: violations ++ warnings

/-- The line with the sums. -/
def summaryLine (payload : Value) : Except Defect String := do
  let summary ← payload.memberOr "summary" (.table [])
  let keys := ["passed", "failed", "skipped", "errors", "total", "duration_ms"]
  let sums ← keys.mapM fun key => do return key ++ "=" ++ (← number summary key)
  return "summary: " ++ " ".intercalate sums

/-- The parts of a value that are joined. -/
def joinable (v : Value) : Except Defect (List Value) :=
  match v.parts with
  | .ok parts => .ok parts
  | .error _ => .error .notJoinable

/-- All that is wrong in a row: its violations, or its warnings if it has none. -/
def detailLine (row : Value) : Except Defect String := do
  if (← row.memberOr "violations" .null).isTruthy then
    let violations ← (← row.required "violations").parts
    Value.join "; " (← violations.mapM fun violation => violation.required "message")
  else Value.join "; " (← joinable (← row.memberOr "warnings" (.list [])))

/-- The line of a failing check at the end: what is wrong, or what to do if nothing is known. -/
def failingLine (row : Value) : Except Defect String := do
  let id := (← row.required "id").plain
  let detail ← detailLine row
  let shown ←
    if detail.isEmpty then do pure (← row.memberOr "hint" (.text "")).plain else pure detail
  return "- " ++ id ++ ": " ++ shown

/-- The text of a payload in which only failing checks are named. -/
def quietLines (failing : List Value) : Lines := do
  let lines ← failing.mapM fun row => do return "FAIL " ++ (← row.required "id").plain
  return if lines.isEmpty then ["PASS"] else lines

/-- The lines of a payload. -/
def lines (detail : Detail) (payload : Value) : Lines := do
  let rows ← sortedRows payload
  let failing ← rows.filterM isFailing
  if detail = .quiet then quietLines failing
  else
    let rowLines ← rows.mapM (rowLines detail)
    let summary ← summaryLine payload
    let failingLines ←
      if failing.isEmpty then pure []
      else do pure ("failing checks:" :: (← failing.mapM failingLine))
    return rowLines.flatten ++ summary :: failingLines

/-- The text of a payload. -/
def text (detail : Detail) (payload : Value) : Except Defect String := do
  return "\n".intercalate (← lines detail payload)

end DscAudit.Report

import DscAudit.Check.Basic
import DscAudit.Config.OptIn

/-!
# Running checks

Every check gives a result: it passes, fails or is skipped, or it breaks off with an error.  A check
that needs an opt-in and has none does not fail: what it finds become warnings.
-/

namespace DscAudit.Check

inductive Status where
  | pass
  | fail
  | skip
  | error
  deriving DecidableEq, Repr

namespace Status

def text : Status → String
  | pass => "pass"
  | fail => "fail"
  | skip => "skip"
  | error => "error"

/-- The status in capital letters. -/
def capitals : Status → String
  | pass => "PASS"
  | fail => "FAIL"
  | skip => "SKIP"
  | error => "ERROR"

/-- Does a run with a check of this status fail? -/
def isFailing : Status → Bool
  | fail => true
  | error => true
  | _ => false

end Status

/-- The status of an outcome: only errors make a check fail. -/
def statusOf (outcome : Outcome) : Status :=
  if !outcome.skipped.isEmpty then .skip
  else if outcome.violations.any fun violation => violation.severity = .error then .fail
  else .pass

/-- What came of a check. -/
structure Result where
  check : Check
  status : Status
  violations : List Violation
  warnings : List String
  milliseconds : Nat
  optedIn : Bool
  skipped : String
  metrics : Table

/-- Does the module opt in to the check, by its identifier or its title? -/
def isOptedIn (check : Check) (optIn : OptIn) : Bool :=
  optIn.contains check.id || optIn.contains check.title

/-- The result of a check that broke off. -/
def brokenResult (check : Check) (optedIn : Bool) (milliseconds : Nat) (failure : Failure) : Result :=
  ⟨check, .error, [], [failure.text], milliseconds, optedIn, "", []⟩

/-- The result of a check that came to an outcome. -/
def resultOf (check : Check) (optedIn : Bool) (milliseconds : Nat) (outcome : Outcome) : Result :=
  let status := statusOf outcome
  let violations := Violation.sort outcome.violations
  if status = .fail && check.optIn && !optedIn then
    let errors := violations.filter fun violation => violation.severity = .error
    let others := violations.filter fun violation => violation.severity ≠ .error
    ⟨check, .pass, others, outcome.warnings ++ errors.map Violation.render, milliseconds, optedIn,
      outcome.skipped, outcome.metrics⟩
  else
    ⟨check, status, violations, outcome.warnings, milliseconds, optedIn, outcome.skipped,
      outcome.metrics⟩

/-- What comes of a step that may fail. -/
def attempt {α : Type} (step : Checking α) : Checking (Except Failure α) :=
  tryCatch (do return .ok (← step)) fun failure => return .error failure

/-- The result of a check, whose failure is part of the result. -/
def runOne (subject : Subject) (optIn : OptIn) (check : Check) : Checking Result := do
  let optedIn := isOptedIn check optIn
  let started := (← getThe Host).milliseconds
  let outcome ← attempt (check.run subject)
  let milliseconds := (← getThe Host).milliseconds - started
  match outcome with
  | .ok outcome => return resultOf check optedIn milliseconds outcome
  | .error failure => return brokenResult check optedIn milliseconds failure

def startEvent (check : Check) : Event := ⟨"debug", "checks", "start", [("check", .text check.id)]⟩

def finishEvent (result : Result) : Event :=
  ⟨if result.status.isFailing then "warn" else "info", "checks", "finish",
    [("check", .text result.check.id), ("status", .text result.status.text),
     ("duration_ms", .int result.milliseconds), ("violations", .int result.violations.length)]⟩

/-- The results of checks, up to the first failing one if that ends the run. -/
def runAll (subject : Subject) (optIn : OptIn) (failFast : Bool) :
    List Check → Checking (List Result)
  | [] => return []
  | check :: checks => do
    Action.log? subject.log (startEvent check)
    let result ← runOne subject optIn check
    Action.log? subject.log (finishEvent result)
    if failFast && result.status.isFailing then return [result]
    else return result :: (← runAll subject optIn failFast checks)

/-- The results of a run, and how long it took. -/
structure Summary where
  results : List Result
  milliseconds : Nat

namespace Summary

def count (summary : Summary) (status : Status) : Nat :=
  summary.results.countP fun result => result.status = status

/-- A run passes if no check fails or breaks off. -/
def status (summary : Summary) : Status :=
  if summary.results.any fun result => result.status.isFailing then .fail else .pass

end Summary

/-- Runs checks on a module. -/
def runChecks (subject : Subject) (checks : List Check) (optIn : OptIn) (failFast : Bool) :
    Action Summary := do
  let started := (← get).milliseconds
  let (results, _) ← (runAll subject optIn failFast checks).run Findings.none
  return ⟨results, (← get).milliseconds - started⟩

theorem statusOf_skip {reason : String} (h : reason.isEmpty = false) :
    statusOf (.skip reason) = .skip := by
  simp [statusOf, Outcome.skip, h]

theorem status_brokenResult (check : Check) (optedIn : Bool) (milliseconds : Nat) (failure : Failure) :
    (brokenResult check optedIn milliseconds failure).status = .error := rfl

end DscAudit.Check

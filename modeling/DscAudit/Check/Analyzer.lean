import DscAudit.Check.Basic
import DscAudit.Rule.Script

/-!
# Checks of scripts by analysis

The script analyzer runs once for all checks that look at its findings.  The rules for parameter
blocks need no tool.
-/

namespace DscAudit.Check.Analyzer

open DscAudit.Tool.Pwsh (Finding)

/-- The path of a script relative to the module, if the script lies in it. -/
def relative? (root directory : Path) (script : String) : Option Path :=
  let path := Path.ofString script
  if path.hasNull then none else (path.resolve directory).relativeTo? (root.resolve directory)

/-- Does the finding concern the module and no excluded directory? -/
def isInScope (subject : Subject) (directory : Path) (finding : Finding) : Bool :=
  finding.script.isEmpty ||
    (relative? subject.root directory finding.script).any fun path =>
      !path.isExcluded subject.config.excludedDirectories

/-- Runs the script analyzer, and gives its findings or why there are none. -/
def analyze (subject : Subject) : Action (Except String (List Finding)) := do
  match ← Tool.Pwsh.find subject.config with
  | none => return .error (Subject.notFound subject.config.powershell.executable)
  | some executable =>
    match ← Tool.Pwsh.analyze? (subject.session executable) with
    | none => return .error "PSScriptAnalyzer module is not installed"
    | some findings =>
      let directory := (← get).directory
      return .ok (findings.filter (isInScope subject directory))

/-- The findings of the script analyzer, which runs once. -/
def findings (subject : Subject) : Checking (Except String (List Finding)) := do
  let known ← get
  match known.analyzer with
  | some findings => return findings
  | none =>
    let findings ← analyze subject
    set { known with analyzer := some findings }
    return findings

/-- The violation that a finding is. -/
def violation (subject : Subject) (directory : Path) (finding : Finding) : Violation :=
  let path :=
    if finding.script.isEmpty then ""
    else ((relative? subject.root directory finding.script).map Path.toString).getD ""
  .atPlace finding.rule (finding.rule ++ ": " ++ finding.message) path finding.line finding.column

/-- The outcome for the findings of some rules. -/
def select (subject : Subject) (isWanted : Finding → Bool) : Checking Outcome := do
  match ← findings subject with
  | .error reason => return .skip reason
  | .ok findings =>
    let wanted := findings.filter isWanted
    let directory := (← getThe Host).directory
    return .found (wanted.map (violation subject directory))
      [("records", .int findings.length), ("selected", .int wanted.length)]

def requiredRules (subject : Subject) : Checking Outcome :=
  select subject fun finding => subject.config.analyzer.requiredRules.contains finding.rule

def flaggedRules (subject : Subject) : Checking Outcome :=
  select subject fun finding => subject.config.analyzer.flaggedRules.contains finding.rule

/-- Is the severity that of an error? -/
def isError (severity : String) : Bool :=
  ["error", "parseerror"].contains (Text.lowerString severity)

def newErrorRules (subject : Subject) : Checking Outcome :=
  let rules := subject.config.analyzer
  let known := rules.requiredRules ++ rules.flaggedRules ++ rules.ignoredRules
  select subject fun finding => isError finding.severity && !known.contains finding.rule

/-- The violation that a finding of the rules for parameter blocks is. -/
def ruleViolation (path : String) (found : Rule.Diagnostic PowerShell.Extent) : Violation :=
  { Violation.atPlace found.rule.text (found.rule.text ++ ": " ++ found.message) path
      found.location.first.line found.location.first.column with
    severity := if found.severity = .information then .info else .error }

def parameterRules (subject : Subject) : Checking Outcome := do
  let files ← File.withSuffix subject.root subject.config.excludedDirectories File.scriptSuffixes
  let violations ← files.mapM fun file => do
    let text := Text.readTextFile (← Action.readFile (subject.path file))
    return (Rule.analyze text).map (ruleViolation file.toString)
  return .found violations.flatten [("files", .int files.length)]

end DscAudit.Check.Analyzer

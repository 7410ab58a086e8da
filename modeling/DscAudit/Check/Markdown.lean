import DscAudit.Check.Formatting
import DscAudit.Tool.MarkdownLint

/-!
# The check that markdown files pass the lint task
-/

namespace DscAudit.Check.Markdown

open DscAudit.Tool (MarkdownIssue)

/-- The violation that an issue is. -/
def violation (issue : MarkdownIssue) : Violation :=
  let name := if issue.otherName.isEmpty then issue.rule else issue.rule ++ "/" ++ issue.otherName
  .atPlace issue.rule (name ++ " " ++ issue.message) issue.path issue.line issue.column

/-- The violations for the result of the task and its issues: a failure without issues is one. -/
def violations (result : CommandResult) (issues : List MarkdownIssue) : List Violation :=
  if result.code ≠ 0 && issues.isEmpty then
    [.ofModule "MARKDOWN_LINT_FAILED" ("markdown lint exited with " ++
      String.ofList (integerText result.code) ++ ": " ++ result.combined)]
  else issues.map violation

def lint (subject : Subject) : Checking Outcome := do
  let files ← Formatting.markdownFiles subject
  if files.isEmpty then return .skip "no markdown files"
  let config := subject.config.markdown
  match ← Action.findTool config.npm with
  | none => return .skip (Subject.notFound config.npm)
  | some npm =>
    let (result, issues) ← Tool.MarkdownLint.run
      ⟨npm, subject.root, subject.evidence.child "markdown", config.timeout, subject.log⟩
    return .found (violations result issues) [("files", .int files.length)]

end DscAudit.Check.Markdown

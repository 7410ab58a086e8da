import DscAudit.Host.Command
import DscAudit.Tool.LintTask
import DscAudit.Tool.MarkdownIssue

/-!
# Running the markdown lint task

The task runs in a directory of its own.  Its packages are installed there first, a second time if
that fails.  A module may bring its own rules.
-/

namespace DscAudit.Tool.MarkdownLint

open Decimal (Binary64)

/-- Where the task runs: the executable that installs packages, the module, the directory of the
task, and how long each process may take. -/
structure Session where
  npm : String
  root : Path
  directory : Path
  timeout : Number
  log : Option LogSettings

/-- Makes the directory of the task with its files. -/
def prepare (directory root : Path) : Action Unit := do
  Action.makeDirectory directory
  for file in LintTask.files do
    Action.writeFile (directory.child file.1) (Text.Utf8.encode file.2.toList)
  let ownRules := root.child LintTask.rulesName
  if ← Action.isFile ownRules then
    Action.copyFile ownRules (directory.child LintTask.rulesName)

def Session.command (session : Session) (words : List String) : Command :=
  ⟨session.npm :: words, session.directory, session.timeout, none⟩

/-- The delay between two attempts to install packages, in seconds. -/
def delay : Binary64 := .ofInt 2

/-- Installs the packages of the task. -/
def install (session : Session) : Action Unit := do
  let command := session.command ["install", "--silent", "--no-audit", "--no-fund"]
  let result ← command.run 2 delay session.log
  if result.code = timeoutCode then
    Action.fail ("npm install timed out after " ++ session.timeout.text ++ "s") .timeout "npm_timeout"
  if result.code ≠ 0 then
    Action.fail ("npm install failed: " ++ result.combined) .prereq "npm_install_failed"

/-- Runs the task, and gives the issues that it prints. -/
def run (session : Session) : Action (CommandResult × List MarkdownIssue) := do
  prepare session.directory session.root
  install session
  let command := session.command
    ["exec", "--", "gulp", "test-mdsyntax", "--silent", "--rootpath", session.root.toString,
     "--dscresourcespath", session.directory.toString]
  let result ← command.runOnce session.log
  if result.code = timeoutCode then
    Action.fail ("markdown lint timed out after " ++ session.timeout.text ++ "s") .timeout
      "markdown_timeout"
  let here := (← get).directory
  return (result, MarkdownIssue.readAll session.root here result.combined.toList)

end DscAudit.Tool.MarkdownLint

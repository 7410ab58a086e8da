import DscAudit.Proofs.Check.Work
import DscAudit.Proofs.Host.Attempt

/-!
# Checks fail closed

Seven checks start processes, by way of two adapters: one runs scripts with PowerShell and takes their
results from a marked line, the other installs and runs the lint task.  Whenever the last attempt of a
command fails, the check breaks off or has found an error.
-/

namespace DscAudit

open DscAudit.Action

namespace Attempt

/-- The process runs a script with PowerShell. -/
def IsScript (call : ProcessCall) : Prop :=
  ∃ executable script, call.command = executable :: Tool.Pwsh.options ++ [script]

/-- The attempt failed: the process was stopped, its tool is not there, it says so itself, or it ran a
script whose result cannot be read. -/
def Failed : Attempt → Prop
  | (_, .timedOut _ _) => True
  | (_, .missing _) => True
  | (call, .finished code output _) =>
    code ≠ 0 ∨ IsScript call ∧ ∃ fault, Tool.ResultLine.read output.toList = .error fault

theorem code_ne_zero_of_failed {command : Command} {ending : ProcessResult}
    (hscript : ¬ IsScript command.call) (hfailed : Failed (command.call, ending)) :
    (command.resultOf ending).code ≠ 0 := by
  cases ending with
  | finished code output errors =>
    rcases hfailed with hcode | ⟨hcall, -⟩
    · exact hcode
    · exact absurd hcall hscript
  | timedOut output errors => simp [Command.resultOf, timeoutCode]
  | missing name => simp [Command.resultOf, missingCode]

theorem not_isScript {call : ProcessCall} {executable word : String} {words : List String}
    (hcall : call.command = executable :: word :: words) (hword : word ≠ "-NoLogo") :
    ¬ IsScript call := by
  rintro ⟨executable', script, hscript⟩
  rw [hcall] at hscript
  simp only [Tool.Pwsh.options, List.cons_append, List.cons.injEq] at hscript
  exact hword hscript.2.1

end Attempt

open Attempt (Failed)

/-! ## Scripts -/

namespace Tool.Pwsh

/-- The result of a process that does not have the result of a script. -/
def IsUnusable (result : CommandResult) : Prop :=
  result.code ≠ 0 ∨ ∃ fault, ResultLine.read result.output.toList = .error fault

theorem isUnusable_of_failed {command : Command} {ending : ProcessResult}
    (hfailed : Failed (command.call, ending)) : IsUnusable (command.resultOf ending) := by
  cases ending with
  | finished code output errors => exact hfailed.imp_right fun hread => hread.2
  | timedOut output errors => exact .inl (by simp [Command.resultOf, timeoutCode])
  | missing name => exact .inl (by simp [Command.resultOf, missingCode])

/-- A script whose process failed, or whose result is unreadable, gives nothing. -/
theorem strict_run (session : Session) (script : String) (overrides : List (String × String)) :
    Strict Failed (run session script overrides) := by
  unfold run
  refine .bind_strict (.of_reads .get) fun host => ?_
  have hcommand := fun command : Command =>
    command.failsClosed_run 0 (.finite false 0) session.log fun _ => isUnusable_of_failed
  refine .bind (hcommand _) (fun result => ?_) fun result hresult => ?_
  · refine .of_reads (.guard (does_fail _ _ _) fun _ => .guard (does_fail _ _ _) fun _ => ?_)
    split
    · exact .pure _
    · exact does_fail _ _ _
  · -- each of the three conditions ends the step
    by_cases htimeout : result.code = timeoutCode
    · simp only [if_pos htimeout]
      exact .of_fails (.of_throw _)
    by_cases hcode : result.code = 0
    · simp only [if_neg htimeout, if_neg (not_not.mpr hcode)]
      obtain ⟨fault, hread⟩ := hresult.resolve_left (not_not.mpr hcode)
      simp only [hread]
      exact .of_throw _
    · simp only [if_neg htimeout, if_pos hcode]
      exact .of_fails (.of_throw _)

end Tool.Pwsh

/-! ## The lint task -/

namespace Tool.MarkdownLint

theorem strict_prepare (directory root : Path) : Strict Failed (prepare directory root) := by
  refine .of_local (does_prepare root ?_ ?_ ?_)
  · exact does_makeDirectory fun _ _ _ _ _ _ _ => trivial
  · exact fun name _ content => does_writeFile content fun _ _ _ _ => trivial
  · exact fun source => does_copyFile source fun _ _ _ _ _ => trivial

theorem failsClosed_command (session : Session) {word : String} (hword : word ≠ "-NoLogo")
    (words : List String) (left : Nat) (delay : Decimal.Binary64) :
    FailsClosed Failed (fun result => result.code ≠ 0)
      ((session.command (word :: words)).run (left + 1) delay session.log) :=
  Command.failsClosed_run _ _ _ _ fun _ =>
    Attempt.code_ne_zero_of_failed (Attempt.not_isScript rfl hword)

theorem strict_install (session : Session) : Strict Failed (install session) := by
  have hcommand := failsClosed_command session (by decide : "install" ≠ "-NoLogo")
    ["--silent", "--no-audit", "--no-fund"] 1 delay
  unfold install
  refine .bind hcommand (fun result => ?_) fun result hcode => ?_
  · exact .of_reads (.guard (does_fail _ _ _) fun _ => .ite (fun _ => does_fail _ _ _)
      fun _ => .pure _)
  · by_cases htimeout : result.code = timeoutCode
    · simp only [if_pos htimeout]
      exact .of_fails (.of_throw _)
    · simp only [if_neg htimeout, if_pos hcode]
      exact .of_throw _

/-- A lint task that failed gives a result with a code of failure, if it gives one. -/
theorem failsClosed_run (session : Session) :
    FailsClosed Failed (fun found => found.1.code ≠ 0) (run session) := by
  have hcommand := failsClosed_command session (by decide : "exec" ≠ "-NoLogo")
    ["--", "gulp", "test-mdsyntax", "--silent", "--rootpath", session.root.toString,
     "--dscresourcespath", session.directory.toString] 0 (.finite false 0)
  unfold run
  refine .bind_strict (strict_prepare _ _) fun _ => .bind_strict (strict_install session) fun _ => ?_
  refine .bind hcommand (fun result => ?_) fun result hcode => ?_
  · exact .of_reads (.guard (does_fail _ _ _) fun _ => .get_bind fun _ => .pure _)
  · by_cases htimeout : result.code = timeoutCode
    · simp only [if_pos htimeout]
      exact .of_fails (.of_throw _)
    · simp only [if_neg htimeout]
      exact .bind (.always _) fun _ _ => .of_pure hcode

end Tool.MarkdownLint

/-! ## Checks -/

namespace Check

open Checking

/-- The check was made and found an error. -/
def HasError (outcome : Outcome) : Prop :=
  outcome.skipped = "" ∧ ∃ violation ∈ outcome.violations, violation.severity = .error

theorem suits_strict (subject : Subject) : Suits subject fun _ => Strict Failed where
  compositional := Strict.compositional Failed
  reads := .of_reads
  script := Tool.Pwsh.strict_run
  directory := .of_local (does_makeDirectory fun _ _ _ _ _ _ _ => trivial)

theorem hasError_violations {result : CommandResult} (hcode : result.code ≠ 0)
    (issues : List Tool.MarkdownIssue) (metrics : Table) :
    HasError (.found (Markdown.violations result issues) metrics) := by
  refine ⟨rfl, ?_⟩
  show ∃ violation ∈ Markdown.violations result issues, _
  unfold Markdown.violations
  cases issues with
  | nil =>
    simp only [List.isEmpty_nil, Bool.and_true, decide_eq_true_eq, if_pos hcode]
    exact ⟨_, List.mem_singleton_self _, Violation.severity_normalize _⟩
  | cons issue issues =>
    simp only [List.isEmpty_cons, Bool.and_false, Bool.false_eq_true, if_false]
    exact ⟨Markdown.violation issue, by simp, Violation.severity_normalize _⟩

theorem failsClosed_lint (subject : Subject) (known : Findings) :
    FailsClosed Failed (fun found => HasError found.1) ((Markdown.lint subject).run known) := by
  have hsuits := suits_strict subject
  have hfiles := hsuits.liftReads
    (File.reads_withSuffix subject.root subject.config.excludedDirectories [".md"])
  have htool := hsuits.liftReads (reads_findTool subject.config.markdown.npm)
  have hskip : ∀ reason known,
      FailsClosed Failed (fun found : Outcome × Findings => HasError found.1)
        ((return .skip reason : Checking Outcome).run known) :=
    fun _ _ => .of_reads (.pure _)
  have htask : ∀ session known,
      FailsClosed Failed (fun found => found.1.1.code ≠ 0)
        ((liftM (Tool.MarkdownLint.run session) : Checking _).run known) := fun session known =>
    (Tool.MarkdownLint.failsClosed_run session).bind (fun _ => .of_reads (.pure _))
      fun _ hcode => .of_pure hcode
  unfold Markdown.lint
  refine .bind_strict (hfiles known) fun ⟨files, known⟩ => ?_
  dsimp only
  split
  · exact hskip _ _
  refine .bind_strict (htool known) fun ⟨found, known⟩ => ?_
  cases found with
  | none => exact hskip _ _
  | some npm =>
    refine .bind (htask _ known) (fun _ => .of_reads (.pure _)) fun found hcode => ?_
    exact .of_pure (hasError_violations hcode _ _)

/-- Whatever the module, the configuration, the results of processes and what is known already: if a
last attempt of a check failed, the check breaks off or has found an error. -/
theorem check_fails_closed {check : Check} (hcheck : check ∈ all) (subject : Subject)
    (known : Findings) (host : Host) {ending : Except Failure (Outcome × Findings)} {after : Host}
    (hrun : ((check.run subject).run known).exec host = (ending, after)) {attempt : Attempt}
    (hlast : attempt ∈ Attempt.last (host.attempts after)) (hfailed : Failed attempt) :
    (∃ failure, ending = .error failure) ∨
      ∃ outcome known', ending = .ok (outcome, known') ∧ HasError outcome := by
  have hcloses : FailsClosed Failed (fun found : Outcome × Findings => HasError found.1)
      ((check.run subject).run known) := by
    rcases (suits_strict subject).lint_or_always hcheck with hlint | hstrict
    · rw [hlint]
      exact failsClosed_lint subject known
    · intro host
      obtain ⟨calls, hcalls, hfails⟩ := hstrict known host
      exact ⟨calls, hcalls, fun hfailed found hfound => (hfails hfailed found hfound).elim⟩
  obtain ⟨calls, hcalls, hshows⟩ := hcloses host
  rw [hrun] at hcalls hshows
  rw [hcalls.attempts_eq] at hlast
  cases ending with
  | error failure => exact .inl ⟨failure, rfl⟩
  | ok found => exact .inr ⟨found.1, found.2, rfl, hshows ⟨attempt, hlast, hfailed⟩ found rfl⟩

/-- A host on which PowerShell can be found and ends with a code of failure. -/
def failingHost : Host :=
  { Host.holding ⟨[]⟩ ⟨.slash, []⟩ with
    tools := [("pwsh", "/bin/pwsh")], results := [.finished 1 "" ""] }

theorem analyzer_fails_closed :
    ∃ ending after,
      ((Analyzer.requiredRules (Subject.ofModule "m")).run Findings.none).exec failingHost = (ending, after) ∧
      (∃ attempt ∈ Attempt.last (failingHost.attempts after), Failed attempt) ∧
      ((∃ failure, ending = .error failure) ∨
        ∃ outcome known', ending = .ok (outcome, known') ∧ HasError outcome) := by
  have hmem : analyzerChecks.head (List.cons_ne_nil _ _) ∈ all := by
    simp [all, analyzerChecks]
  have hlast : _ ∈ Attempt.last (failingHost.attempts
      (((Analyzer.requiredRules (Subject.ofModule "m")).run Findings.none).exec failingHost).2) :=
    List.mem_singleton_self _
  have hfailed : ∀ call, Failed (call, .finished 1 "" "") := fun _ => .inl (by decide)
  exact ⟨_, _, rfl, ⟨_, hlast, hfailed _⟩,
    check_fails_closed hmem (Subject.ofModule "m") Findings.none failingHost rfl hlast (hfailed _)⟩

end Check

end DscAudit

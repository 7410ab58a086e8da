import DscAudit.Proofs.Check.OptIn
import DscAudit.Proofs.Check.Step

/-!
# The course of a run

A run without an early end goes from one stage to the next: it logs that a check starts, makes the
check, and logs how the check has finished.  Its results are what the checks come to at their stages.
Two runs are compared by the stages that they go through.
-/

namespace DscAudit.Check

open DscAudit.Action

/-! ## What is made of an outcome -/

/-- The outcome fails a check that needs an opt-in and has none, so its errors become warnings. -/
def IsDowngraded (check : Check) (optedIn : Bool) (outcome : Outcome) : Prop :=
  statusOf outcome = .fail ∧ check.optIn = true ∧ optedIn = false

instance (check : Check) (optedIn : Bool) (outcome : Outcome) :
    Decidable (check.IsDowngraded optedIn outcome) :=
  inferInstanceAs (Decidable (_ ∧ _))

theorem resultOf_of_isDowngraded {check : Check} {optedIn : Bool} {outcome : Outcome}
    (hdowngraded : check.IsDowngraded optedIn outcome) (milliseconds : Nat) :
    resultOf check optedIn milliseconds outcome =
      ⟨check, .pass,
        (Violation.sort outcome.violations).filter fun violation => violation.severity ≠ .error,
        outcome.warnings ++ ((Violation.sort outcome.violations).filter fun violation =>
          violation.severity = .error).map Violation.render,
        milliseconds, optedIn, outcome.skipped, outcome.metrics⟩ := by
  obtain ⟨hfail, hneeds, hwithout⟩ := hdowngraded
  simp [resultOf, hfail, hneeds, hwithout]

theorem resultOf_of_not_isDowngraded {check : Check} {optedIn : Bool} {outcome : Outcome}
    (hkept : ¬ check.IsDowngraded optedIn outcome) (milliseconds : Nat) :
    resultOf check optedIn milliseconds outcome =
      ⟨check, statusOf outcome, Violation.sort outcome.violations, outcome.warnings, milliseconds,
        optedIn, outcome.skipped, outcome.metrics⟩ := by
  have hnot : (decide (statusOf outcome = .fail) && check.optIn && !optedIn) = false := by
    simpa [IsDowngraded, and_assoc] using hkept
  simp only [resultOf, hnot, Bool.false_eq_true, if_false]

/-! ## Stages -/

/-- Where a run is between two steps: what it has found out, and its host. -/
structure Stage where
  known : Findings
  host : Host

namespace Stage

variable (subject : Subject) (optIn : OptIn)

/-- How a check ends at the stage. -/
def ending (stage : Stage) (check : Check) : Except Failure Outcome :=
  (((check.run subject).run stage.known).exec stage.host).1.map (·.1)

/-- The stage behind the work of a check. -/
def made (stage : Stage) (check : Check) : Stage where
  known := knownAfter stage.known (((check.run subject).run stage.known).exec stage.host).1
  host := (((check.run subject).run stage.known).exec stage.host).2

/-- How many milliseconds a check takes at the stage. -/
def duration (stage : Stage) (check : Check) : Nat :=
  (stage.made subject check).host.milliseconds - stage.host.milliseconds

/-- The stage behind a line of the log. -/
def logged (stage : Stage) (event : Event) : Stage :=
  { stage with host := ((Action.log? subject.log event).exec stage.host).2 }

/-- The stage at which a check is made. -/
def started (stage : Stage) (check : Check) : Stage := stage.logged subject (startEvent check)

/-- The result of a check that the run comes to next. -/
def result (stage : Stage) (check : Check) : Result :=
  let started := stage.started subject check
  resultOfEnding optIn check (started.duration subject check) (started.ending subject check)

/-- The stage behind a check. -/
def next (stage : Stage) (check : Check) : Stage :=
  ((stage.started subject check).made subject check).logged subject
    (finishEvent (stage.result subject optIn check))

/-- The results of checks that are made one after the other. -/
def results (stage : Stage) : List Check → List Result
  | [] => []
  | check :: checks =>
    stage.result subject optIn check :: (stage.next subject optIn check).results checks

/-- The stage behind all checks. -/
def last (stage : Stage) : List Check → Stage
  | [] => stage
  | check :: checks => (stage.next subject optIn check).last checks

variable {subject : Subject} {optIn : OptIn}

@[simp] theorem check_result (stage : Stage) (check : Check) :
    (stage.result subject optIn check).check = check :=
  check_resultOfEnding _ _ _ _

theorem map_check_results (stage : Stage) (checks : List Check) :
    (stage.results subject optIn checks).map (·.check) = checks := by
  induction checks generalizing stage with
  | nil => rfl
  | cons check checks ih => rw [results, List.map_cons, check_result, ih]

/-! ## What logging changes -/

theorem exec_log?_logged (subject : Subject) (stage : Stage) (event : Event) :
    (Action.log? subject.log event).exec stage.host =
      (.ok (), (stage.logged subject event).host) := by
  obtain ⟨after, hlog, -⟩ := Command.exec_log? subject.log event stage.host
  rw [logged, hlog]

/-- A line of the log goes to the stream for errors, and changes nothing else. -/
theorem host_logged (subject : Subject) (stage : Stage) (event : Event) :
    ∃ errors, (stage.logged subject event).host = { stage.host with errors := errors } := by
  obtain ⟨after, hlog, logs, rfl⟩ := Command.exec_log? subject.log event stage.host
  refine ⟨stage.host.errors ++ logs, ?_⟩
  rw [logged, hlog]
  simp

@[simp] theorem milliseconds_logged (stage : Stage) (event : Event) :
    (stage.logged subject event).host.milliseconds = stage.host.milliseconds := by
  obtain ⟨errors, hhost⟩ := host_logged subject stage event
  rw [hhost]

/-! ## Runs -/

theorem exec_runAll_cons_eq (stage : Stage) (check : Check) (failFast : Bool)
    (checks : List Check) :
    ((runAll subject optIn failFast (check :: checks)).run stage.known).exec stage.host =
      ((goOn subject optIn failFast checks (stage.result subject optIn check)).run
        (stage.next subject optIn check).known).exec (stage.next subject optIn check).host := by
  have hstart := exec_log?_logged subject stage (startEvent check)
  have hone : ((runOne subject optIn check).run stage.known).exec
      (stage.logged subject (startEvent check)).host =
        (.ok (stage.result subject optIn check, ((stage.started subject check).made subject check).known),
          ((stage.started subject check).made subject check).host) :=
    exec_runOne_eq subject optIn check stage.known _
  have hfinish := exec_log?_logged subject
    ((stage.started subject check).made subject check)
    (finishEvent (stage.result subject optIn check))
  rw [runAll, Checking.exec_bind_ok (Checking.exec_lift_ok hstart _), Checking.exec_bind_ok hone,
    Checking.exec_bind_ok (Checking.exec_lift_ok hfinish _)]
  rfl

/-- A run without an early end goes through its stages. -/
theorem exec_runAll (stage : Stage) (checks : List Check) :
    ((runAll subject optIn false checks).run stage.known).exec stage.host =
      (.ok (stage.results subject optIn checks, (stage.last subject optIn checks).known),
        (stage.last subject optIn checks).host) := by
  induction checks generalizing stage with
  | nil => rfl
  | cons check checks ih =>
    rw [exec_runAll_cons_eq, exec_goOn rfl (ih (stage.next subject optIn check))]
    rfl

/-- The stage at which a run begins. -/
def first (host : Host) : Stage := ⟨Findings.none, host⟩

theorem exec_runChecks (checks : List Check) (host : Host) :
    (runChecks subject checks optIn false).exec host =
      (.ok ⟨(first host).results subject optIn checks,
          ((first host).last subject optIn checks).host.milliseconds - host.milliseconds⟩,
        ((first host).last subject optIn checks).host) :=
  exec_runChecks_of_runAll (exec_runAll (first host) checks)

end Stage

/-!
## Opting in to more checks

A module that opts in to more checks has nothing reported to it less.  What a check does is the same in
both runs, since they differ in nothing but lines of the log that a check does not look at, and what is
made of its outcome changes only for a check that needs an opt-in: warnings become the errors that
they were, and its status goes from passing to failing.
-/

/-- The stages have everything in common but what was written to the stream for errors. -/
def Stage.SameButErrors (stage other : Stage) : Prop :=
  ∃ errors, other = { stage with host := { stage.host with errors := errors } }

/-- How the check ends, and what it does, does not depend on what was written to the stream for
errors. -/
def IsDeterministic (subject : Subject) (check : Check) : Prop :=
  ∀ stage other : Stage, stage.SameButErrors other →
    other.ending subject check = stage.ending subject check ∧
    (stage.made subject check).SameButErrors (other.made subject check)

/-- The second result is what the first one becomes when the module opts in to more. -/
structure IsWidened (fewer more : OptIn) (before after : Result) : Prop where
  check : after.check = before.check
  optedIn : before.optedIn = isOptedIn before.check fewer ∧
    after.optedIn = isOptedIn before.check more
  status : after.status = before.status ∨
    (before.check.optIn = true ∧ before.optedIn = false ∧ after.optedIn = true ∧
      before.status = .pass ∧ after.status = .fail)
  same : before.check.optIn = false → after = { before with optedIn := after.optedIn }

variable {subject : Subject} {fewer more : OptIn}

/-! ### One result -/

theorem isOptedIn_mono (hmore : ∀ name, fewer.contains name = true → more.contains name = true)
    {check : Check} (hfewer : isOptedIn check fewer = true) : isOptedIn check more = true := by
  simp only [isOptedIn, Bool.or_eq_true] at hfewer ⊢
  exact hfewer.imp (hmore _) (hmore _)

theorem isWidened_resultOfEnding
    (hmore : ∀ name, fewer.contains name = true → more.contains name = true) (check : Check)
    (milliseconds : Nat) (ending : Except Failure Outcome) :
    IsWidened fewer more (resultOfEnding fewer check milliseconds ending)
      (resultOfEnding more check milliseconds ending) := by
  rcases ending with failure | outcome
  · exact ⟨rfl, ⟨rfl, rfl⟩, .inl rfl, fun _ => rfl⟩
  simp only [resultOfEnding]
  -- an outcome that is downgraded although more names count is downgraded when fewer count
  by_cases hmany : check.IsDowngraded (isOptedIn check more) outcome
  · have hfew : check.IsDowngraded (isOptedIn check fewer) outcome := by
      refine ⟨hmany.1, hmany.2.1, ?_⟩
      by_contra hwanted
      have hstill := isOptedIn_mono hmore (by simpa using hwanted)
      simp [hmany.2.2] at hstill
    rw [resultOf_of_isDowngraded hmany, resultOf_of_isDowngraded hfew]
    exact ⟨rfl, ⟨rfl, rfl⟩, .inl rfl, fun _ => rfl⟩
  by_cases hfew : check.IsDowngraded (isOptedIn check fewer) outcome
  · rw [resultOf_of_not_isDowngraded hmany, resultOf_of_isDowngraded hfew]
    obtain ⟨hfail, hneeds, hwithout⟩ := hfew
    have hwanted : isOptedIn check more = true := by
      simpa [IsDowngraded, hfail, hneeds] using hmany
    refine ⟨rfl, ⟨rfl, rfl⟩, .inr ⟨hneeds, hwithout, hwanted, rfl, hfail⟩, ?_⟩
    intro hfree
    exact absurd hneeds (by simpa using hfree)
  · rw [resultOf_of_not_isDowngraded hmany, resultOf_of_not_isDowngraded hfew]
    exact ⟨rfl, ⟨rfl, rfl⟩, .inl rfl, fun _ => rfl⟩

/-! ### Stages of both runs -/

namespace Stage.SameButErrors

variable {stage other : Stage}

theorem logged (hsame : stage.SameButErrors other) (event event' : Event) :
    (stage.logged subject event).SameButErrors (other.logged subject event') := by
  obtain ⟨errors, rfl⟩ := hsame
  obtain ⟨before, hbefore⟩ := host_logged subject stage event
  obtain ⟨after, hafter⟩ := host_logged subject
    { stage with host := { stage.host with errors := errors } } event'
  refine ⟨after, ?_⟩
  rw [Stage.mk.injEq]
  exact ⟨rfl, by rw [hafter, hbefore]⟩

theorem duration (hsame : stage.SameButErrors other) {check : Check}
    (hmade : (stage.made subject check).SameButErrors (other.made subject check)) :
    other.duration subject check = stage.duration subject check := by
  obtain ⟨errors, rfl⟩ := hsame
  obtain ⟨after, hafter⟩ := hmade
  rw [Stage.duration, hafter]
  rfl

/-- One step of both runs. -/
theorem step (hsame : stage.SameButErrors other) {check : Check}
    (hmore : ∀ name, fewer.contains name = true → more.contains name = true)
    (hcheck : check.IsDeterministic subject) :
    IsWidened fewer more (stage.result subject fewer check) (other.result subject more check) ∧
    (stage.next subject fewer check).SameButErrors (other.next subject more check) := by
  have hstarted : (stage.started subject check).SameButErrors (other.started subject check) :=
    hsame.logged _ _
  obtain ⟨hending, hmade⟩ := hcheck _ _ hstarted
  refine ⟨?_, hmade.logged _ _⟩
  rw [Stage.result, Stage.result, hstarted.duration hmade, hending]
  exact isWidened_resultOfEnding hmore check _ _

end Stage.SameButErrors

/-- The results of both runs, one by one, and where both runs come to. -/
theorem forall₂_isWidened
    (hmore : ∀ name, fewer.contains name = true → more.contains name = true) {checks : List Check}
    (hchecks : ∀ check ∈ checks, check.IsDeterministic subject) {stage other : Stage}
    (hsame : stage.SameButErrors other) :
    List.Forall₂ (IsWidened fewer more) (stage.results subject fewer checks)
      (other.results subject more checks) ∧
    (stage.last subject fewer checks).SameButErrors (other.last subject more checks) := by
  induction checks generalizing stage other with
  | nil => exact ⟨.nil, hsame⟩
  | cons check checks ih =>
    obtain ⟨hresult, hnext⟩ := hsame.step hmore (hchecks check (by simp))
    obtain ⟨hresults, hlast⟩ := ih (fun other hother => hchecks other (by simp [hother])) hnext
    exact ⟨.cons hresult hresults, hlast⟩

/-- A run in which some check fails still fails when the module opts in to more. -/
theorem status_of_isWidened {before after : Summary}
    (hresults : List.Forall₂ (IsWidened fewer more) before.results after.results)
    (hfail : before.status = .fail) : after.status = .fail := by
  obtain ⟨results, milliseconds⟩ := before
  obtain ⟨results', milliseconds'⟩ := after
  dsimp only at hresults
  have hany : (results.any fun result => result.status.isFailing) = true →
      (results'.any fun result => result.status.isFailing) = true := by
    clear hfail
    induction hresults with
    | nil => exact fun hnone => hnone
    | @cons result result' results results' hresult _ ih =>
      simp only [List.any_cons, Bool.or_eq_true]
      refine Or.imp (fun hfails => ?_) ih
      rcases hresult.status with hstatus | ⟨-, -, -, hpass, -⟩
      · rwa [hstatus]
      · rw [hpass] at hfails
        cases hfails
  simp only [Summary.status, ite_eq_left_iff, reduceCtorEq, imp_false, not_not] at hfail ⊢
  simpa using hany (by simpa using hfail)

/-- When a module opts in to more, every result of a run without an early end keeps its status, but for
a check that needs an opt-in and now has one, which may fail where it passed.  The result of a check
that needs none stays as it is, and a run that fails still fails. -/
theorem optIn_monotone (subject : Subject) {fewer more : OptIn}
    (hmore : ∀ name, fewer.contains name = true → more.contains name = true) (checks : List Check)
    (hchecks : ∀ check ∈ checks, check.IsDeterministic subject) (host : Host) :
    ∃ summary summary' after after',
      (runChecks subject checks fewer false).exec host = (.ok summary, after) ∧
      (runChecks subject checks more false).exec host = (.ok summary', after') ∧
      summary.results.map (·.check) = checks ∧ summary'.results.map (·.check) = checks ∧
      List.Forall₂ (IsWidened fewer more) summary.results summary'.results ∧
      summary'.milliseconds = summary.milliseconds ∧
      (summary.status = .fail → summary'.status = .fail) := by
  have hsame : (Stage.first host).SameButErrors (Stage.first host) := ⟨host.errors, rfl⟩
  obtain ⟨hresults, errors, hlast⟩ := forall₂_isWidened hmore hchecks hsame
  refine ⟨_, _, _, _, Stage.exec_runChecks checks host, Stage.exec_runChecks checks host,
    Stage.map_check_results _ _, Stage.map_check_results _ _, hresults, ?_,
    status_of_isWidened hresults⟩
  rw [hlast]

theorem isDeterministic_optInCheck (subject : Subject) (id : String)
    (ending : Except Failure Outcome) : (optInCheck id ending).IsDeterministic subject := by
  rintro stage other ⟨errors, rfl⟩
  cases ending <;> exact ⟨rfl, errors, rfl⟩

/-- A run that logs, of a check with an error: it passes without the opt-in and fails with it. -/
theorem optIn_monotone_error :
    let subject : Subject := { Subject.ofModule "m" with log := some ⟨"run", true, false, false⟩ }
    let checks := [optInCheck "x/a" (.ok errorOutcome)]
    (∀ name, (OptIn.mk []).contains name = true → (OptIn.mk ["x/a"]).contains name = true) ∧
    (∀ check ∈ checks, check.IsDeterministic subject) ∧
    ∃ summary summary' after after',
      (runChecks subject checks ⟨[]⟩ false).exec (.holding ⟨[]⟩ ⟨.slash, []⟩) =
        (.ok summary, after) ∧
      (runChecks subject checks ⟨["x/a"]⟩ false).exec (.holding ⟨[]⟩ ⟨.slash, []⟩) =
        (.ok summary', after') ∧
      List.Forall₂ (IsWidened ⟨[]⟩ ⟨["x/a"]⟩) summary.results summary'.results ∧
      summary.status = .pass ∧ summary'.status = .fail := by
  intro subject checks
  have hmore : ∀ name, (OptIn.mk []).contains name = true →
      (OptIn.mk ["x/a"]).contains name = true := by
    intro name hname
    simp [OptIn.contains] at hname
  have hchecks : ∀ check ∈ checks, check.IsDeterministic subject := by
    intro check hcheck
    rw [List.mem_singleton.mp hcheck]
    exact isDeterministic_optInCheck _ _ _
  obtain ⟨summary, summary', after, after', hexec, hexec', -, -, hresults, -, -⟩ :=
    optIn_monotone subject hmore checks hchecks (.holding ⟨[]⟩ ⟨.slash, []⟩)
  have hpass : some Status.pass = some summary.status :=
    congrArg (fun ran => ran.1.toOption.map Summary.status) hexec
  have hfail : some Status.fail = some summary'.status :=
    congrArg (fun ran => ran.1.toOption.map Summary.status) hexec'
  exact ⟨hmore, hchecks, summary, summary', after, after', hexec, hexec', hresults,
    (Option.some.inj hpass).symm, (Option.some.inj hfail).symm⟩

end DscAudit.Check

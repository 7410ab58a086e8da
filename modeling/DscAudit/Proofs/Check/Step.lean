import DscAudit.Proofs.Check.Composition
import DscAudit.Proofs.Host.Attempt

/-!
# A run, check by check

A check always has a result, which tells how the check ended.  What a run does with its first check
does not depend on the checks behind it, nor on whether a failing check ends the run; only what comes
next does.
-/

namespace DscAudit.Check

open DscAudit.Action

/-- The result of a check that ended like this. -/
def resultOfEnding (optIn : OptIn) (check : Check) (milliseconds : Nat) :
    Except Failure Outcome → Result
  | .ok outcome => resultOf check (isOptedIn check optIn) milliseconds outcome
  | .error failure => brokenResult check (isOptedIn check optIn) milliseconds failure

/-! ## One result -/

@[simp] theorem check_resultOfEnding (optIn : OptIn) (check : Check) (milliseconds : Nat)
    (ending : Except Failure Outcome) :
    (resultOfEnding optIn check milliseconds ending).check = check := by
  rcases ending with failure | outcome
  · rfl
  · simp only [resultOfEnding, resultOf]
    split <;> rfl

theorem status_resultOfEnding (optIn : OptIn) (check : Check) (milliseconds : Nat)
    (ending : Except Failure Outcome) :
    (resultOfEnding optIn check milliseconds ending).status =
      (resultOfEnding optIn check 0 ending).status := by
  rcases ending with failure | outcome
  · rfl
  · simp only [resultOfEnding, resultOf]
    split <;> rfl

theorem statusOf_ne_error (outcome : Outcome) : statusOf outcome ≠ .error := by
  unfold statusOf
  split
  · simp
  · split <;> simp

/-! ## One check -/

/-- What is known after a step.  A step that breaks off leaves what was known before it. -/
def knownAfter (known : Findings) : Except Failure (Outcome × Findings) → Findings
  | .ok found => found.2
  | .error _ => known

/-- A check always has a result, which tells how it ended and how long it took. -/
theorem exec_runOne_eq (subject : Subject) (optIn : OptIn) (check : Check) (known : Findings)
    (host : Host) :
    ((runOne subject optIn check).run known).exec host =
      (.ok (resultOfEnding optIn check
          ((((check.run subject).run known).exec host).2.milliseconds - host.milliseconds)
          ((((check.run subject).run known).exec host).1.map (·.1)),
          knownAfter known (((check.run subject).run known).exec host).1),
        (((check.run subject).run known).exec host).2) := by
  have hattempt := exec_attempt (check.run subject) known host
  rcases hend : ((check.run subject).run known).exec host with ⟨failure | ⟨outcome, known'⟩, after⟩
  · rw [hend] at hattempt
    show exec ((attempt (check.run subject)).run known >>= _) host = _
    rw [exec_bind_ok hattempt]
    rfl
  · rw [hend] at hattempt
    show exec ((attempt (check.run subject)).run known >>= _) host = _
    rw [exec_bind_ok hattempt]
    rfl

theorem exec_runOne (subject : Subject) (optIn : OptIn) (check : Check) (known : Findings)
    (host : Host) :
    ∃ milliseconds,
      ((runOne subject optIn check).run known).exec host =
        (.ok (resultOfEnding optIn check milliseconds
            ((((check.run subject).run known).exec host).1.map (·.1)),
            knownAfter known (((check.run subject).run known).exec host).1),
          (((check.run subject).run known).exec host).2) :=
  ⟨_, exec_runOne_eq subject optIn check known host⟩

/-! ## The first check of a run -/

/-- How a run goes on behind a check with a result. -/
def goOn (subject : Subject) (optIn : OptIn) (failFast : Bool) (checks : List Check)
    (result : Result) : Checking (List Result) :=
  if failFast && result.status.isFailing then return [result]
  else return result :: (← runAll subject optIn failFast checks)

/-- A run begins with the line that its first check starts, the check, and the line that it has
finished, whatever comes next. -/
theorem exec_runAll_cons (subject : Subject) (optIn : OptIn) (check : Check) (known : Findings)
    (host : Host) :
    ∃ started milliseconds finished,
      host.Starts [] started ∧
      (((check.run subject).run known).exec started).2.Starts [] finished ∧
      ∀ failFast checks,
        ((runAll subject optIn failFast (check :: checks)).run known).exec host =
          ((goOn subject optIn failFast checks (resultOfEnding optIn check milliseconds
              ((((check.run subject).run known).exec started).1.map (·.1)))).run
            (knownAfter known (((check.run subject).run known).exec started).1)).exec finished := by
  obtain ⟨started, hstart, hstarts⟩ := Command.exec_log? subject.log (startEvent check) host
  obtain ⟨milliseconds, hone⟩ := exec_runOne subject optIn check known started
  obtain ⟨finished, hfinish, hfinishes⟩ := Command.exec_log? subject.log
    (finishEvent (resultOfEnding optIn check milliseconds
      ((((check.run subject).run known).exec started).1.map (·.1))))
    (((check.run subject).run known).exec started).2
  refine ⟨started, milliseconds, finished, hstarts, hfinishes, fun failFast checks => ?_⟩
  rw [runAll, Checking.exec_bind_ok (Checking.exec_lift_ok hstart known), Checking.exec_bind_ok hone,
    Checking.exec_bind_ok (Checking.exec_lift_ok hfinish _)]
  rfl

/-- A run that goes on has the results of the other checks behind the one that it has. -/
theorem exec_goOn {subject : Subject} {optIn : OptIn} {failFast : Bool} {checks : List Check}
    {result : Result} (hgoes : (failFast && result.status.isFailing) = false) {known known' : Findings}
    {host after : Host} {results : List Result}
    (hrest : ((runAll subject optIn failFast checks).run known).exec host =
      (.ok (results, known'), after)) :
    ((goOn subject optIn failFast checks result).run known).exec host =
      (.ok (result :: results, known'), after) := by
  unfold goOn
  simp only [hgoes, Bool.false_eq_true, if_false]
  rw [Checking.exec_bind_ok hrest]
  rfl

theorem exec_goOn_failing {subject : Subject} {optIn : OptIn} (checks : List Check) {result : Result}
    (hfails : result.status.isFailing = true) (known : Findings) (host : Host) :
    ((goOn subject optIn true checks result).run known).exec host = (.ok ([result], known), host) := by
  unfold goOn
  simp only [hfails, Bool.and_self, if_true]
  rfl

theorem exec_runChecks_of_runAll {subject : Subject} {optIn : OptIn} {failFast : Bool}
    {checks : List Check} {host after : Host} {results : List Result} {known : Findings}
    (hall : ((runAll subject optIn failFast checks).run Findings.none).exec host =
      (.ok (results, known), after)) :
    (runChecks subject checks optIn failFast).exec host =
      (.ok ⟨results, after.milliseconds - host.milliseconds⟩, after) := by
  unfold runChecks
  rw [exec_get_bind, Action.exec_bind_ok hall]
  rfl

/-!
## Runs that end early

A run that ends at the first failing check has the results that a run of all checks has up to there.
Both runs do the same to the host and to what is known until that check has its result, whatever the
checks do, so the check has the same result in both; behind it the early end leaves out results, and
none of these can change that the run fails.
-/

variable {subject : Subject} {optIn : OptIn}

/-- The results up to the first failing one, all of them if none fails. -/
def uptoFailing : List Result → List Result
  | [] => []
  | result :: results =>
    if result.status.isFailing then [result] else result :: uptoFailing results

/-- A list is passing results, then perhaps a failing one and what comes behind it. -/
theorem uptoFailing_cases (results : List Result) :
    ((∀ result ∈ results, result.status.isFailing = false) ∧ uptoFailing results = results) ∨
    ∃ passing failing behind, results = passing ++ failing :: behind ∧
      (∀ result ∈ passing, result.status.isFailing = false) ∧ failing.status.isFailing = true ∧
      uptoFailing results = passing ++ [failing] := by
  induction results with
  | nil => exact .inl ⟨by simp, rfl⟩
  | cons result results ih =>
    by_cases hfails : result.status.isFailing = true
    · exact .inr ⟨[], result, results, rfl, by simp, hfails, by simp [uptoFailing, hfails]⟩
    · have hpasses : result.status.isFailing = false := by simpa using hfails
      have hstep : uptoFailing (result :: results) = result :: uptoFailing results := by
        simp [uptoFailing, hpasses]
      rw [hstep]
      rcases ih with ⟨hall, hsame⟩ | ⟨passing, failing, behind, rfl, hpassing, hfailing, hsame⟩
      · exact .inl ⟨by simpa [hpasses] using hall, by rw [hsame]⟩
      · refine .inr ⟨result :: passing, failing, behind, rfl, ?_, hfailing, by rw [hsame]; rfl⟩
        simpa [hpasses] using hpassing

/-- From one state of the host and of what is known, a run that ends early has the results of the
other one up to the first failing one. -/
theorem exec_runAll_failFast (subject : Subject) (optIn : OptIn) (checks : List Check)
    (known : Findings) (host : Host) :
    ∃ results known' known'' after after',
      ((runAll subject optIn false checks).run known).exec host = (.ok (results, known'), after) ∧
      ((runAll subject optIn true checks).run known).exec host =
        (.ok (uptoFailing results, known''), after') := by
  induction checks generalizing known host with
  | nil => exact ⟨[], known, known, host, host, rfl, rfl⟩
  | cons check checks ih =>
    obtain ⟨started, milliseconds, finished, -, -, hrun⟩ :=
      exec_runAll_cons subject optIn check known host
    -- both runs have done the same when the check has its result, and only then the flag counts
    generalize resultOfEnding optIn check milliseconds _ = result at hrun
    generalize knownAfter known _ = between at hrun
    obtain ⟨results, known', known'', after, after', hall, hcut⟩ := ih between finished
    have hfull := (hrun false checks).trans (exec_goOn rfl hall)
    by_cases hfails : result.status.isFailing = true
    · have hends : uptoFailing (result :: results) = [result] := by simp [uptoFailing, hfails]
      refine ⟨_, known', between, after, finished, hfull, ?_⟩
      rw [hrun, exec_goOn_failing checks hfails, hends]
    · have hgoes : uptoFailing (result :: results) = result :: uptoFailing results := by
        simp [uptoFailing, hfails]
      refine ⟨_, known', known'', after, after', hfull, ?_⟩
      rw [hrun, exec_goOn (by simpa using hfails) hcut, hgoes]

/-- Leaving out what is behind a failing result does not change the status of a run. -/
theorem status_uptoFailing (results : List Result) (milliseconds milliseconds' : Nat) :
    (Summary.mk (uptoFailing results) milliseconds).status =
      (Summary.mk results milliseconds').status := by
  rcases uptoFailing_cases results with ⟨-, hsame⟩ | ⟨passing, failing, behind, rfl, -, hfailing, hsame⟩
  · rw [hsame]
    rfl
  · rw [hsame]
    simp [Summary.status, hfailing]

/-- A run that ends early has exactly the results of a run of all checks up to the first failing one,
which is all of them if none fails, and it has the same status. -/
theorem runChecks_failFast (subject : Subject) (optIn : OptIn) (checks : List Check) (host : Host) :
    ∃ full cut after after',
      (runChecks subject checks optIn false).exec host = (.ok full, after) ∧
      (runChecks subject checks optIn true).exec host = (.ok cut, after') ∧
      cut.status = full.status ∧
      (((∀ result ∈ full.results, result.status.isFailing = false) ∧ cut.results = full.results) ∨
        ∃ passing failing behind, full.results = passing ++ failing :: behind ∧
          (∀ result ∈ passing, result.status.isFailing = false) ∧ failing.status.isFailing = true ∧
          cut.results = passing ++ [failing]) := by
  obtain ⟨results, known, known', after, after', hall, hcut⟩ :=
    exec_runAll_failFast subject optIn checks Findings.none host
  exact ⟨_, _, after, after', exec_runChecks_of_runAll hall, exec_runChecks_of_runAll hcut,
    status_uptoFailing _ _ _, uptoFailing_cases results⟩

end DscAudit.Check

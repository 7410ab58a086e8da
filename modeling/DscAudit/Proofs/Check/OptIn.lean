import DscAudit.Proofs.Check.Step
import Mathlib.Data.List.Forall2

/-!
# Checks that need an opt-in

A check that needs an opt-in and has none cannot fail by what it finds: errors that it finds become
warnings.  It can still break off, and a check that breaks off makes the run fail, whether the module
opted in to it or not.  So without the opt-in checks of a module that has not opted in to them a run
has the same status, as long as none of them breaks off.
-/

namespace DscAudit.Check

open DscAudit.Action

variable {subject : Subject} {optIn : OptIn}

/-- The check needs an opt-in that the module does not give. -/
def IsNotWanted (optIn : OptIn) (check : Check) : Prop :=
  check.optIn = true ∧ isOptedIn check optIn = false

instance (optIn : OptIn) (check : Check) : Decidable (check.IsNotWanted optIn) :=
  inferInstanceAs (Decidable (_ ∧ _))

/-- Does a check that ended like this make the run fail? -/
def fails (optIn : OptIn) (check : Check) (ending : Except Failure Outcome) : Bool :=
  (resultOfEnding optIn check 0 ending).status.isFailing

/-! ## One result -/

/-- A check that needs an opt-in and has none makes the run fail exactly if it breaks off. -/
theorem fails_iff_of_isNotWanted {check : Check} (hcheck : check.IsNotWanted optIn)
    (ending : Except Failure Outcome) :
    fails optIn check ending = true ↔ ∃ failure, ending = .error failure := by
  obtain ⟨hneeds, hwithout⟩ := hcheck
  rcases ending with failure | outcome
  · simp [fails, resultOfEnding, brokenResult, Status.isFailing]
  · simp only [reduceCtorEq, exists_false, iff_false, fails, resultOfEnding, resultOf, hneeds, hwithout,
      Bool.and_true, Bool.not_false, decide_eq_true_eq]
    by_cases hfail : statusOf outcome = .fail
    · simp [hfail, Status.isFailing]
    · rw [if_neg hfail]
      have herror := statusOf_ne_error outcome
      cases hstatus : statusOf outcome
      all_goals simp_all [Status.isFailing]

/-! ## Runs -/

/-- The check ends like this for something known and some host. -/
def CanEnd (subject : Subject) (check : Check) (ending : Except Failure Outcome) : Prop :=
  ∃ known host, (((check.run subject).run known).exec host).1.map (·.1) = ending

/-- The result tells how the check ended. -/
def IsResult (subject : Subject) (optIn : OptIn) (check : Check) (result : Result) : Prop :=
  ∃ milliseconds ending, check.CanEnd subject ending ∧
    result = resultOfEnding optIn check milliseconds ending

/-- Without an early end every check of a list has a result. -/
theorem exec_runAll (subject : Subject) (optIn : OptIn) (checks : List Check) (known : Findings)
    (host : Host) :
    ∃ results known' after,
      ((runAll subject optIn false checks).run known).exec host = (.ok (results, known'), after) ∧
      List.Forall₂ (IsResult subject optIn) checks results := by
  induction checks generalizing known host with
  | nil => exact ⟨[], known, host, rfl, .nil⟩
  | cons check checks ih =>
    obtain ⟨started, milliseconds, finished, -, -, hrun⟩ :=
      exec_runAll_cons subject optIn check known host
    obtain ⟨results, known', after, hrest, hresults⟩ :=
      ih (knownAfter known (((check.run subject).run known).exec started).1) finished
    refine ⟨_, known', after, (hrun false checks).trans (exec_goOn rfl hrest), ?_⟩
    exact .cons ⟨milliseconds, _, ⟨known, started, rfl⟩, rfl⟩ hresults

/-- A run without an early end always gives a summary. -/
theorem exec_runChecks (subject : Subject) (optIn : OptIn) (checks : List Check) (host : Host) :
    ∃ summary after,
      (runChecks subject checks optIn false).exec host = (.ok summary, after) ∧
      List.Forall₂ (IsResult subject optIn) checks summary.results := by
  obtain ⟨results, known, after, hall, hresults⟩ :=
    exec_runAll subject optIn checks Findings.none host
  exact ⟨_, after, exec_runChecks_of_runAll hall, hresults⟩

/-- The check ends like this, whatever is known and whatever the host is like. -/
def AlwaysEnds (subject : Subject) (check : Check) (ending : Except Failure Outcome) : Prop :=
  ∀ other, check.CanEnd subject other → other = ending

/-- Whether a run fails depends on how its checks end, and on nothing else. -/
theorem status_of_results {checks : List Check} {summary : Summary}
    (hresults : List.Forall₂ (IsResult subject optIn) checks summary.results)
    {behaviour : Check → Except Failure Outcome}
    (hsteady : ∀ check ∈ checks, check.AlwaysEnds subject (behaviour check)) :
    summary.status =
      if checks.any fun check => fails optIn check (behaviour check) then .fail else .pass := by
  obtain ⟨results, milliseconds⟩ := summary
  dsimp only at hresults
  have hany : (results.any fun result => result.status.isFailing) =
      checks.any fun check => fails optIn check (behaviour check) := by
    induction hresults with
    | nil => rfl
    | @cons check result checks results hresult _ ih =>
      obtain ⟨milliseconds, ending, hending, rfl⟩ := hresult
      have hbehaviour := hsteady check (by simp) ending hending
      rw [List.any_cons, List.any_cons, ih fun other hother => hsteady other (by simp [hother]),
        status_resultOfEnding, hbehaviour]
      rfl
  simp only [Summary.status, hany]

theorem exists_check_of_mem {checks : List Check} {results : List Result}
    (hresults : List.Forall₂ (IsResult subject optIn) checks results) {result : Result}
    (hresult : result ∈ results) : ∃ check ∈ checks, IsResult subject optIn check result := by
  induction hresults with
  | nil => cases hresult
  | @cons check first checks results hfirst _ ih =>
    rcases List.mem_cons.mp hresult with rfl | hrest
    · exact ⟨check, List.mem_cons_self, hfirst⟩
    · obtain ⟨other, hother, hresult⟩ := ih hrest
      exact ⟨other, List.mem_cons_of_mem _ hother, hresult⟩

/-- The module has not opted in to the check, which does not break off. -/
def IsHarmless (optIn : OptIn) (behaviour : Check → Except Failure Outcome) (check : Check) : Bool :=
  decide (check.IsNotWanted optIn) && (behaviour check).toBool

/-- Checks that cannot fail do not matter for whether some check fails. -/
theorem any_fails_filter (checks : List Check) (behaviour : Check → Except Failure Outcome) :
    ((checks.filter fun check => !IsHarmless optIn behaviour check).any fun check =>
      fails optIn check (behaviour check)) =
      checks.any fun check => fails optIn check (behaviour check) := by
  rw [List.any_filter]
  congr 1
  funext check
  -- a check that is left out has not broken off, so it fails nothing
  by_cases hharmless : IsHarmless optIn behaviour check = true
  · have hnot : fails optIn check (behaviour check) = false := by
      simp only [IsHarmless, Bool.and_eq_true, decide_eq_true_eq] at hharmless
      rw [← Bool.not_eq_true, fails_iff_of_isNotWanted hharmless.1]
      rintro ⟨failure, hfailure⟩
      rw [hfailure] at hharmless
      cases hharmless.2
    rw [hnot, Bool.and_false]
  · simp [hharmless]

/-- Without an early end, a run has the same status with and without the opt-in checks that the module
has not opted in to and that do not break off; a check that it has not opted in to makes the run fail
exactly if it breaks off. -/
theorem status_without_optIn (subject : Subject) (optIn : OptIn) (checks : List Check)
    (behaviour : Check → Except Failure Outcome)
    (hsteady : ∀ check ∈ checks, check.AlwaysEnds subject (behaviour check)) (host host' : Host) :
    ∃ summary summary' after after',
      (runChecks subject checks optIn false).exec host = (.ok summary, after) ∧
      (runChecks subject (checks.filter fun check => !IsHarmless optIn behaviour check) optIn
        false).exec host' = (.ok summary', after') ∧
      summary.status = summary'.status ∧
      ∀ result ∈ summary.results, result.check.IsNotWanted optIn →
        (result.status.isFailing = true ↔ ∃ failure, behaviour result.check = .error failure) := by
  obtain ⟨summary, after, hexec, hresults⟩ := exec_runChecks subject optIn checks host
  obtain ⟨summary', after', hexec', hresults'⟩ := exec_runChecks subject optIn
    (checks.filter fun check => !IsHarmless optIn behaviour check) host'
  refine ⟨summary, summary', after, after', hexec, hexec', ?_, ?_⟩
  · rw [status_of_results hresults hsteady, status_of_results hresults' fun check hcheck =>
      hsteady check (List.mem_of_mem_filter hcheck), any_fails_filter]
  · intro result hresult hnotWanted
    obtain ⟨check, hcheck, milliseconds, ending, hending, rfl⟩ :=
      exists_check_of_mem hresults hresult
    have hbehaviour := hsteady check hcheck ending hending
    rw [check_resultOfEnding] at hnotWanted ⊢
    rw [status_resultOfEnding, hbehaviour]
    exact fails_iff_of_isNotWanted hnotWanted _

def optInCheck (id : String) (ending : Except Failure Outcome) : Check where
  id := id
  domain := "x"
  title := ""
  description := ""
  budget := 0
  optIn := true
  tools := []
  hint := ""
  run _ := match ending with
    | .ok outcome => return outcome
    | .error failure => throw failure

theorem alwaysEnds_optInCheck (subject : Subject) (id : String) (ending : Except Failure Outcome) :
    (optInCheck id ending).AlwaysEnds subject ending := by
  rintro other ⟨known, host, rfl⟩
  cases ending <;> rfl

def errorOutcome : Outcome := .found [.ofModule "X" "wrong"] []

theorem status_without_failing_optIn :
    (∀ check ∈ [optInCheck "x/a" (.ok errorOutcome)],
      check.AlwaysEnds (.ofModule "m") (.ok errorOutcome)) ∧
    ∃ summary summary' after after',
      (runChecks (.ofModule "m") [optInCheck "x/a" (.ok errorOutcome)] ⟨[]⟩ false).exec
        (.holding ⟨[]⟩ ⟨.slash, []⟩) = (.ok summary, after) ∧
      (runChecks (.ofModule "m") [] ⟨[]⟩ false).exec
        (.holding ⟨[]⟩ ⟨.slash, []⟩) = (.ok summary', after') ∧
      summary.status = summary'.status := by
  have hsteady : ∀ check ∈ [optInCheck "x/a" (.ok errorOutcome)],
      check.AlwaysEnds (.ofModule "m") (.ok errorOutcome) := by
    intro check hcheck
    rw [List.mem_singleton.mp hcheck]
    exact alwaysEnds_optInCheck _ _ _
  obtain ⟨summary, summary', after, after', hexec, hexec', hstatus, -⟩ :=
    status_without_optIn (.ofModule "m") ⟨[]⟩ [optInCheck "x/a" (.ok errorOutcome)]
      (fun _ => .ok errorOutcome) hsteady (.holding ⟨[]⟩ ⟨.slash, []⟩) (.holding ⟨[]⟩ ⟨.slash, []⟩)
  exact ⟨hsteady, summary, summary', after, after', hexec, hexec', hstatus⟩

def breakdown : Failure := .defect (.other "RuntimeError" "kaboom")

/-- A check that breaks off makes the run fail although the module has not opted in to it; without it
the run passes. -/
theorem broken_optIn_check_fails :
    (optInCheck "x/a" (.error breakdown)).IsNotWanted ⟨[]⟩ ∧
    ∃ summary summary' after after',
      (runChecks (.ofModule "m") [optInCheck "x/a" (.error breakdown)] ⟨[]⟩ false).exec
        (.holding ⟨[]⟩ ⟨.slash, []⟩) = (.ok summary, after) ∧
      (runChecks (.ofModule "m") [] ⟨[]⟩ false).exec
        (.holding ⟨[]⟩ ⟨.slash, []⟩) = (.ok summary', after') ∧
      summary.status = .fail ∧ summary'.status = .pass :=
  ⟨by decide, _, _, _, _, rfl, rfl, rfl, rfl⟩

end DscAudit.Check

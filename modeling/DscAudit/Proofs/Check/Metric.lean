import DscAudit.Proofs.Check.Composition
import DscAudit.Proofs.Config.Merge
import DscAudit.Report.Payload

/-!
# What checks measure

Checks count, name a file or a version, or repeat a number of the configuration.  So a report holds
finite numbers only.
-/

namespace DscAudit

namespace Check

open Checking

/-- All numbers among what was measured are finite. -/
def HasFiniteMetrics (outcome : Outcome) : Prop := (Value.table outcome.metrics).IsFinite

@[simp]
theorem hasFiniteMetrics_found (violations : List Violation) (metrics : Table) :
    HasFiniteMetrics (.found violations metrics) ↔ (Value.table metrics).IsFinite := Iff.rfl

theorem metrics_skip (reason : String) : Checking.Gives HasFiniteMetrics (pure (.skip reason)) :=
  .of_pure (.table nofun)

theorem metrics_unmeasured (violations : List Violation) :
    Checking.Gives HasFiniteMetrics (pure (.found violations [])) := .of_pure (.table nofun)

/-- Most checks count what they look at. -/
theorem metrics_count (violations : List Violation) (name : String) (n : Int) :
    Checking.Gives HasFiniteMetrics (pure (.found violations [(name, .int n)])) := .of_pure (by simp)

variable {subject : Subject}

theorem metrics_inFiles (files : List Path) (look : String → Text.Octets → List Violation) :
    Checking.Gives HasFiniteMetrics (Formatting.inFiles subject files look) :=
  .bind fun _ => metrics_count _ _ _

theorem metrics_present : Checking.Gives HasFiniteMetrics (Manifest.present subject) := by
  refine .bind fun candidates => ?_
  dsimp only
  split
  · exact .of_pure (by simp)
  · exact .ite (metrics_unmeasured _) (metrics_unmeasured _)

theorem metrics_valid : Checking.Gives HasFiniteMetrics (Manifest.valid subject) := by
  refine .bind fun content => ?_
  cases content with
  | absent => exact metrics_skip _
  | unreadable name reason => exact metrics_unmeasured _
  | entries name table => exact metrics_unmeasured _

theorem hasFiniteMetrics_versionOutcome (name minimum : String) (wanted : Option Value) :
    HasFiniteMetrics (Manifest.versionOutcome name minimum wanted) := by
  unfold Manifest.versionOutcome
  split
  · simp
  split
  · simp
  · split <;> simp

theorem metrics_powerShellVersion :
    Checking.Gives HasFiniteMetrics (Manifest.powerShellVersion subject) := by
  refine .bind fun content => ?_
  cases content with
  | absent => exact metrics_skip _
  | unreadable name reason => exact metrics_skip _
  | entries name table => exact .of_pure (hasFiniteMetrics_versionOutcome _ _ _)

theorem metrics_filesPresent : Checking.Gives HasFiniteMetrics (Resource.filesPresent subject) :=
  .bind fun _ => .ite (metrics_skip _) (.bind fun _ => metrics_count _ _ _)

theorem metrics_schemaValid : Checking.Gives HasFiniteMetrics (Resource.schemaValid subject) :=
  .bind fun _ => .ite (metrics_skip _) (.bind fun _ => metrics_count _ _ _)

theorem metrics_functions : Checking.Gives HasFiniteMetrics (Resource.functions subject) :=
  .bind fun _ => .ite (metrics_skip _) (.bind fun _ => metrics_count _ _ _)

theorem metrics_select (isWanted : Tool.Pwsh.Finding → Bool) :
    Checking.Gives HasFiniteMetrics (Analyzer.select subject isWanted) := by
  refine .bind fun findings => ?_
  cases findings with
  | error reason => exact metrics_skip _
  | ok findings => exact .bind fun host => .of_pure (by simp)

theorem metrics_parameterRules : Checking.Gives HasFiniteMetrics (Analyzer.parameterRules subject) :=
  .bind fun _ => .bind fun _ => metrics_count _ _ _

theorem metrics_parse (files : List Path) (kind : String) :
    Checking.Gives HasFiniteMetrics (Parsing.parse subject files kind) := by
  refine .ite (metrics_skip _) (.bind fun found => ?_)
  cases found with
  | none => exact metrics_skip _
  | some executable =>
    exact .bind fun found => .bind fun faults => .bind fun violations => metrics_count _ _ _

theorem metrics_compile : Checking.Gives HasFiniteMetrics (Examples.compile subject) := by
  refine .bind fun files => .ite (metrics_skip _) (.bind fun found => ?_)
  cases found with
  | none => exact metrics_skip _
  | some executable =>
    exact .bind fun found => .bind fun compilations => .bind fun results => .of_pure (by simp)

theorem metrics_lint : Checking.Gives HasFiniteMetrics (Markdown.lint subject) := by
  refine .bind fun files => .ite (metrics_skip _) (.bind fun found => ?_)
  cases found with
  | none => exact metrics_skip _
  | some npm => exact .bind fun found => metrics_count _ _ _

theorem metrics_relativeLength (hconfig : subject.config.HasFiniteNumbers) :
    Checking.Gives HasFiniteMetrics (PathLength.relative subject) := by
  have hlimit : subject.config.maxPathLength.toValue.IsFinite := hconfig.pathLength
  exact .bind fun files => .of_pure (by simp [hlimit])

/-- What a check of the catalogue measures is finite if the configuration is. -/
theorem metrics_of_mem_all (hconfig : subject.config.HasFiniteNumbers) {check : Check}
    (hcheck : check ∈ all) : Checking.Gives HasFiniteMetrics (check.run subject) := by
  simp only [all, formattingChecks, manifestChecks, resourceChecks, analyzerChecks, scriptChecks,
    otherChecks, List.mem_append, List.mem_cons, List.not_mem_nil, or_false] at hcheck
  rcases hcheck with (((((rfl | rfl | rfl | rfl) | rfl | rfl | rfl) | rfl | rfl | rfl) | rfl | rfl |
    rfl | rfl) | rfl | rfl | rfl) | rfl | rfl
  · exact .bind fun files => metrics_inFiles files _
  · exact .bind fun files => metrics_inFiles files _
  · exact .bind fun files => metrics_inFiles files _
  · exact .bind fun files => metrics_inFiles files _
  · exact metrics_present
  · exact metrics_valid
  · exact metrics_powerShellVersion
  · exact metrics_filesPresent
  · exact metrics_schemaValid
  · exact metrics_functions
  · exact metrics_select _
  · exact metrics_select _
  · exact metrics_select _
  · exact metrics_parameterRules
  · exact .bind fun files => metrics_parse files _
  · exact .bind fun files => metrics_parse _ _
  · exact metrics_compile
  · exact metrics_lint
  · exact metrics_relativeLength hconfig

/-! ## Runs -/

variable {checks : List Check}

theorem gives_attempt {α : Type} {post : α → Prop} {step : Checking α}
    (hstep : Checking.Gives post step) :
    Checking.Gives (fun ending => ∀ a, ending = .ok a → post a) (attempt step) := by
  intro known host ⟨ending, known'⟩ after hend a hending
  rw [exec_attempt] at hend
  rcases hrun : (step.run known).exec host with ⟨failure | ⟨b, known''⟩, between⟩
  · rw [hrun] at hend
    cases hend
    cases hending
  · rw [hrun] at hend
    cases hend
    cases hending
    exact hstep known host _ _ hrun

theorem metrics_runOne {check : Check} (optIn : OptIn)
    (hcheck : Checking.Gives HasFiniteMetrics (check.run subject)) :
    Checking.Gives (fun result => (Value.table result.metrics).IsFinite)
      (runOne subject optIn check) := by
  refine .bind fun started => .bind_gives (gives_attempt hcheck) fun ending hending => ?_
  refine .bind fun finished => ?_
  cases ending with
  | error failure => exact .of_pure (.table nofun)
  | ok outcome =>
    refine .of_pure ?_
    simp only [resultOf]
    split <;> exact hending outcome rfl

theorem metrics_runAll (optIn : OptIn) (failFast : Bool)
    (hchecks : ∀ check ∈ checks, Checking.Gives HasFiniteMetrics (check.run subject)) :
    Checking.Gives (fun results => ∀ result ∈ results, (Value.table result.metrics).IsFinite)
      (runAll subject optIn failFast checks) := by
  induction checks with
  | nil => exact .of_pure nofun
  | cons check checks ih =>
    have hrest := ih fun other hother => hchecks other (List.mem_cons_of_mem check hother)
    unfold runAll
    refine .bind fun _ => .bind_gives (metrics_runOne optIn (hchecks check List.mem_cons_self))
      fun result hresult => .bind fun _ => .ite (.of_pure ?_) (.bind_gives hrest fun results hresults => ?_)
    · exact List.forall_mem_singleton.mpr hresult
    · exact .of_pure (List.forall_mem_cons.mpr ⟨hresult, hresults⟩)

theorem metrics_runChecks (optIn : OptIn) (failFast : Bool)
    (hchecks : ∀ check ∈ checks, Checking.Gives HasFiniteMetrics (check.run subject)) :
    Action.Gives (fun summary => ∀ result ∈ summary.results, (Value.table result.metrics).IsFinite)
      (runChecks subject checks optIn failFast) := by
  unfold runChecks
  refine .bind (.always _) fun started _ => ?_
  refine .bind (metrics_runAll optIn failFast hchecks Findings.none) fun results hresults => ?_
  exact .bind (.always _) fun finished _ => .of_pure hresults

end Check

/-- The payload of a report has finite numbers if all that was measured is finite. -/
theorem Report.isFinite_payload {summary : Check.Summary} {runId moduleRoot : String}
    {payload : Value}
    (hmetrics : ∀ result ∈ summary.results, (Value.table result.metrics).IsFinite)
    (hpayload : Report.payload summary runId moduleRoot = .ok payload) : payload.IsFinite := by
  have hrow : ∀ result ∈ summary.results, (Report.row result).IsFinite := by
    intro result hresult
    simp [Report.row, Violation.toValue, hmetrics result hresult]
  have hdraft : (Value.table (Report.draft summary runId moduleRoot)).IsFinite := by
    simpa [Report.draft, Report.summaryTable, Report.sortResults] using hrow
  unfold Report.payload at hpayload
  dsimp only at hpayload
  split at hpayload
  · cases hpayload
    exact hdraft
  · cases hpayload

end DscAudit

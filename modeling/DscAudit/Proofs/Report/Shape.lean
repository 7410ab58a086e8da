import DscAudit.Proofs.Report.Verdict
import DscAudit.Proofs.Shape.Table

/-!
# The shape of payloads

A payload has the right shape if all its results are presentable: their checks have identifiers and
budgets as they should be, and their violations have codes and places that are not negative.
-/

namespace DscAudit

/-- The violation has a code, and its place is not negative. -/
structure Violation.IsPresentable (violation : Violation) : Prop where
  code : violation.code ≠ ""
  line : 0 ≤ violation.line
  column : 0 ≤ violation.column

/-- The identifier and the budget of the check can be shown in a payload. -/
structure Check.IsPresentable (check : Check) : Prop where
  id : Report.isIdentifier check.id.toList = true
  budget : 0 ≤ check.budget

structure Check.Result.IsPresentable (result : Check.Result) : Prop where
  check : result.check.IsPresentable
  violations : ∀ violation ∈ result.violations, violation.IsPresentable

namespace Shape

variable {path : List Step} {shape : Shape} {s : String}

theorem EntryFits.of_fits {key : String} {value : Value} (hfits : ∀ path, Fits path value.toDatum shape) :
    EntryFits path (key, value) (key, shape) :=
  ⟨rfl, hfits _⟩

theorem fits_anyText (s : String) (path : List Step) : Fits path (Value.text s).toDatum anyText := rfl

theorem fits_nonEmpty (hs : s ≠ "") (path : List Step) :
    Fits path (Value.text s).toDatum (ofKind .string [.nonEmpty]) := by
  have hempty : s.isEmpty = false := by simpa using hs
  simp [Fits, ofKind, problemsAt, ruleProblems, oneRuleProblems, ownProblem?, Kind.holds,
    Datum.opened, Value.toDatum, hempty]

theorem fits_matching {pattern : Pattern} (hs : pattern.occursIn s.toList = true) (path : List Step) :
    Fits path (Value.text s).toDatum (ofKind .string [.matching pattern]) := by
  simp [Fits, ofKind, problemsAt, ruleProblems, oneRuleProblems, ownProblem?, Kind.holds,
    Datum.opened, Value.toDatum, hs]

theorem fits_atLeast {minimum n : Int} (hn : minimum ≤ n) (path : List Step) :
    Fits path (Value.int n).toDatum (ofKind .integer [.atLeast minimum]) := by
  have hless : ¬ n < minimum := Int.not_lt.mpr hn
  simp [Fits, ofKind, problemsAt, ruleProblems, oneRuleProblems, ownProblem?, Kind.holds,
    Datum.opened, Value.toDatum, hless]

theorem fits_oneOf {texts : List String} (hs : s ∈ texts) (path : List Step) :
    Fits path (Value.text s).toDatum (.ofRules [.oneOf texts]) := by
  simp [Fits, problemsAt, ruleProblems, oneRuleProblems, ownProblem?, Value.toDatum, hs]

theorem fits_textIs (s : String) (path : List Step) :
    Fits path (Value.text s).toDatum (.ofRules [.textIs s]) := by
  simp [Fits, problemsAt, ruleProblems, oneRuleProblems, ownProblem?, Value.toDatum]

theorem fits_list {items : List Value} (hitems : ∀ item ∈ items, ∀ path, Fits path item.toDatum shape)
    (path : List Step) : Fits path (Value.list items).toDatum (listOf shape) := by
  rw [Value.toDatum, fits_listOf, Value.toData_eq_map]
  intro entry hentry
  obtain ⟨item, hitem, hsame⟩ := List.mem_map.mp (List.mem_of_getElem? (List.mem_zipIdx_iff_getElem?.mp hentry))
  rw [← hsame]
  exact hitems item hitem _

end Shape

namespace Report

open DscAudit.Check (Result Summary Status)
open Shape

theorem fits_flag (b : Bool) (path : List Step) : Fits path (Value.bool b).toDatum flag := rfl

theorem fits_ofTexts (texts : List String) (path : List Step) :
    Fits path (Value.ofTexts texts).toDatum (.listOf .anyText) :=
  fits_list (List.forall_mem_map.mpr fun s _ => fits_anyText s) path

theorem fits_metrics (metrics : Table) (path : List Step) :
    Fits path (Value.table metrics).toDatum (.ofKind .object []) := rfl

theorem fits_natural (n : Nat) (path : List Step) : Fits path (Value.int n).toDatum count :=
  fits_atLeast (Int.natCast_nonneg n) path

theorem fits_violation {violation : Violation} (hviolation : violation.IsPresentable)
    (path : List Step) : Fits path violation.toValue.toDatum violationShape := by
  have hseverity : violation.severity.text ∈ ["error", "warn", "info"] := by
    cases violation.severity <;> simp [Severity.text]
  refine fits_record (by decide) ?_
  exact .cons (.of_fits (fits_nonEmpty hviolation.code)) <| .cons (.of_fits (fits_anyText _)) <|
    .cons (.of_fits (fits_anyText _)) <| .cons (.of_fits (fits_atLeast hviolation.line)) <|
    .cons (.of_fits (fits_atLeast hviolation.column)) <| .cons (.of_fits (fits_oneOf hseverity)) .nil

theorem fits_row {result : Result} (hresult : result.IsPresentable) (path : List Step) :
    Fits path (row result).toDatum rowShape := by
  have hstatus : result.status.capitals ∈ ["PASS", "FAIL", "SKIP", "ERROR"] := by
    cases result.status <;> simp [Status.capitals]
  have hbudget : (if isOverBudget result then "warn" else "pass") ∈ ["pass", "warn"] := by
    split <;> simp
  have hviolations (path : List Step) : Fits path
      (Value.list ((Violation.sort result.violations).map Violation.toValue)).toDatum
      (.listOf violationShape) := by
    refine fits_list (List.forall_mem_map.mpr fun violation hviolation => ?_) path
    exact fits_violation (hresult.violations violation (List.mem_mergeSort.mp hviolation))
  refine fits_record (by decide) ?_
  exact .cons (.of_fits (fits_matching hresult.check.id)) <| .cons (.of_fits (fits_anyText _)) <|
    .cons (.of_fits (fits_anyText _)) <| .cons (.of_fits (fits_oneOf hstatus)) <|
    .cons (.of_fits (fits_natural _)) <| .cons (.of_fits (fits_atLeast hresult.check.budget)) <|
    .cons (.of_fits (fits_oneOf hbudget)) <| .cons (.of_fits (fits_flag _)) <|
    .cons (.of_fits (fits_flag _)) <| .cons (.of_fits (fits_anyText _)) <|
    .cons (.of_fits (fits_anyText _)) <| .cons (.of_fits hviolations) <|
    .cons (.of_fits (fits_ofTexts _)) <| .cons (.of_fits (fits_metrics _)) .nil

theorem fits_summary (summary : Summary) (path : List Step) :
    Fits path (Value.table (summaryTable summary)).toDatum summaryShape := by
  refine fits_record (by decide) ?_
  exact .cons (.of_fits (fits_natural _)) <| .cons (.of_fits (fits_natural _)) <|
    .cons (.of_fits (fits_natural _)) <| .cons (.of_fits (fits_natural _)) <|
    .cons (.of_fits (fits_natural _)) <| .cons (.of_fits (fits_natural _)) .nil

/-- The payload of presentable results is built. -/
theorem payload_of_presentable {summary : Summary}
    (hresults : ∀ result ∈ summary.results, result.IsPresentable) (runId moduleRoot : String) :
    payload summary runId moduleRoot = .ok (.table (draft summary runId moduleRoot)) := by
  have hstatus : summary.status.text ∈ ["pass", "fail"] := by
    rcases status_eq_pass_or_fail summary with hpass | hfail
    · simp [hpass, Status.text]
    · simp [hfail, Status.text]
  have hrows (path : List Step) : Fits path
      (Value.list ((sortResults summary.results).map row)).toDatum (.listOf rowShape) := by
    refine fits_list (List.forall_mem_map.mpr fun result hresult => ?_) path
    exact fits_row (hresults result (List.mem_mergeSort.mp hresult))
  refine payload_of_problems summary runId moduleRoot (fits_record (by decide) ?_)
  exact .cons (.of_fits (fits_textIs _)) <| .cons (.of_fits fun _ => rfl) <|
    .cons (.of_fits (fits_textIs _)) <| .cons (.of_fits (fits_textIs _)) <|
    .cons (.of_fits (fits_anyText _)) <| .cons (.of_fits (fits_anyText _)) <|
    .cons (.of_fits (fits_oneOf hstatus)) <| .cons (.of_fits (fits_summary summary)) <|
    .cons (.of_fits hrows) .nil

end Report

end DscAudit

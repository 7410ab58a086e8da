import DscAudit.Proofs.Check.Course
import DscAudit.Proofs.Check.OptIn
import DscAudit.Proofs.Report.Verdict
import Mathlib

/-!
# The order of work

Checks that do not depend on each other are reported alike in whatever order they are made, and in
whatever order each of them finds what it finds.  Violations are sorted by everything but their
severity, and rows by the identifiers of their checks, so what is sorted depends on nothing but what
there is to sort.
-/

namespace DscAudit

/-! ## The order of violations -/

namespace Violation

theorem compareTo_eq_compareLex : compareTo =
    compareLex (compareOn path) (compareLex (compareOn code) (compareLex (compareOn message)
      (compareLex (compareOn line) (compareOn column)))) := rfl

instance : Std.TransCmp compareTo := by
  rw [compareTo_eq_compareLex]
  infer_instance

/-- Nothing but the severity of violations with one place in the order can differ. -/
theorem eq_of_compareTo {v w : Violation} (hsame : v.compareTo w = .eq)
    (hseverity : v.severity = w.severity) : v = w := by
  simp only [compareTo, Ordering.then_eq_eq, Std.LawfulEqCmp.compare_eq_iff_eq] at hsame
  obtain ⟨hpath, hcode, hmessage, hline, hcolumn⟩ := hsame
  cases v
  simp_all

theorem isLE_trans (u v w : Violation) (huv : (u.compareTo v).isLE = true)
    (hvw : (v.compareTo w).isLE = true) : (u.compareTo w).isLE = true :=
  Std.TransCmp.isLE_trans huv hvw

theorem isLE_total (v w : Violation) : ((v.compareTo w).isLE || (w.compareTo v).isLE) = true := by
  have hswap : w.compareTo v = (v.compareTo w).swap := Std.OrientedCmp.eq_swap
  rw [hswap]
  cases v.compareTo w <;> rfl

theorem pairwise_sort (violations : List Violation) :
    (sort violations).Pairwise fun v w => (v.compareTo w).isLE = true :=
  List.pairwise_mergeSort isLE_trans isLE_total violations

theorem sort_perm (violations : List Violation) : (sort violations).Perm violations :=
  List.mergeSort_perm _ _

/-- Violations with one place in the order have one severity. -/
def TiesAgree (violations : List Violation) : Prop :=
  ∀ v ∈ violations, ∀ w ∈ violations, v.compareTo w = .eq → v.severity = w.severity

theorem sort_eq_of_perm {violations arranged : List Violation} (hties : TiesAgree violations)
    (hperm : arranged.Perm violations) : sort arranged = sort violations := by
  have hsorted : (sort arranged).Perm (sort violations) :=
    (sort_perm arranged).trans (hperm.trans (sort_perm violations).symm)
  refine hsorted.eq_of_pairwise ?_ (pairwise_sort arranged) (pairwise_sort violations)
  intro v w hv hw hvw hwv
  have hv' : v ∈ violations := hperm.mem_iff.mp ((sort_perm arranged).mem_iff.mp hv)
  have hw' : w ∈ violations := (sort_perm violations).mem_iff.mp hw
  have hsame := Std.OrientedCmp.isLE_antisymm hvw hwv
  exact eq_of_compareTo hsame (hties v hv' w hw' hsame)

end Violation

namespace Check

open DscAudit.Action
open DscAudit.Report (row sortResults summaryTable payload text)

variable {subject : Subject} {optIn : OptIn} {arrange : Check → List Violation → List Violation}

/-! ## Checks that find the same in another order -/

/-- The check with the violations of its outcomes in another order. -/
def arranged (arrange : Check → List Violation → List Violation) (check : Check) : Check :=
  { check with
    run := fun subject => do
      let outcome ← check.run subject
      return { outcome with violations := arrange check outcome.violations } }

theorem ending_arranged (stage : Stage) (check : Check) :
    stage.ending subject (check.arranged arrange) =
      (stage.ending subject check).map fun outcome =>
        { outcome with violations := arrange check outcome.violations } := by
  rcases hend : ((check.run subject).run stage.known).exec stage.host with
    ⟨failure | ⟨outcome, known⟩, after⟩
  · simp only [Stage.ending, arranged, Checking.exec_bind_error hend, hend, Except.map]
  · simp only [Stage.ending, arranged, Checking.exec_bind_ok hend, hend]
    rfl

theorem made_arranged (stage : Stage) (check : Check) :
    stage.made subject (check.arranged arrange) = stage.made subject check := by
  rcases hend : ((check.run subject).run stage.known).exec stage.host with
    ⟨failure | ⟨outcome, known⟩, after⟩
  · simp only [Stage.made, arranged, Checking.exec_bind_error hend, hend, knownAfter]
  · simp only [Stage.made, arranged, Checking.exec_bind_ok hend, hend]
    rfl

/-- Where ties agree, the order of the violations does not show in a result. -/
theorem resultOf_arranged (harrange : ∀ check violations, (arrange check violations).Perm violations)
    (check : Check) (optedIn : Bool) (milliseconds : Nat) {outcome : Outcome}
    (hties : Violation.TiesAgree outcome.violations) :
    resultOf (check.arranged arrange) optedIn milliseconds
        { outcome with violations := arrange check outcome.violations } =
      { resultOf check optedIn milliseconds outcome with check := check.arranged arrange } := by
  have hperm := harrange check outcome.violations
  have hstatus : statusOf { outcome with violations := arrange check outcome.violations } =
      statusOf outcome := by
    simp only [statusOf, hperm.any_eq]
  simp only [resultOf, hstatus, Violation.sort_eq_of_perm hties hperm, arranged]
  split <;> rfl

/-- One step with the violations in another order. -/
theorem step_arranged (optIn : OptIn)
    (harrange : ∀ check violations, (arrange check violations).Perm violations) (stage : Stage) (check : Check)
    (hties : ∀ outcome, (stage.started subject check).ending subject check = .ok outcome →
      Violation.TiesAgree outcome.violations) :
    stage.result subject optIn (check.arranged arrange) =
      { stage.result subject optIn check with check := check.arranged arrange } ∧
    stage.next subject optIn (check.arranged arrange) = stage.next subject optIn check := by
  have hstarted : stage.started subject (check.arranged arrange) = stage.started subject check := rfl
  have hresult : stage.result subject optIn (check.arranged arrange) =
      { stage.result subject optIn check with check := check.arranged arrange } := by
    simp only [Stage.result, Stage.duration, hstarted, made_arranged, ending_arranged]
    rcases hend : (stage.started subject check).ending subject check with failure | outcome
    · rfl
    · exact resultOf_arranged harrange check _ _ (hties outcome hend)
  refine ⟨hresult, ?_⟩
  have hevent : finishEvent (stage.result subject optIn (check.arranged arrange)) =
      finishEvent (stage.result subject optIn check) := by
    rw [hresult]
    simp only [finishEvent, Stage.check_result]
    rfl
  rw [Stage.next, hevent, hstarted, made_arranged]
  rfl

/-! ## Checks that do not depend on each other -/

/-- How a check ends, and how many milliseconds it takes. -/
structure Answer where
  ending : Except Failure Outcome
  milliseconds : Nat

/-- Each check ends like this and takes this long, whichever other checks of the list come before it. -/
def AreIndependent (subject : Subject) (optIn : OptIn) (checks : List Check) (host : Host)
    (answer : Check → Answer) : Prop :=
  ∀ before check, (before ++ [check]).Subperm checks →
    let started := ((Stage.first host).last subject optIn before).started subject check
    started.ending subject check = (answer check).ending ∧
      (started.made subject check).host.milliseconds =
        started.host.milliseconds + (answer check).milliseconds

/-- The result of a check with this answer. -/
def answered (optIn : OptIn) (answer : Check → Answer) (check : Check) : Result :=
  resultOfEnding optIn check (answer check).milliseconds (answer check).ending

/-- The result of a check that finds what it finds in another order. -/
def answeredArranged (optIn : OptIn) (answer : Check → Answer)
    (arrange : Check → List Violation → List Violation) (check : Check) : Result :=
  { answered optIn answer check with check := check.arranged arrange }

theorem Stage.last_concat (stage : Stage) (before : List Check) (check : Check) :
    stage.last subject optIn (before ++ [check]) =
      (stage.last subject optIn before).next subject optIn check := by
  induction before generalizing stage with
  | nil => rfl
  | cons first before ih => exact ih (stage.next subject optIn first)

variable {checks : List Check} {host : Host} {answer : Check → Answer}

theorem AreIndependent.result (hanswer : AreIndependent subject optIn checks host answer)
    {before : List Check} {check : Check} (hsub : (before ++ [check]).Subperm checks) :
    ((Stage.first host).last subject optIn before).result subject optIn check =
      answered optIn answer check := by
  obtain ⟨hending, htime⟩ := hanswer before check hsub
  simp only [Stage.result, Stage.duration, hending, htime, Nat.add_sub_cancel_left, answered]

theorem subperm_concat_of_cons {before rest : List Check} {check : Check}
    (hsub : (before ++ check :: rest).Subperm checks) : (before ++ [check]).Subperm checks := by
  rw [List.append_cons] at hsub
  exact (List.sublist_append_left _ _).subperm.trans hsub

/-- What the checks that are left come to, behind those that are made already. -/
theorem AreIndependent.results (hanswer : AreIndependent subject optIn checks host answer)
    {before rest : List Check} (hsub : (before ++ rest).Subperm checks) :
    ((Stage.first host).last subject optIn before).results subject optIn rest =
        rest.map (answered optIn answer) ∧
      (((Stage.first host).last subject optIn before).last subject optIn rest).host.milliseconds =
        ((Stage.first host).last subject optIn before).host.milliseconds +
          (rest.map fun check => (answer check).milliseconds).sum := by
  induction rest generalizing before with
  | nil => exact ⟨rfl, rfl⟩
  | cons check rest ih =>
    have hfirst := subperm_concat_of_cons hsub
    obtain ⟨hresults, htime⟩ := ih (List.append_cons before check rest ▸ hsub)
    rw [Stage.last_concat] at hresults htime
    have hstep : (((Stage.first host).last subject optIn before).next subject optIn
        check).host.milliseconds =
          ((Stage.first host).last subject optIn before).host.milliseconds +
            (answer check).milliseconds := by
      rw [Stage.next, Stage.milliseconds_logged, (hanswer before check hfirst).2, Stage.started,
        Stage.milliseconds_logged]
    constructor
    · rw [Stage.results, hanswer.result hfirst, hresults, List.map_cons]
    · rw [Stage.last, htime, hstep, List.map_cons, List.sum_cons, Nat.add_assoc]

/-- Nothing but the order of violations differs when each check finds what it finds in another order,
and it does not differ in the results. -/
theorem AreIndependent.results_arranged (hanswer : AreIndependent subject optIn checks host answer)
    (harrange : ∀ check violations, (arrange check violations).Perm violations)
    (hties : ∀ check ∈ checks, ∀ outcome, (answer check).ending = .ok outcome →
      Violation.TiesAgree outcome.violations)
    {before rest : List Check} (hsub : (before ++ rest).Subperm checks) :
    ((Stage.first host).last subject optIn before).results subject optIn
        (rest.map (arranged arrange)) =
      rest.map (answeredArranged optIn answer arrange) ∧
      ((Stage.first host).last subject optIn before).last subject optIn (rest.map (arranged arrange)) =
        ((Stage.first host).last subject optIn before).last subject optIn rest := by
  induction rest generalizing before with
  | nil => exact ⟨rfl, rfl⟩
  | cons check rest ih =>
    have hfirst := subperm_concat_of_cons hsub
    have hmem : check ∈ checks := hsub.subset (by simp)
    obtain ⟨hresult, hnext⟩ := step_arranged optIn harrange
      ((Stage.first host).last subject optIn before) check (by
        rw [(hanswer before check hfirst).1]
        exact hties check hmem)
    obtain ⟨hresults, hlast⟩ := ih (List.append_cons before check rest ▸ hsub)
    rw [Stage.last_concat] at hresults hlast
    constructor
    · rw [List.map_cons, Stage.results, hresult, hnext, hresults, hanswer.result hfirst, List.map_cons]
      rfl
    · rw [List.map_cons, Stage.last, hnext, hlast, Stage.last]

/-- A run of independent checks takes the sum of what they take. -/
theorem AreIndependent.exec_runChecks (hanswer : AreIndependent subject optIn checks host answer)
    {order : List Check} (hsub : order.Subperm checks) :
    ∃ after, (runChecks subject order optIn false).exec host =
      (.ok ⟨order.map (answered optIn answer), (order.map fun check => (answer check).milliseconds).sum⟩,
        after) := by
  have hrest : ([] ++ order).Subperm checks := hsub
  obtain ⟨hresults, htime⟩ := hanswer.results hrest
  refine ⟨((Stage.first host).last subject optIn order).host, ?_⟩
  rw [Stage.exec_runChecks]
  simp only [Stage.last] at hresults htime
  rw [hresults, htime, Stage.first, Nat.add_sub_cancel_left]

theorem AreIndependent.exec_runChecks_arranged
    (hanswer : AreIndependent subject optIn checks host answer)
    (harrange : ∀ check violations, (arrange check violations).Perm violations)
    (hties : ∀ check ∈ checks, ∀ outcome, (answer check).ending = .ok outcome →
      Violation.TiesAgree outcome.violations)
    {order : List Check} (hsub : order.Subperm checks) :
    ∃ after, (runChecks subject (order.map (arranged arrange)) optIn false).exec host =
      (.ok ⟨order.map (answeredArranged optIn answer arrange),
          (order.map fun check => (answer check).milliseconds).sum⟩, after) := by
  have hrest : ([] ++ order).Subperm checks := hsub
  obtain ⟨-, htime⟩ := hanswer.results hrest
  obtain ⟨hresults, hlast⟩ := hanswer.results_arranged harrange hties hrest
  refine ⟨((Stage.first host).last subject optIn order).host, ?_⟩
  rw [Stage.exec_runChecks]
  simp only [Stage.last] at hresults htime hlast
  rw [hresults, hlast, htime, Stage.first, Nat.add_sub_cancel_left]

/-! ## Rows -/

/-- Checks in the order of their identifiers. -/
def sortById (checks : List Check) : List Check := checks.mergeSort fun a b => decide (a.id ≤ b.id)

theorem sortResults_map {come : Check → Result} (hcome : ∀ check, (come check).check.id = check.id)
    (checks : List Check) : sortResults (checks.map come) = (sortById checks).map come := by
  refine (List.map_mergeSort fun a _ b _ => ?_).symm
  rw [hcome, hcome]

/-- What is reported of a check that ended like this, in the order in which it was found. -/
def reported (optIn : OptIn) (check : Check) : Except Failure Outcome → List Violation
  | .ok outcome =>
    if check.IsDowngraded (isOptedIn check optIn) outcome then
      outcome.violations.filter fun violation => violation.severity ≠ .error
    else outcome.violations
  | .error _ => []

/-- The row tells of the check, and holds what is reported of it, sorted. -/
def IsRowOf (optIn : OptIn) (answer : Check → Answer) (check : Check) (row : Value) : Prop :=
  row.Has "id" (.text check.id) ∧
    ∃ violations : List Violation, row.Has "violations" (.list (violations.map Violation.toValue)) ∧
      violations.Pairwise (fun v w => (v.compareTo w).isLE = true) ∧
      violations.Perm (reported optIn check (answer check).ending)

theorem violations_answered_perm (optIn : OptIn) (answer : Check → Answer) (check : Check) :
    (answered optIn answer check).violations.Perm (reported optIn check (answer check).ending) := by
  unfold answered
  rcases (answer check).ending with failure | outcome
  · exact .refl _
  by_cases hdowngraded : check.IsDowngraded (isOptedIn check optIn) outcome
  · simp only [resultOfEnding, resultOf_of_isDowngraded hdowngraded, reported, if_pos hdowngraded]
    exact (Violation.sort_perm _).filter _
  · simp only [resultOfEnding, resultOf_of_not_isDowngraded hdowngraded, reported,
      if_neg hdowngraded]
    exact Violation.sort_perm _

@[simp] theorem check_answered (optIn : OptIn) (answer : Check → Answer) (check : Check) :
    (answered optIn answer check).check = check :=
  check_resultOfEnding _ _ _ _

theorem isRowOf_row (optIn : OptIn) (answer : Check → Answer) (check : Check) :
    IsRowOf optIn answer check (row (answered optIn answer check)) := by
  have hid : (row (answered optIn answer check)).Has "id"
      (.text (answered optIn answer check).check.id) := rfl
  rw [check_answered] at hid
  exact ⟨hid, Violation.sort (answered optIn answer check).violations, rfl,
    Violation.pairwise_sort _,
    (Violation.sort_perm _).trans (violations_answered_perm optIn answer check)⟩

/-! ## Reports -/

theorem row_answeredArranged (check : Check) :
    row (answeredArranged optIn answer arrange check) = row (answered optIn answer check) := by
  simp only [row, Report.isOverBudget, answeredArranged, check_answered]
  rfl

/-- The reports of two runs show the same. -/
structure SameReport (summary other : Summary) : Prop where
  rows : (sortResults other.results).map row = (sortResults summary.results).map row
  counters : summaryTable other = summaryTable summary
  status : other.status = summary.status

theorem sameReport_of_perm {order : List Check} (hids : (checks.map fun check => check.id).Nodup)
    (hperm : order.Perm checks) (milliseconds : Nat) :
    SameReport ⟨checks.map (answered optIn answer), milliseconds⟩
      ⟨order.map (answeredArranged optIn answer arrange), milliseconds⟩ where
  rows := by
    rw [sortResults_map (fun check => rfl), sortResults_map fun check => by rw [check_answered],
      sortById, Text.sortBy_eq_of_perm hperm hids, ← sortById, List.map_map, List.map_map]
    exact List.map_congr_left fun check _ => row_answeredArranged check
  counters := by
    have hcount (status : Status) :
        (order.map (answeredArranged optIn answer arrange)).countP
            (fun result => result.status = status) =
          (checks.map (answered optIn answer)).countP fun result => result.status = status := by
      rw [List.countP_map, List.countP_map]
      exact hperm.countP_eq _
    simp only [summaryTable, Summary.count, hcount, List.length_map, hperm.length_eq]
  status := by
    have hany : (order.map (answeredArranged optIn answer arrange)).any
          (fun result => result.status.isFailing) =
        (checks.map (answered optIn answer)).any fun result => result.status.isFailing := by
      rw [List.any_map, List.any_map]
      exact hperm.any_eq
    simp only [Summary.status, hany]

theorem SameReport.payload_eq {summary other : Summary} (hsame : SameReport summary other)
    (runId moduleRoot : String) :
    payload other runId moduleRoot = payload summary runId moduleRoot := by
  simp only [payload, Report.draft, hsame.rows, hsame.counters, hsame.status]

/-- The report of a run without an early end depends neither on the order of checks that do not depend
on each other, nor on the order in which each of them finds what it finds: its rows, its counters, its
status and its texts are the same.  The row of a check holds what is reported of the check, sorted. -/
theorem report_order_independent (subject : Subject) (optIn : OptIn) {checks order : List Check}
    (hperm : order.Perm checks) (hids : (checks.map fun check => check.id).Nodup) (host : Host)
    {answer : Check → Answer} (hanswer : AreIndependent subject optIn checks host answer)
    (hties : ∀ check ∈ checks, ∀ outcome, (answer check).ending = .ok outcome →
      Violation.TiesAgree outcome.violations)
    {arrange : Check → List Violation → List Violation}
    (harrange : ∀ check violations, (arrange check violations).Perm violations) :
    ∃ summary summary' after after',
      (runChecks subject checks optIn false).exec host = (.ok summary, after) ∧
      (runChecks subject (order.map (arranged arrange)) optIn false).exec host =
        (.ok summary', after') ∧
      SameReport summary summary' ∧
      List.Forall₂ (IsRowOf optIn answer) (sortById checks)
        ((sortResults summary.results).map row) ∧
      ∀ runId moduleRoot,
        payload summary' runId moduleRoot = payload summary runId moduleRoot ∧
        (payload summary' runId moduleRoot).map (Json.write .oneLine) =
          (payload summary runId moduleRoot).map (Json.write .oneLine) ∧
        ∀ detail, (payload summary' runId moduleRoot).map (text detail) =
          (payload summary runId moduleRoot).map (text detail) := by
  obtain ⟨after, hrun⟩ := hanswer.exec_runChecks (.refl checks)
  obtain ⟨after', hrun'⟩ := hanswer.exec_runChecks_arranged harrange hties hperm.subperm
  have htime : (order.map fun check => (answer check).milliseconds).sum =
      (checks.map fun check => (answer check).milliseconds).sum := (hperm.map _).sum_nat
  rw [htime] at hrun'
  have hsame : SameReport
      ⟨checks.map (answered optIn answer), (checks.map fun check => (answer check).milliseconds).sum⟩
      ⟨order.map (answeredArranged optIn answer arrange),
        (checks.map fun check => (answer check).milliseconds).sum⟩ :=
    sameReport_of_perm hids hperm _
  refine ⟨_, _, after, after', hrun, hrun', hsame, ?_, fun runId moduleRoot => ?_⟩
  · rw [sortResults_map fun check => by rw [check_answered], List.map_map, List.forall₂_map_right_iff,
      List.forall₂_same]
    exact fun check _ => isRowOf_row optIn answer check
  · have hpayload := hsame.payload_eq runId moduleRoot
    rw [hpayload]
    exact ⟨rfl, rfl, fun _ => rfl⟩

/-- Two errors that are not in order. -/
def twoErrors : Outcome := .found [.ofModule "X" "wrong", .ofModule "W" "worse"] []

/-- A check that finds two errors, and one that breaks off. -/
def twoChecks : List Check := [optInCheck "x/b" (.ok twoErrors), optInCheck "x/a" (.error breakdown)]

def twoAnswers (check : Check) : Answer :=
  ⟨if check.id = "x/b" then .ok twoErrors else .error breakdown, 0⟩

theorem areIndependent_twoChecks (subject : Subject) (optIn : OptIn) (host : Host) :
    AreIndependent subject optIn twoChecks host twoAnswers := by
  intro before check hsub
  have hmem : check ∈ twoChecks := hsub.subset (by simp)
  simp only [twoChecks, List.mem_cons, List.not_mem_nil, or_false] at hmem
  rcases hmem with rfl | rfl
  · exact ⟨rfl, rfl⟩
  · exact ⟨rfl, rfl⟩

/-- Two checks, one of which finds two errors: made the other way round, with the errors the other way
round, they are reported alike. -/
theorem report_order_independent_two :
    twoChecks.reverse.Perm twoChecks ∧ (twoChecks.map fun check => check.id).Nodup ∧
    AreIndependent (.ofModule "m") ⟨["x/b"]⟩ twoChecks (.holding ⟨[]⟩ ⟨.slash, []⟩) twoAnswers ∧
    (∀ check ∈ twoChecks, ∀ outcome, (twoAnswers check).ending = .ok outcome →
      Violation.TiesAgree outcome.violations) ∧
    ∃ summary summary' after after',
      (runChecks (.ofModule "m") twoChecks ⟨["x/b"]⟩ false).exec (.holding ⟨[]⟩ ⟨.slash, []⟩) =
        (.ok summary, after) ∧
      (runChecks (.ofModule "m") (twoChecks.reverse.map (arranged fun _ => List.reverse)) ⟨["x/b"]⟩
          false).exec (.holding ⟨[]⟩ ⟨.slash, []⟩) = (.ok summary', after') ∧
      SameReport summary summary' := by
  have hperm : twoChecks.reverse.Perm twoChecks := List.reverse_perm _
  have hids : (twoChecks.map fun check => check.id).Nodup := by decide
  have hanswer := areIndependent_twoChecks (.ofModule "m") ⟨["x/b"]⟩ (.holding ⟨[]⟩ ⟨.slash, []⟩)
  have hties : ∀ check ∈ twoChecks, ∀ outcome, (twoAnswers check).ending = .ok outcome →
      Violation.TiesAgree outcome.violations := by
    intro check _ outcome hending v hv w hw _
    have herrors : ∀ violation ∈ twoErrors.violations, violation.severity = .error := by decide
    unfold twoAnswers at hending
    split at hending
    · obtain rfl := Except.ok.inj hending
      rw [herrors v hv, herrors w hw]
    · cases hending
  have harrange (_ : Check) (violations : List Violation) :
      (List.reverse violations).Perm violations := List.reverse_perm violations
  obtain ⟨summary, summary', after, after', hrun, hrun', hsame, -⟩ :=
    report_order_independent (.ofModule "m") ⟨["x/b"]⟩ hperm hids (.holding ⟨[]⟩ ⟨.slash, []⟩) hanswer
      hties harrange
  exact ⟨hperm, hids, hanswer, hties, summary, summary', after, after', hrun, hrun', hsame⟩

end Check

end DscAudit

import DscAudit.Proofs.Check.Order

/-!
# What becomes of findings

The row of a check accounts for everything that the check found: each violation of the outcome is a
violation of the row or, where the check is downgraded, one more warning.  A row fails exactly if the
check was made and an error is left in the row.
-/

namespace DscAudit

/-! ## Canonical order -/

namespace Violation

/-- The violations of the list that stand at one place in the order with `v`. -/
def ties (v : Violation) (violations : List Violation) : List Violation :=
  violations.filter fun w => v.compareTo w = .eq

/-- The violations in canonical order, those at one place in it as they were given. -/
structure IsCanonical (arranged violations : List Violation) : Prop where
  sorted : arranged.Pairwise fun v w => (v.compareTo w).isLE = true
  perm : arranged.Perm violations
  stable : ∀ v : Violation, v.ties arranged = v.ties violations

theorem pairwise_ties (v : Violation) (violations : List Violation) :
    (v.ties violations).Pairwise fun u w => (u.compareTo w).isLE = true := by
  refine (List.pairwise_of_forall fun _ _ => trivial).imp_of_mem
    (R := fun _ _ => True) fun {u w} hu hw _ => ?_
  have hvu : v.compareTo u = .eq := of_decide_eq_true (List.mem_filter.1 hu).2
  have hvw : v.compareTo w = .eq := of_decide_eq_true (List.mem_filter.1 hw).2
  rw [Std.TransCmp.eq_trans (Std.OrientedCmp.eq_symm hvu) hvw]
  rfl

theorem isCanonical_sort (violations : List Violation) : IsCanonical (sort violations) violations where
  sorted := pairwise_sort violations
  perm := sort_perm violations
  stable v := by
    -- ties are sorted already, so sorting keeps them as a sublist, and there are as many as before
    have hsub : (v.ties violations).Sublist (v.ties (sort violations)) := by
      have hkept := (List.sublist_mergeSort isLE_trans isLE_total (pairwise_ties v violations)
        List.filter_sublist).filter fun w => v.compareTo w = .eq
      simpa only [ties, sort, List.filter_filter, Bool.and_self] using hkept
    exact (hsub.eq_of_length ((sort_perm violations).filter _).length_eq.symm).symm

/-- What is left of the order when some violations are left out. -/
theorem IsCanonical.filter {arranged violations : List Violation}
    (hcanonical : IsCanonical arranged violations) (p : Violation → Bool) :
    IsCanonical (arranged.filter p) (violations.filter p) where
  sorted := hcanonical.sorted.filter p
  perm := hcanonical.perm.filter p
  stable v := by
    have hstable := congrArg (List.filter p) (hcanonical.stable v)
    rwa [ties, ties, List.filter_comm, List.filter_comm p] at hstable

end Violation

/-! ## Rows -/

/-- The kind of failure that a warning names. -/
def Failure.kind : Failure → String
  | .complaint _ => "ScriptError"
  | .defect d => d.kind

theorem Failure.text_eq (failure : Failure) : failure.text = failure.kind ++ ": " ++ failure.message := by
  cases failure with
  | complaint c =>
    have hkind : "ScriptError" ++ ": " = "ScriptError: " := rfl
    rw [text, kind, hkind, message]
  | defect d => rw [text, kind, message]

namespace Check

/-- Some violation is an error. -/
def HoldsError (violations : List Violation) : Prop :=
  ∃ violation ∈ violations, violation.severity = .error

/-- The check was made and found an error. -/
def WouldFail (outcome : Outcome) : Prop := outcome.skipped = "" ∧ HoldsError outcome.violations

theorem statusOf_eq_fail_iff (outcome : Outcome) : statusOf outcome = .fail ↔ WouldFail outcome := by
  have hskipped : outcome.skipped.isEmpty = true ↔ outcome.skipped = "" := String.isEmpty_iff
  have herror : (outcome.violations.any fun violation => violation.severity = .error) = true ↔
      HoldsError outcome.violations := by
    simp [HoldsError]
  rw [statusOf, WouldFail, ← hskipped, ← herror]
  cases outcome.skipped.isEmpty <;>
    cases outcome.violations.any fun violation => violation.severity = .error <;> simp

/-- The row of a check accounts for how the check ended. -/
structure Accounts (optIn : OptIn) (check : Check) (ending : Except Failure Outcome)
    (row : Result) : Prop where
  fails_iff : row.status = .fail ↔
    (∃ outcome, ending = .ok outcome ∧ outcome.skipped = "") ∧ HoldsError row.violations
  broken : ∀ failure, ending = .error failure →
    row.status = .error ∧ row.violations = [] ∧
      row.warnings = [failure.kind ++ ": " ++ failure.message]
  downgraded : ∀ outcome, ending = .ok outcome → check.IsNotWanted optIn → WouldFail outcome →
    row.status = .pass ∧
      Violation.IsCanonical row.violations
        (outcome.violations.filter fun violation => violation.severity ≠ .error) ∧
      ∃ errors, Violation.IsCanonical errors
          (outcome.violations.filter fun violation => violation.severity = .error) ∧
        row.warnings = outcome.warnings ++ errors.map Violation.render
  kept : ∀ outcome, ending = .ok outcome → ¬ (check.IsNotWanted optIn ∧ WouldFail outcome) →
    Violation.IsCanonical row.violations outcome.violations ∧ row.warnings = outcome.warnings
  complete : ∀ outcome, ending = .ok outcome →
    ∃ turned, (row.violations ++ turned).Perm outcome.violations ∧
      row.warnings = outcome.warnings ++ turned.map Violation.render

variable {optIn : OptIn}

theorem isDowngraded_iff (check : Check) (outcome : Outcome) :
    check.IsDowngraded (isOptedIn check optIn) outcome ↔
      check.IsNotWanted optIn ∧ WouldFail outcome := by
  rw [IsDowngraded, statusOf_eq_fail_iff, and_comm]
  rfl

theorem accounts_error (check : Check) (milliseconds : Nat) (failure : Failure) :
    Accounts optIn check (.error failure) (resultOfEnding optIn check milliseconds (.error failure)) where
  fails_iff := by
    simp [resultOfEnding, brokenResult]
  broken _ hfailure := by
    cases hfailure
    exact ⟨rfl, rfl, congrArg (fun text => [text]) failure.text_eq⟩
  downgraded _ houtcome := by cases houtcome
  kept _ houtcome := by cases houtcome
  complete _ houtcome := by cases houtcome

theorem accounts_downgraded {check : Check} {outcome : Outcome} (hcheck : check.IsNotWanted optIn)
    (hfail : WouldFail outcome) (milliseconds : Nat) :
    Accounts optIn check (.ok outcome) (resultOfEnding optIn check milliseconds (.ok outcome)) := by
  have hrow := resultOf_of_isDowngraded ((isDowngraded_iff check outcome).2 ⟨hcheck, hfail⟩) milliseconds
  have hcanonical := Violation.isCanonical_sort outcome.violations
  have herrors := hcanonical.filter fun violation => violation.severity = .error
  have hothers := hcanonical.filter fun violation => violation.severity ≠ .error
  rw [resultOfEnding, hrow]
  refine ⟨?fails_iff, ?broken, ?downgraded, ?kept, ?complete⟩
  case fails_iff => simp [HoldsError]
  case broken =>
    intro failure hfailure
    cases hfailure
  case downgraded =>
    intro _ houtcome _ _
    cases houtcome
    exact ⟨rfl, hothers, _, herrors, rfl⟩
  case kept =>
    intro _ houtcome hkept
    cases houtcome
    exact absurd ⟨hcheck, hfail⟩ hkept
  case complete =>
    intro _ houtcome
    cases houtcome
    refine ⟨_, ?_, rfl⟩
    have hsplit := List.filter_append_perm (fun violation : Violation => decide (violation.severity = .error))
      (Violation.sort outcome.violations)
    have hnot : (fun violation : Violation => !decide (violation.severity = .error)) =
        fun violation => decide (violation.severity ≠ .error) := by
      funext violation
      rw [decide_not]
    rw [hnot] at hsplit
    exact List.perm_append_comm.trans (hsplit.trans hcanonical.perm)

theorem accounts_kept {check : Check} {outcome : Outcome}
    (hkept : ¬ (check.IsNotWanted optIn ∧ WouldFail outcome)) (milliseconds : Nat) :
    Accounts optIn check (.ok outcome) (resultOfEnding optIn check milliseconds (.ok outcome)) := by
  have hrow := resultOf_of_not_isDowngraded ((isDowngraded_iff check outcome).not.2 hkept) milliseconds
  have hcanonical := Violation.isCanonical_sort outcome.violations
  have hholds : HoldsError (Violation.sort outcome.violations) ↔ HoldsError outcome.violations := by
    simp only [HoldsError, hcanonical.perm.mem_iff]
  rw [resultOfEnding, hrow]
  refine ⟨?fails_iff, ?broken, ?downgraded, ?kept, ?complete⟩
  case fails_iff =>
    rw [statusOf_eq_fail_iff, WouldFail, hholds]
    simp
  case broken =>
    intro failure hfailure
    cases hfailure
  case downgraded =>
    intro _ houtcome hcheck hfail
    cases houtcome
    exact absurd ⟨hcheck, hfail⟩ hkept
  case kept =>
    intro _ houtcome _
    cases houtcome
    exact ⟨hcanonical, rfl⟩
  case complete =>
    intro _ houtcome
    cases houtcome
    refine ⟨[], ?_, (List.append_nil _).symm⟩
    rw [List.append_nil]
    exact hcanonical.perm

theorem accounts_resultOfEnding (check : Check) (milliseconds : Nat) (ending : Except Failure Outcome) :
    Accounts optIn check ending (resultOfEnding optIn check milliseconds ending) := by
  rcases ending with failure | outcome
  · exact accounts_error check milliseconds failure
  by_cases hdowngraded : check.IsNotWanted optIn ∧ WouldFail outcome
  · exact accounts_downgraded hdowngraded.1 hdowngraded.2 milliseconds
  · exact accounts_kept hdowngraded milliseconds

/-- However a check ends, it has a row, and the row accounts for how it ended. -/
theorem exec_runOne_accounts (subject : Subject) (optIn : OptIn) (check : Check) (known : Findings)
    (host : Host) :
    ∃ row known' after,
      ((runOne subject optIn check).run known).exec host = (.ok (row, known'), after) ∧
      row.check = check ∧
      Accounts optIn check ((((check.run subject).run known).exec host).1.map (·.1)) row :=
  ⟨_, _, _, exec_runOne_eq subject optIn check known host, check_resultOfEnding _ _ _ _,
    accounts_resultOfEnding _ _ _⟩

end Check

end DscAudit

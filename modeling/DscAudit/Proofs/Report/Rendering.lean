import DscAudit.Proofs.Text.Sorted
import DscAudit.Report.Payload
import DscAudit.Report.Text
import Mathlib.Data.List.Forall2
import Mathlib.Data.String.Basic

/-!
# The texts of a payload

The payload of a run has all the fields that its texts show, so every text of it can be made.  The rows
of the payload are in order already, and those of failing checks are named by the quiet text and behind
the sums of the others.
-/

namespace DscAudit

section Steps

variable {ε α β : Type}

/-- The step comes to a value. -/
def Succeeds (step : Except ε α) : Prop := ∃ a, step = .ok a

theorem Succeeds.ok (a : α) : Succeeds (.ok a : Except ε α) := ⟨a, rfl⟩

theorem Succeeds.after {step : Except ε α} {next : α → Except ε β} {a : α} (hstep : step = .ok a)
    (hnext : Succeeds (next a)) : Succeeds (step >>= next) := by
  rw [hstep]
  exact hnext

theorem Succeeds.bind {step : Except ε α} {next : α → Except ε β} (hstep : Succeeds step)
    (hnext : ∀ a, Succeeds (next a)) : Succeeds (step >>= next) := by
  obtain ⟨a, rfl⟩ := hstep
  exact hnext a

theorem Succeeds.ite {c : Prop} [Decidable c] {first second : Except ε α} (hfirst : Succeeds first)
    (hsecond : Succeeds second) : Succeeds (if c then first else second) := by
  split <;> assumption

/-- Steps that all come to values of some kind, one after the other. -/
theorem mapM_eq_ok {step : α → Except ε β} {post : α → β → Prop} {items : List α}
    (hstep : ∀ item ∈ items, ∃ b, step item = .ok b ∧ post item b) :
    ∃ values, items.mapM step = .ok values ∧ List.Forall₂ post items values := by
  induction items with
  | nil => exact ⟨[], rfl, .nil⟩
  | cons item items ih =>
    obtain ⟨b, hb, hpost⟩ := hstep item List.mem_cons_self
    obtain ⟨values, hvalues, hposts⟩ := ih fun other hother => hstep other (.tail item hother)
    refine ⟨b :: values, ?_, .cons hpost hposts⟩
    rw [List.mapM_cons, hb, hvalues]
    rfl

/-- A step that comes to a value for everything that is made like the items. -/
theorem mapM_map_eq_ok {γ : Type} {step : β → Except ε γ} {made : α → β} {value : α → γ}
    (hstep : ∀ item, step (made item) = .ok (value item)) (items : List α) :
    (items.map made).mapM step = .ok (items.map value) := by
  induction items with
  | nil => rfl
  | cons item items ih =>
    rw [List.map_cons, List.mapM_cons, hstep, ih]
    rfl

theorem Succeeds.mapM {step : α → Except ε β} {items : List α}
    (hstep : ∀ item ∈ items, Succeeds (step item)) : Succeeds (items.mapM step) := by
  have hall : ∀ item ∈ items, ∃ b, step item = .ok b ∧ True :=
    fun item hitem => (hstep item hitem).imp fun _ hb => ⟨hb, trivial⟩
  obtain ⟨values, hvalues, -⟩ := mapM_eq_ok hall
  exact ⟨values, hvalues⟩

end Steps

namespace Report

open DscAudit.Check (Result Summary Status)

/-! ## Rows -/

theorem isFailing_row (result : Result) : isFailing (row result) = .ok result.status.isFailing := by
  have hmember : (row result).member? "status" = .ok (some (.text result.status.capitals)) := rfl
  rw [isFailing, hmember]
  cases result.status <;> rfl

theorem filterM_isFailing (results : List Result) :
    (results.map row).filterM isFailing =
      .ok ((results.filter fun result => result.status.isFailing).map row) := by
  have haux (kept : List Value) :
      (results.map row).filterAuxM isFailing kept =
        .ok (((results.filter fun result => result.status.isFailing).map row).reverse ++ kept) := by
    induction results generalizing kept with
    | nil => rfl
    | cons result results ih =>
      rw [List.map_cons, List.filterAuxM, isFailing_row, List.filter_cons]
      show List.filterAuxM isFailing _ _ = _
      rw [ih]
      cases result.status.isFailing with
      | true => simp
      | false => rfl
  rw [List.filterM, haux, List.append_nil]
  show Except.ok _ = _
  rw [List.reverse_reverse]

theorem pairwise_sortResults (results : List Result) :
    (sortResults results).Pairwise fun a b => a.check.id ≤ b.check.id :=
  Text.pairwise_sortBy (fun result => result.check.id) results

/-- Sorted results stay as they are when they are sorted again by what their rows have as identifier. -/
theorem sortedRows_draft (summary : Summary) (runId moduleRoot : String) :
    sortedRows (.table (draft summary runId moduleRoot)) =
      .ok ((sortResults summary.results).map row) := by
  have hkeyed (results : List Result) :
      (results.map row).mapM (fun row => do return ((← row.memberOr "id" (.text "")).plain, row)) =
        (.ok (results.map fun result => (result.check.id, row result)) : Except Defect _) := by
    refine mapM_map_eq_ok (fun result => ?_) results
    rfl
  have hsorted := pairwise_sortResults summary.results
  have hrows : (Value.table (draft summary runId moduleRoot)).memberOr "rows" (.list []) =
      .ok (.list ((sortResults summary.results).map row)) := rfl
  rw [sortedRows, hrows]
  show (((sortResults summary.results).map row).mapM fun row => do
    return ((← row.memberOr "id" (.text "")).plain, row)) >>= _ = _
  rw [hkeyed]
  show Except.ok (List.map _ (List.mergeSort _ _)) = _
  rw [List.mergeSort_of_pairwise, List.map_map]
  · rfl
  · rw [List.pairwise_map]
    exact hsorted.imp fun hle => decide_eq_true hle

/-! ## Lines of rows -/

theorem succeeds_violationLine (violation : Violation) : Succeeds (violationLine violation.toValue) := by
  have hmessage (path : Value) (place : String) :
      Succeeds (do
        let message := (← violation.toValue.required "message").plain
        return if path.isTruthy then "  " ++ place ++ ": " ++ message else "  " ++ message) :=
    .after rfl (.ok _)
  unfold violationLine
  refine .after rfl (.ite (.after rfl (.ite ?_ ?_)) ?_)
  · exact .after rfl (hmessage _ _)
  · exact .after rfl (hmessage _ _)
  · exact .after rfl (hmessage _ _)

theorem succeeds_headLine (detail : Detail) (result : Result) :
    Succeeds (headLine detail (row result)) := by
  unfold headLine
  refine .after rfl (.after rfl (.after rfl (.after rfl (.ite (.after rfl ?_) (.ok _)))))
  split
  · exact .after rfl (.ok _)
  · exact .ok _

theorem succeeds_rowLines (detail : Detail) (result : Result) :
    Succeeds (rowLines detail (row result)) := by
  have hviolations :
      Succeeds (((Violation.sort result.violations).map Violation.toValue).mapM violationLine) :=
    .mapM (List.forall_mem_map.mpr fun violation _ => succeeds_violationLine violation)
  have hwarnings (before : List String) :
      Succeeds (do
        let warnings ←
          if detail = .verbose then do
            let warnings ← (← (row result).memberOr "warnings" (.list [])).parts
            pure (warnings.map fun warning => "  warning: " ++ warning.plain)
          else pure []
        return before ++ warnings) :=
    .ite (.after rfl (.after rfl (.after rfl (.ok _)))) (.after rfl (.ok _))
  unfold rowLines
  refine .bind (succeeds_headLine detail result) fun head => .after (isFailing_row result) ?_
  refine .ite ?_ (.after rfl (hwarnings _))
  exact .after rfl (.after rfl (.bind hviolations fun lines => hwarnings _))

/-! ## Lines behind the rows -/

theorem succeeds_summaryLine (summary : Summary) (runId moduleRoot : String) :
    Succeeds (summaryLine (.table (draft summary runId moduleRoot))) := by
  unfold summaryLine
  refine .after rfl (.bind (.mapM fun key hkey => ?_) fun _ => .ok _)
  have hnumber : Succeeds (number (.table (summaryTable summary)) key) := by
    simp only [List.mem_cons, List.not_mem_nil, or_false] at hkey
    rcases hkey with rfl | rfl | rfl | rfl | rfl | rfl
    all_goals exact .ok _
  exact .bind hnumber fun _ => .ok _

theorem succeeds_join (separator : String) (texts : List String) :
    Succeeds (Value.join separator (texts.map .text)) := by
  have htexts (index : Nat) : Value.textsFrom index (texts.map .text) = .ok texts := by
    induction texts generalizing index with
    | nil => rfl
    | cons s texts ih =>
      rw [List.map_cons, Value.textsFrom, ih]
      rfl
  exact .after (htexts 0) (.ok _)

theorem succeeds_detailLine (result : Result) : Succeeds (detailLine (row result)) := by
  have hmessages (violations : List Violation) :
      (violations.map Violation.toValue).mapM (fun violation => violation.required "message") =
        .ok ((violations.map Violation.message).map .text) := by
    rw [List.map_map]
    refine mapM_map_eq_ok (fun violation => ?_) violations
    rfl
  unfold detailLine
  refine .after rfl (.ite (.after rfl (.after rfl ?_)) (.after rfl (.after rfl ?_)))
  · exact .after (hmessages _) (succeeds_join "; " _)
  · exact succeeds_join "; " _

/-- The line of a failing check begins with its identifier. -/
theorem failingLine_row (result : Result) :
    ∃ shown, failingLine (row result) = .ok ("- " ++ result.check.id ++ ": " ++ shown) := by
  obtain ⟨detail, hdetail⟩ := succeeds_detailLine result
  unfold failingLine
  rw [hdetail]
  show ∃ shown, (if detail.isEmpty then _ else _) = _
  split
  · exact ⟨_, rfl⟩
  · exact ⟨_, rfl⟩

theorem quietLines_row (failing : List Result) :
    quietLines (failing.map row) =
      .ok (if failing.isEmpty then ["PASS"]
        else failing.map fun result => "FAIL " ++ result.check.id) := by
  have hlines : (failing.map row).mapM (fun row => do
        return "FAIL " ++ (← row.required "id").plain) =
      (.ok (failing.map fun result => "FAIL " ++ result.check.id) : Except Defect _) := by
    refine mapM_map_eq_ok (fun result => ?_) failing
    rfl
  rw [quietLines, hlines]
  cases failing <;> rfl

end Report

end DscAudit

import DscAudit.Proofs.Report.Rendering

/-!
# What a report tells

The status of a payload, its counters, its rows, the quiet text and the lines behind the sums all come
from the same results.  Here what each of them tells is read off the payload and its texts alone.
-/

namespace DscAudit

/-- The value is a table that has the part under the key. -/
def Value.Has (v : Value) (key : String) (part : Value) : Prop := v.member? key = .ok (some part)

namespace Report

open DscAudit.Check (Result Summary Status)

/-- What is read off a payload and its texts. -/
structure Rendering where
  status : String
  rows : List Value
  passed : Int
  failed : Int
  skipped : Int
  errors : Int
  total : Int
  quiet : String
  /-- The lines of each row. -/
  before : List (List String)
  sums : String
  /-- The lines behind the sums. -/
  trailer : List String

namespace Rendering

/-- The payload and its texts are like this. -/
structure IsOf (rendering : Rendering) (payload : Value) : Prop where
  status : payload.Has "status" (.text rendering.status)
  rows : payload.Has "rows" (.list rendering.rows)
  fields : ∀ row ∈ rendering.rows, ∃ id status, row.Has "id" (.text id) ∧ row.Has "status" (.text status)
  counters : ∃ summary, payload.Has "summary" summary ∧
    summary.Has "passed" (.int rendering.passed) ∧ summary.Has "failed" (.int rendering.failed) ∧
    summary.Has "skipped" (.int rendering.skipped) ∧ summary.Has "errors" (.int rendering.errors) ∧
    summary.Has "total" (.int rendering.total)
  quiet : text .quiet payload = .ok rendering.quiet
  before : rendering.rows.mapM (rowLines .normal) = .ok rendering.before
  sums : summaryLine payload = .ok rendering.sums
  lines : lines .normal payload =
    .ok (rendering.before.flatten ++ rendering.sums :: rendering.trailer)
  text : text .normal payload =
    .ok ("\n".intercalate (rendering.before.flatten ++ rendering.sums :: rendering.trailer))

/-- The identifier of the row of a check that failed or broke off. -/
def failingId? (row : Value) : Option String :=
  match row.member? "status", row.member? "id" with
  | .ok (some (.text status)), .ok (some (.text id)) =>
    if status = "FAIL" ∨ status = "ERROR" then some id else none
  | _, _ => none

/-- The identifiers of the failing rows, in the order of the rows. -/
def failingIds (rendering : Rendering) : List String := rendering.rows.filterMap failingId?

/-- Every row is counted once. -/
structure AddsUp (rendering : Rendering) : Prop where
  counters : rendering.passed + rendering.failed + rendering.skipped + rendering.errors = rendering.total
  rows : rendering.total = rendering.rows.length

/-- The texts name the failing rows and no others, in the order of their identifiers. -/
structure NamesFailing (rendering : Rendering) : Prop where
  ordered : rendering.failingIds.Pairwise (· ≤ ·)
  quiet : rendering.quiet =
    if rendering.failingIds = [] then "PASS"
    else "\n".intercalate (rendering.failingIds.map fun id => "FAIL " ++ id)
  trailer : ∃ entries,
    List.Forall₂ (fun id line => ∃ shown, line = "- " ++ id ++ ": " ++ shown)
      rendering.failingIds entries ∧
    rendering.trailer = if rendering.failingIds = [] then [] else "failing checks:" :: entries

/-! ## Whether a row fails

Each rendering tells on its own whether some row fails.
-/

variable {rendering : Rendering} {payload : Value}

theorem IsOf.exists_failing_iff (hof : rendering.IsOf payload) :
    (∃ row ∈ rendering.rows, row.Has "status" (.text "FAIL") ∨ row.Has "status" (.text "ERROR")) ↔
      rendering.failingIds ≠ [] := by
  have hrow (row : Value) (hmem : row ∈ rendering.rows) :
      (row.Has "status" (.text "FAIL") ∨ row.Has "status" (.text "ERROR")) ↔ failingId? row ≠ none := by
    obtain ⟨id, status, hid, hstatus⟩ := hof.fields row hmem
    simp only [Value.Has] at hid hstatus ⊢
    simp only [failingId?, hid, hstatus, Except.ok.injEq, Option.some.injEq, Value.text.injEq, ne_eq,
      ite_eq_right_iff, reduceCtorEq, imp_false, not_not]
  simp only [failingIds, ne_eq, List.filterMap_eq_nil_iff, not_forall]
  constructor
  · rintro ⟨row, hmem, hfails⟩
    exact ⟨row, hmem, (hrow row hmem).mp hfails⟩
  · rintro ⟨row, hmem, hfails⟩
    exact ⟨row, hmem, (hrow row hmem).mpr hfails⟩

theorem NamesFailing.quiet_iff (hnames : rendering.NamesFailing) :
    rendering.quiet ≠ "PASS" ↔ rendering.failingIds ≠ [] := by
  rw [hnames.quiet]
  cases rendering.failingIds with
  | nil => simp
  | cons id ids =>
    rw [if_neg (List.cons_ne_nil id ids)]
    refine iff_of_true (fun hpass => ?_) (List.cons_ne_nil id ids)
    -- The first letters differ.
    have hletters := congrArg String.toList hpass
    rw [String.toList_intercalate] at hletters
    cases ids <;> simp at hletters

theorem NamesFailing.trailer_iff (hnames : rendering.NamesFailing) :
    "failing checks:" ∈ rendering.trailer ↔ rendering.failingIds ≠ [] := by
  obtain ⟨entries, -, htrailer⟩ := hnames.trailer
  rw [htrailer]
  split <;> simp_all

end Rendering

/-! ## The lines of a payload -/

/-- The results of failing checks, in the order of the payload. -/
def failing (summary : Summary) : List Result :=
  (sortResults summary.results).filter fun result => result.status.isFailing

variable {summary : Summary} {runId moduleRoot : String}

theorem filterM_sortResults : ((sortResults summary.results).map row).filterM isFailing =
    .ok ((failing summary).map row) :=
  filterM_isFailing (sortResults summary.results)

theorem lines_quiet : lines .quiet (.table (draft summary runId moduleRoot)) =
    .ok (if (failing summary).isEmpty then ["PASS"]
      else (failing summary).map fun result => "FAIL " ++ result.check.id) := by
  rw [lines, sortedRows_draft]
  show (List.map row _).filterM isFailing >>= _ = _
  rw [filterM_sortResults]
  exact quietLines_row (failing summary)

theorem lines_shown (summary : Summary) (runId moduleRoot : String) {detail : Detail} (hdetail : detail ≠ .quiet) :
    ∃ before sums entries,
      ((sortResults summary.results).map row).mapM (rowLines detail) = .ok before ∧
      summaryLine (.table (draft summary runId moduleRoot)) = .ok sums ∧
      List.Forall₂ (fun (result : Result) line => ∃ shown, line = "- " ++ result.check.id ++ ": " ++ shown)
        (failing summary) entries ∧
      lines detail (.table (draft summary runId moduleRoot)) =
        .ok (before.flatten ++ sums ::
          if (failing summary).isEmpty then [] else "failing checks:" :: entries) := by
  obtain ⟨before, hbefore⟩ : Succeeds (((sortResults summary.results).map row).mapM (rowLines detail)) :=
    .mapM (List.forall_mem_map.mpr fun result _ => succeeds_rowLines detail result)
  obtain ⟨sums, hsums⟩ := succeeds_summaryLine summary runId moduleRoot
  have hline : ∀ result ∈ failing summary, ∃ line, failingLine (row result) = .ok line ∧
      ∃ shown, line = "- " ++ result.check.id ++ ": " ++ shown := by
    intro result _
    obtain ⟨shown, hshown⟩ := failingLine_row result
    exact ⟨_, hshown, shown, rfl⟩
  obtain ⟨entries, hentries, hnamed⟩ := mapM_eq_ok hline
  have hentries : ((failing summary).map row).mapM failingLine = .ok entries := by
    rw [List.mapM_map]
    exact hentries
  refine ⟨before, sums, entries, hbefore, hsums, hnamed, ?_⟩
  rw [lines, sortedRows_draft]
  show (List.map row _).filterM isFailing >>= _ = _
  rw [filterM_sortResults]
  show (if detail = .quiet then _ else _) = _
  rw [if_neg hdetail, hbefore, hsums]
  show (if ((failing summary).map row).isEmpty then _ else _) = _
  rw [hentries, List.isEmpty_map]
  cases (failing summary).isEmpty <;> rfl

/-! ## What the results say -/

theorem failingId?_row (result : Result) : Rendering.failingId? (row result) =
    if result.status.isFailing then some result.check.id else none := by
  have hstatus : (row result).member? "status" = .ok (some (.text result.status.capitals)) := rfl
  have hid : (row result).member? "id" = .ok (some (.text result.check.id)) := rfl
  rw [Rendering.failingId?, hstatus, hid]
  cases result.status <;> rfl

theorem filterMap_failingId? (results : List Result) :
    (results.map row).filterMap Rendering.failingId? =
      (results.filter fun result => result.status.isFailing).map fun result => result.check.id := by
  induction results with
  | nil => rfl
  | cons result results ih =>
    rw [List.map_cons, List.filterMap_cons, failingId?_row, List.filter_cons, ih]
    cases result.status.isFailing <;> rfl

theorem count_add_count (summary : Summary) :
    summary.count .pass + summary.count .fail + summary.count .skip + summary.count .error =
      summary.results.length := by
  obtain ⟨results, milliseconds⟩ := summary
  simp only [Summary.count]
  induction results with
  | nil => rfl
  | cons result results ih =>
    simp only [List.countP_cons, List.length_cons]
    cases result.status <;> simp <;> omega

theorem failing_ne_nil_iff :
    failing summary ≠ [] ↔ ∃ result ∈ summary.results, result.status.isFailing = true := by
  simp [failing, sortResults, List.mem_mergeSort]

theorem status_eq_pass_or_fail (summary : Summary) :
    summary.status = .pass ∨ summary.status = .fail := by
  unfold Summary.status
  split <;> simp

theorem status_eq_fail_iff : summary.status = .fail ↔ failing summary ≠ [] := by
  rw [failing_ne_nil_iff, Summary.status, ← List.any_eq_true]
  split <;> simp_all

theorem count_pos_iff : 0 < summary.count .fail + summary.count .error ↔ failing summary ≠ [] := by
  have hfailing (status : Status) : status.isFailing = true ↔ status = .fail ∨ status = .error := by
    cases status <;> simp [Status.isFailing]
  rw [failing_ne_nil_iff, Nat.add_pos_iff_pos_or_pos, Summary.count, Summary.count, List.countP_pos_iff,
    List.countP_pos_iff]
  simp only [hfailing, decide_eq_true_eq, and_or_left, exists_or]

/-- A payload without problems is built. -/
theorem payload_of_problems (summary : Summary) (runId moduleRoot : String)
    (hfits : shape.problems (Value.table (draft summary runId moduleRoot)).toDatum = []) :
    payload summary runId moduleRoot = .ok (.table (draft summary runId moduleRoot)) := by
  simp only [payload, hfits, Problem.worst?]

theorem payload_eq_ok {built : Value} (hpayload : payload summary runId moduleRoot = .ok built) :
    built = .table (draft summary runId moduleRoot) := by
  simp only [payload] at hpayload
  split at hpayload
  · exact (Except.ok.inj hpayload).symm
  · cases hpayload

theorem succeeds_text (detail : Detail) {built : Value}
    (hpayload : payload summary runId moduleRoot = .ok built) : Succeeds (text detail built) := by
  rw [payload_eq_ok hpayload]
  by_cases hdetail : detail = .quiet
  · subst hdetail
    exact .after lines_quiet (.ok _)
  · obtain ⟨before, sums, entries, -, -, -, hlines⟩ := lines_shown summary runId moduleRoot hdetail
    exact .after hlines (.ok _)

/-- The payload of a run can be read, and so can its texts. -/
theorem exists_rendering {built : Value} (hpayload : payload summary runId moduleRoot = .ok built) :
    ∃ rendering : Rendering, rendering.IsOf built ∧ rendering.AddsUp ∧ rendering.NamesFailing ∧
      rendering.status = summary.status.text ∧
      rendering.failingIds = (failing summary).map (fun result => result.check.id) ∧
      rendering.failed + rendering.errors = (summary.count .fail + summary.count .error : Nat) := by
  rw [payload_eq_ok hpayload]
  have hnormal : Detail.normal ≠ .quiet := by decide
  obtain ⟨before, sums, entries, hbefore, hsums, hnamed, hlines⟩ :=
    lines_shown summary runId moduleRoot hnormal
  let trailer := if (failing summary).isEmpty then [] else "failing checks:" :: entries
  let quiet := if (failing summary).isEmpty then ["PASS"]
    else (failing summary).map fun result => "FAIL " ++ result.check.id
  let rendering : Rendering :=
    ⟨summary.status.text, (sortResults summary.results).map row, summary.count .pass,
      summary.count .fail, summary.count .skip, summary.count .error, summary.results.length,
      "\n".intercalate quiet, before, sums, trailer⟩
  have hids : rendering.failingIds = (failing summary).map fun result => result.check.id :=
    filterMap_failingId? (sortResults summary.results)
  have hnone : rendering.failingIds = [] ↔ (failing summary).isEmpty = true := by
    rw [hids, List.map_eq_nil_iff, List.isEmpty_iff]
  refine ⟨rendering, ⟨rfl, rfl, ?_, ⟨_, rfl, rfl, rfl, rfl, rfl, rfl⟩, ?_, hbefore, hsums, hlines, ?_⟩,
    ⟨?_, ?_⟩, ⟨?_, ?_, entries, ?_, ?_⟩, rfl, hids, rfl⟩
  · exact List.forall_mem_map.mpr fun result _ => ⟨_, _, rfl, rfl⟩
  · rw [Report.text, lines_quiet]
    rfl
  · rw [Report.text, hlines]
    rfl
  · have hcounts := count_add_count summary
    simp only [rendering]
    omega
  · simp [rendering, sortResults]
  · rw [hids, List.pairwise_map]
    exact (pairwise_sortResults summary.results).filter _
  · show "\n".intercalate quiet = _
    by_cases hempty : (failing summary).isEmpty = true
    · rw [if_pos (hnone.mpr hempty), show quiet = ["PASS"] from if_pos hempty]
      rfl
    · rw [if_neg (mt hnone.mp hempty), hids, List.map_map]
      exact congrArg _ (if_neg hempty)
  · rw [hids, List.forall₂_map_left_iff]
    exact hnamed
  · show trailer = _
    by_cases hempty : (failing summary).isEmpty = true
    · rw [if_pos (hnone.mpr hempty)]
      exact if_pos hempty
    · rw [if_neg (mt hnone.mp hempty)]
      exact if_neg hempty

end Report

end DscAudit

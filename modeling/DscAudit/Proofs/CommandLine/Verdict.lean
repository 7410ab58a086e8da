import DscAudit.CommandLine.Answer
import DscAudit.Proofs.Check.OptIn
import DscAudit.Proofs.Check.Presentable
import DscAudit.Proofs.Check.Step
import DscAudit.Proofs.CommandLine.Reply
import DscAudit.Proofs.Host.Settling
import DscAudit.Proofs.Json.RoundTrip
import DscAudit.Proofs.Report.Verdict
import DscAudit.Proofs.Run.Load
import Mathlib.Data.List.TFAE
import Mathlib.Tactic.TFAE

/-!
# One verdict

A run of checks is reported in several ways: by its status, the rows and counters of its payload, its
texts, and the exit code.  All of them say alike whether a check failed, whatever the checks do.

The payload of a run of checks of the catalogue is built unless a tool reports a negative place.  So a
command for checks may refuse what it is asked for, or fail to write a file, but it never complains of
its own report.
-/

namespace DscAudit.CommandLine

open DscAudit.Action
open DscAudit.Check (Summary)

/-! ## The answer behind the selection -/

/-- Writes and prints the payload of a run, and says by the exit code whether the run passes. -/
def answerReport (context : RunContext) (summary : Summary) (payload : Value)
    (outFile : Option String) : Action ExitCode := do
  match RunContext.nonEmpty? outFile with
  | some file =>
    let path ← context.writeJson (Path.ofString file) payload
    Action.log context.logSettings ⟨"debug", "report", "write", [("path", .text path.toString)]⟩
  | none => pure ()
  match context.format with
  | .json => Action.printLine (Json.write .oneLine payload)
  | .text => Action.printLine (← Tool.Pwsh.reading (Report.text (detail context) payload))
  return if summary.status = .pass then .ok else .checks

/-- Runs checks and reports what came of them. -/
def answerChecks (context : RunContext) (checks : List Check) (failFast : Bool)
    (outFile : Option String) : Action ExitCode := do
  let summary ← Check.runChecks context.subject checks context.optIn failFast
  let payload ← accepted (Report.payload summary context.runId context.root.toString)
  answerReport context summary payload outFile

variable {context : RunContext} {failFast : Bool} {outFile : Option String}

/-- The command for checks runs those that it selects. -/
theorem answerCheck_selected {domain : String} {ids : List String} {checks : List Check}
    (hselect : Check.select domain ids = .ok checks) (hsome : checks ≠ []) :
    answerCheck context domain ids failFast outFile =
      answerChecks context checks failFast outFile := by
  unfold answerCheck
  rw [hselect]
  show (if checks.isEmpty = true then _ else _) = _
  rw [if_neg (by simpa using hsome)]
  rfl

/-! ## Exit codes -/

/-- The exit code of a run with this summary. -/
def exitCode (summary : Summary) : ExitCode := if summary.status = .pass then .ok else .checks

theorem gives_answerReport (context : RunContext) (summary : Summary) (payload : Value)
    (outFile : Option String) :
    Gives (fun code => code = exitCode summary) (answerReport context summary payload outFile) := by
  have hcode {α : Type} (print : Action α) : Gives (fun code => code = exitCode summary) (do
      let _ ← print
      return if summary.status = .pass then .ok else .checks) :=
    .bind (.always print) fun _ _ => .of_pure rfl
  have hshow : Gives (fun code => code = exitCode summary) (do
      match context.format with
      | .json => Action.printLine (Json.write .oneLine payload)
      | .text => Action.printLine (← Tool.Pwsh.reading (Report.text (detail context) payload))
      return if summary.status = .pass then .ok else .checks) := by
    cases context.format with
    | json => exact hcode _
    | text => exact .bind (.always _) fun _ _ => hcode _
  unfold answerReport
  cases RunContext.nonEmpty? outFile with
  | some file => exact .bind (.always _) fun _ _ => .bind (.always _) fun _ _ => hshow
  | none => exact hshow

theorem avoids_answerReport (context : RunContext) (summary : Check.Summary) (payload : Value)
    (outFile : Option String) :
    Avoids "report_invalid" (answerReport context summary payload outFile) := by
  have hshow : Avoids "report_invalid" (do
      match context.format with
      | .json => Action.printLine (Json.write .oneLine payload)
      | .text => Action.printLine (← Tool.Pwsh.reading (Report.text (detail context) payload))
      return if summary.status = .pass then ExitCode.ok else ExitCode.checks) := by
    cases context.format with
    | json => exact .bind (avoids_printLine _) fun _ => .of_pure _
    | text =>
      apply Avoids.bind (Tool.Pwsh.avoids_reading _)
      intro shown
      exact .bind (avoids_printLine _) fun _ => .of_pure _
  unfold answerReport
  cases RunContext.nonEmpty? outFile with
  | none => exact hshow
  | some file =>
    apply Avoids.bind (RunContext.avoids_writeJson (by decide) _ _ _)
    intro path
    exact .bind (avoids_log _ _) fun _ => hshow

/-- Without a file for the payload nothing can fail once the payload is built. -/
theorem exec_answerReport {summary : Summary} {runId moduleRoot : String} {payload : Value}
    (hpayload : Report.payload summary runId moduleRoot = .ok payload) (context : RunContext)
    (host : Host) :
    ∃ after, (answerReport context summary payload none).exec host =
      (.ok (exitCode summary), after) := by
  obtain ⟨shown, hshown⟩ := Report.succeeds_text (detail context) hpayload
  unfold answerReport
  rw [hshown]
  cases context.format with
  | json => exact ⟨_, rfl⟩
  | text => exact ⟨_, rfl⟩

variable {checks : List Check} {summary : Summary} {payload : Value} {host after : Host}

theorem exec_answerChecks
    (hrun : (Check.runChecks context.subject checks context.optIn failFast).exec host =
      (.ok summary, after))
    (hpayload : Report.payload summary context.runId context.root.toString = .ok payload) :
    (answerChecks context checks failFast outFile).exec host =
      (answerReport context summary payload outFile).exec after := by
  unfold answerChecks
  rw [exec_bind_ok hrun, hpayload]
  rfl

theorem exec_runChecks_ends (subject : Subject) (checks : List Check) (optIn : OptIn) (failFast : Bool)
    (host : Host) :
    ∃ summary after, (Check.runChecks subject checks optIn failFast).exec host = (.ok summary, after) := by
  obtain ⟨results, known, known', after, after', hall, hcut⟩ :=
    Check.exec_runAll_failFast subject optIn checks Findings.none host
  cases failFast with
  | false => exact ⟨_, _, Check.exec_runChecks_of_runAll hall⟩
  | true => exact ⟨_, _, Check.exec_runChecks_of_runAll hcut⟩

/-! ## The verdict -/

/-- How the command ends that runs the checks. -/
def ending (context : RunContext) (checks : List Check) (failFast : Bool) (outFile : Option String)
    (host : Host) : Except Failure ExitCode :=
  ((answerChecks context checks failFast outFile).exec host).1

/-- Every report of a run tells the same: whether a check failed, how many did, and which. -/
theorem verdicts_agree (context : RunContext) (checks : List Check) (failFast : Bool) (host : Host) :
    ∃ summary after,
      (Check.runChecks context.subject checks context.optIn failFast).exec host =
        (.ok summary, after) ∧
      ∀ payload, Report.payload summary context.runId context.root.toString = .ok payload →
        ∃ rendering : Report.Rendering,
          rendering.IsOf payload ∧ rendering.AddsUp ∧ rendering.NamesFailing ∧
          [summary.status = .fail,
            rendering.status = "fail",
            ∃ row ∈ rendering.rows, row.Has "status" (.text "FAIL") ∨ row.Has "status" (.text "ERROR"),
            0 < rendering.failed + rendering.errors,
            rendering.quiet ≠ "PASS",
            "failing checks:" ∈ rendering.trailer,
            ending context checks failFast none host = .ok .checks].TFAE ∧
          (ending context checks failFast none host = .ok .checks ∨
            ending context checks failFast none host = .ok .ok) ∧
          (∀ outFile code, ending context checks failFast outFile host = .ok code →
            ending context checks failFast none host = .ok code) ∧
          ∀ domain ids outFile, Check.select domain ids = .ok checks → checks ≠ [] →
            ((answerCheck context domain ids failFast outFile).exec host).1 =
              ending context checks failFast outFile host := by
  obtain ⟨summary, after, hrun⟩ :=
    exec_runChecks_ends context.subject checks context.optIn failFast host
  refine ⟨summary, after, hrun, fun payload hpayload => ?_⟩
  obtain ⟨rendering, hof, hsum, hnames, hstatus, hids, hcount⟩ := Report.exists_rendering hpayload
  have hending (outFile : Option String) : ending context checks failFast outFile host =
      ((answerReport context summary payload outFile).exec after).1 :=
    congrArg Prod.fst (exec_answerChecks hrun hpayload)
  have hexit : ending context checks failFast none host = .ok (exitCode summary) := by
    obtain ⟨done, hdone⟩ := exec_answerReport hpayload context after
    rw [hending, hdone]
  refine ⟨rendering, hof, hsum, hnames, ?_, ?_, fun outFile code hcode => ?_,
    fun domain ids outFile hselect hsome => ?_⟩
  · have hfails : summary.status = .fail ↔ rendering.failingIds ≠ [] := by
      rw [hids, ne_eq, List.map_eq_nil_iff]
      exact Report.status_eq_fail_iff
    tfae_have 1 ↔ 2 := by
      rcases Report.status_eq_pass_or_fail summary with hpass | hfail
      · simp [hstatus, hpass, Check.Status.text]
      · simp [hstatus, hfail, Check.Status.text]
    tfae_have 1 ↔ 3 := hfails.trans hof.exists_failing_iff.symm
    tfae_have 1 ↔ 4 := by
      rw [hcount, Int.natCast_pos, Report.count_pos_iff]
      exact Report.status_eq_fail_iff
    tfae_have 1 ↔ 5 := hfails.trans hnames.quiet_iff.symm
    tfae_have 1 ↔ 6 := hfails.trans hnames.trailer_iff.symm
    tfae_have 1 ↔ 7 := by
      rcases Report.status_eq_pass_or_fail summary with hpass | hfail
      · simp [hexit, exitCode, hpass]
      · simp [hexit, exitCode, hfail]
    tfae_finish
  · rw [hexit, exitCode]
    split <;> simp
  · rw [hending] at hcode
    rw [hexit, ← gives_answerReport context summary payload outFile after code _ (Prod.ext hcode rfl)]
  · rw [answerCheck_selected hselect hsome]
    rfl

def quietContext : RunContext := { RunContext.ofModule "m" with quiet := true }

theorem verdicts_agree_breakdown :
    ∃ summary payload, ∃ rendering : Report.Rendering,
      Report.payload summary quietContext.runId quietContext.root.toString = .ok payload ∧
      rendering.IsOf payload ∧ summary.status = .fail ∧ rendering.quiet ≠ "PASS" ∧
      "failing checks:" ∈ rendering.trailer ∧
      ending quietContext [Check.optInCheck "x/a" (.error Check.breakdown)] false none
        (.holding ⟨[]⟩ ⟨.slash, []⟩) = .ok .checks := by
  obtain ⟨summary, after, hrun, hagree⟩ := verdicts_agree quietContext
    [Check.optInCheck "x/a" (.error Check.breakdown)] false (.holding ⟨[]⟩ ⟨.slash, []⟩)
  let result :=
    Check.brokenResult (Check.optInCheck "x/a" (.error Check.breakdown)) false 0 Check.breakdown
  obtain rfl : summary = ⟨[result], 0⟩ := Except.ok.inj ((congrArg Prod.fst hrun).symm.trans rfl)
  have hpayload := Report.payload_of_problems ⟨[result], 0⟩ quietContext.runId
    quietContext.root.toString (by decide +kernel)
  obtain ⟨rendering, hof, -, -, hverdict, -⟩ := hagree _ hpayload
  have hfail : (Summary.mk [result] 0).status = .fail := rfl
  exact ⟨_, _, rendering, hpayload, hof, hfail, (hverdict.out 0 4).mp hfail,
    (hverdict.out 0 5).mp hfail, (hverdict.out 0 6).mp hfail⟩

end DscAudit.CommandLine

/-! ## Runs that can be reported -/

namespace DscAudit

open DscAudit.Action

namespace Check

theorem kind_of_find_eq_error {id : String} {complaint : Complaint} (hfind : find id = .error complaint) :
    complaint.kind = "unknown_check" := by
  unfold find at hfind
  split at hfind
  · cases hfind
  · cases hfind
    rfl

theorem kind_of_mapM_find_eq_error {ids : List String} {complaint : Complaint}
    (hfind : ids.mapM find = .error complaint) : complaint.kind = "unknown_check" := by
  induction ids with
  | nil => cases hfind
  | cons id ids ih =>
    rw [List.mapM_cons] at hfind
    rcases hfirst : find id with refused | check
    · rw [hfirst] at hfind
      cases hfind
      exact kind_of_find_eq_error hfirst
    · rw [hfirst] at hfind
      rcases hrest : ids.mapM find with refused | checks
      · rw [hrest] at hfind ih
        cases hfind
        exact ih rfl
      · rw [hrest] at hfind
        cases hfind

theorem kind_of_select_eq_error {domain : String} {ids : List String} {complaint : Complaint}
    (hselect : select domain ids = .error complaint) :
    complaint.kind = "unknown_domain" ∨ complaint.kind = "unknown_check" := by
  unfold select at hselect
  by_cases hdomain : (!domains.contains domain) = true
  · simp only [if_pos hdomain] at hselect
    cases hselect
    exact .inl rfl
  simp only [if_neg hdomain] at hselect
  by_cases hids : ids.isEmpty = true
  · simp only [if_pos hids] at hselect
    cases hselect
  simp only [if_neg hids] at hselect
  rcases hwanted : ids.mapM find with refused | wanted
  · rw [hwanted] at hselect
    cases hselect
    exact .inr (kind_of_mapM_find_eq_error hwanted)
  · rw [hwanted] at hselect
    cases hselect

/-! ## Summaries -/

/-- The summaries differ at most in the times that were measured. -/
def Summary.SameButTimes (summary other : Summary) : Prop :=
  List.Forall₂ (fun result timed => ∃ milliseconds, timed = { result with milliseconds })
    summary.results other.results

theorem Summary.SameButTimes.refl (summary : Summary) : summary.SameButTimes summary :=
  List.forall₂_same.mpr fun result _ => ⟨result.milliseconds, rfl⟩

theorem Summary.SameButTimes.presentable {summary other : Summary} (htimed : summary.SameButTimes other)
    (hresults : ∀ result ∈ summary.results, result.IsPresentable) :
    ∀ result ∈ other.results, result.IsPresentable := by
  rcases summary with ⟨results, duration⟩
  rcases other with ⟨timed, duration'⟩
  unfold SameButTimes at htimed
  dsimp only at htimed hresults ⊢
  induction htimed with
  | nil => exact nofun
  | cons hsame _ ih =>
    obtain ⟨milliseconds, rfl⟩ := hsame
    obtain ⟨hresult, hrest⟩ := List.forall_mem_cons.mp hresults
    exact List.forall_mem_cons.mpr ⟨⟨hresult.check, hresult.violations⟩, ih hrest⟩

end Check

namespace CommandLine

open DscAudit.Tool.Pwsh (ReportsPlaces)

variable {checks : List Check} {host : Host}

/-- The report of checks of the catalogue is built, whatever they find and however long they take. -/
theorem payload_of_exec_runChecks {subject : Subject} {optIn : OptIn} {failFast : Bool}
    (hchecks : ∀ check ∈ checks, check ∈ Check.all) (hhost : host.Expects ReportsPlaces)
    {summary : Check.Summary} {after : Host}
    (hrun : (Check.runChecks subject checks optIn failFast).exec host = (.ok summary, after))
    {timed : Check.Summary} (htimed : summary.SameButTimes timed) (runId moduleRoot : String) :
    ∃ payload, Report.payload timed runId moduleRoot = .ok payload := by
  have hresults := (Check.presents_runChecks optIn failFast hchecks host hhost).2 summary
    (congrArg Prod.fst hrun)
  exact ⟨_, Report.payload_of_presentable (htimed.presentable hresults) runId moduleRoot⟩

theorem answerCheck_avoids (context : RunContext) (domain : String) (ids : List String)
    (failFast : Bool) (outFile : Option String) (hhost : host.Expects ReportsPlaces)
    {complaint : Complaint}
    (hend : ((answerCheck context domain ids failFast outFile).exec host).1 =
      .error (.complaint complaint)) :
    complaint.kind ≠ "report_invalid" := by
  rcases hselect : Check.select domain ids with refused | checks
  · unfold answerCheck at hend
    rw [hselect] at hend
    cases hend
    rcases Check.kind_of_select_eq_error hselect with hkind | hkind
    · rw [hkind]
      decide
    · rw [hkind]
      decide
  by_cases hnone : checks = []
  · subst hnone
    unfold answerCheck at hend
    rw [hselect] at hend
    cases hend
    have hkind : "empty_selection" ≠ "report_invalid" := by decide
    exact hkind
  · rw [answerCheck_selected hselect hnone] at hend
    obtain ⟨summary, after, hrun⟩ :=
      exec_runChecks_ends context.subject checks context.optIn failFast host
    obtain ⟨payload, hpayload⟩ := payload_of_exec_runChecks (mem_all_of_select hselect) hhost hrun
      (Check.Summary.SameButTimes.refl summary) context.runId context.root.toString
    rw [exec_answerChecks hrun hpayload] at hend
    exact avoids_answerReport _ _ _ _ after complaint hend

/-- Whatever checks of the catalogue find, skip or break off with, and however long they take, their
report is built if no tool reports a negative place; a command for checks never ends because of it. -/
theorem runs_are_reported (hhost : host.Expects ReportsPlaces) :
    (∀ subject optIn failFast checks, (∀ check ∈ checks, check ∈ Check.all) →
      ∃ summary after,
        (Check.runChecks subject checks optIn failFast).exec host = (.ok summary, after) ∧
        ∀ timed, summary.SameButTimes timed → ∀ runId moduleRoot,
          ∃ payload, Report.payload timed runId moduleRoot = .ok payload) ∧
    ∀ context domain ids failFast outFile complaint,
      ((answerCheck context domain ids failFast outFile).exec host).1 =
        .error (.complaint complaint) → complaint.kind ≠ "report_invalid" := by
  constructor
  · intro subject optIn failFast checks hchecks
    obtain ⟨summary, after, hrun⟩ := exec_runChecks_ends subject checks optIn failFast host
    exact ⟨summary, after, hrun, fun timed htimed => payload_of_exec_runChecks hchecks hhost hrun htimed⟩
  · intro context domain ids failFast outFile complaint hend
    exact answerCheck_avoids context domain ids failFast outFile hhost hend

def repliedValue : Value :=
  .table [("available", .int 1), ("records", .list [.table [("Line", .int 3)]])]

def reply : String := "\x7b\"available\": 1, \"records\": [\x7b\"Line\": 3\x7d]\x7d"

/-- A script analyzer with one finding. -/
def analyzerReply : ProcessResult := .finished 0 (Tool.ResultLine.mark ++ reply) ""

theorem answer?_analyzerReply : Tool.Pwsh.answer? analyzerReply = some repliedValue := by
  have hkeys (available records : Value) :
      Entries.byKey [("available", available), ("records", records)] =
        [("available", available), ("records", records)] := by
    apply List.mergeSort_of_pairwise
    simp
  have hwrite : Json.write .oneLine repliedValue = reply := by
    rw [Json.write, repliedValue, Json.writeAt_table, hkeys]
    decide +kernel
  have hreread : Json.reread repliedValue = repliedValue := by
    simp only [repliedValue, Json.reread, Json.rereadItems, Json.rereadEntries, hkeys]
    rw [Entries.byKey, List.mergeSort_singleton]
    rfl
  have hread : Json.read? reply.toList = some repliedValue := by
    rw [← hwrite, Json.read?_write, hreread]
  have hline : (Text.lines (Tool.ResultLine.mark ++ reply).toList).reverse.findSome?
      Tool.ResultLine.behindMark? = some reply.toList := by decide
  exact Tool.Pwsh.answer?_of_line hline hread

theorem hasPlaces_repliedValue : Tool.Pwsh.HasPlaces repliedValue where
  findings findings hfindings := by
    cases hfindings
    decide
  faults rows scripts hrows hscripts := by
    cases hrows
    cases hscripts

/-- A host whose only process is the script analyzer. -/
def analyzerHost : Host :=
  { Host.holding ⟨[]⟩ ⟨.slash, []⟩ with
    tools := [("pwsh", "/usr/bin/pwsh")], results := [analyzerReply] }

theorem runs_are_reported_finding :
    analyzerHost.Expects ReportsPlaces ∧
    ∃ summary after payload,
      (Check.runChecks (Subject.ofModule "m") Check.analyzerChecks ⟨[]⟩ false).exec analyzerHost =
        (.ok summary, after) ∧
      Report.payload summary "r" "/m" = .ok payload := by
  have hreply : ReportsPlaces analyzerReply := by
    intro value hvalue
    rw [answer?_analyzerReply] at hvalue
    cases hvalue
    exact hasPlaces_repliedValue
  have hexpects : analyzerHost.Expects ReportsPlaces := List.forall_mem_singleton.mpr hreply
  have hchecks : ∀ check ∈ Check.analyzerChecks, check ∈ Check.all := by
    intro check hcheck
    simp [Check.all, hcheck]
  obtain ⟨summary, after, hrun, hbuilt⟩ :=
    (runs_are_reported hexpects).1 (Subject.ofModule "m") ⟨[]⟩ false Check.analyzerChecks hchecks
  obtain ⟨payload, hpayload⟩ := hbuilt summary (.refl summary) "r" "/m"
  exact ⟨hexpects, summary, after, payload, hrun, hpayload⟩

end CommandLine

end DscAudit

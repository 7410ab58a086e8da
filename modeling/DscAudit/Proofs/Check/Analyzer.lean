import DscAudit.Proofs.Check.Step
import DscAudit.Proofs.Tool.Pwsh

/-!
# The script analyzer runs until it answers

Three checks look at the findings of the script analyzer.  The first answer of the analyzer is kept for
all checks behind it, and so is the fact that PowerShell cannot be found.  A process without an answer
makes its check break off and leaves nothing to be kept, so each check behind it starts the analyzer
once more, until one process answers.
-/

namespace DscAudit.Check

open DscAudit.Action
open DscAudit.Tool.Pwsh (IsFound isFound_of_starts)

namespace Analyzer

/-- The process answers: it ended well, and its result can be read. -/
def Answers (ending : ProcessResult) : Prop :=
  ∃ value found, Tool.Pwsh.answer? ending = some value ∧ Tool.Pwsh.findings? value = .ok found

/-- The process runs the script analyzer. -/
def IsAnalysis (call : ProcessCall) : Prop :=
  ∃ executable, call.command = executable :: Tool.Pwsh.options ++ [Tool.Script.analyze]

/-- Between the hosts one process has analyzed the module if PowerShell can be found, and then something
was given exactly if the process answered; otherwise nothing was done. -/
def Analyzes (subject : Subject) (host after : Host) (gives : Prop) : Prop :=
  (IsFound subject.config host ∧ ∃ call, host.Starts [call] after ∧ IsAnalysis call ∧
      (gives ↔ Answers (host.results.headD (.missing none)))) ∨
    (¬ IsFound subject.config host ∧ after = host)

variable {subject : Subject}

/-! ## One analysis -/

/-- The analyzer is one process, and gives findings exactly if the process answers. -/
theorem exec_analyze? (session : Tool.Pwsh.Session) (host : Host) :
    ∃ ending after call,
      (Tool.Pwsh.analyze? session).exec host = (ending, after) ∧ host.Starts [call] after ∧
      IsAnalysis call ∧
      ((∃ found, ending = .ok found) ↔ Answers (host.results.headD (.missing none))) := by
  obtain ⟨ending, after, hrun, hanswer, hstarts⟩ :=
    Tool.Pwsh.exec_run session Tool.Script.analyze [("DSCMETA_ROOT", session.directory.toString)] host
  generalize host.results.headD (.missing none) = process at hanswer ⊢
  unfold Tool.Pwsh.analyze?
  cases ending with
  | error failure =>
    refine ⟨_, after, _, exec_bind_error hrun _, hstarts, ⟨_, rfl⟩, ?_⟩
    simp [Answers, ← hanswer, Except.toOption]
  | ok value =>
    rw [exec_bind_ok hrun]
    cases hfound : Tool.Pwsh.findings? value with
    | error defect =>
      refine ⟨_, after, _, rfl, hstarts, ⟨_, rfl⟩, ?_⟩
      simp [Answers, ← hanswer, Except.toOption, hfound]
    | ok found =>
      refine ⟨_, after, _, rfl, hstarts, ⟨_, rfl⟩, ?_⟩
      simp [Answers, ← hanswer, Except.toOption, hfound]

/-- An analysis starts one process if PowerShell can be found, and none otherwise. -/
theorem exec_analyze (subject : Subject) (host : Host) :
    ∃ ending after,
      (analyze subject).exec host = (ending, after) ∧
      Analyzes subject host after (∃ found, ending = .ok found) := by
  have hreads := (Suits.reads_find subject.config).exec_snd host
  unfold analyze
  rcases hfind : (Tool.Pwsh.find subject.config).exec host with ⟨failure | _ | executable, found⟩
  · rw [hfind] at hreads
    exact ⟨_, found, exec_bind_error hfind _, .inr ⟨by simp [IsFound, hfind], hreads⟩⟩
  · rw [hfind] at hreads
    rw [exec_bind_ok hfind]
    exact ⟨_, found, rfl, .inr ⟨by simp [IsFound, hfind], hreads⟩⟩
  · obtain rfl : found = host := by rw [← hreads, hfind]
    obtain ⟨ending, after, call, hrun, hstarts, hcall, hanswer⟩ :=
      exec_analyze? (subject.session executable) found
    have hcan : IsFound subject.config found := ⟨executable, by rw [hfind]⟩
    rw [exec_bind_ok hfind]
    rcases ending with failure | _ | findings
    · refine ⟨_, after, exec_bind_error hrun _, .inl ⟨hcan, call, hstarts, hcall, ?_⟩⟩
      simpa using hanswer
    · refine ⟨_, after, (exec_bind_ok hrun _).trans rfl, .inl ⟨hcan, call, hstarts, hcall, ?_⟩⟩
      simpa using hanswer
    · refine ⟨_, after, (exec_bind_ok hrun _).trans rfl, .inl ⟨hcan, call, hstarts, hcall, ?_⟩⟩
      simpa using hanswer

/-! ## One check -/

theorem exec_select_known (subject : Subject) (isWanted : Tool.Pwsh.Finding → Bool)
    {known : Findings} (hknown : known.analyzer.isSome) (host : Host) :
    ∃ outcome, ((select subject isWanted).run known).exec host = (.ok (outcome, known), host) := by
  obtain ⟨manifest, _ | findings⟩ := known
  · cases hknown
  · cases findings with
    | error reason => exact ⟨_, rfl⟩
    | ok findings => exact ⟨_, rfl⟩

theorem exec_findings_unknown (subject : Subject) {known : Findings}
    (hknown : known.analyzer = none) (host : Host) :
    ((findings subject).run known).exec host =
      match (analyze subject).exec host with
      | (.ok findings, after) => (.ok (findings, { known with analyzer := some findings }), after)
      | (.error failure, after) => (.error failure, after) := by
  obtain ⟨manifest, analyzer⟩ := known
  cases hknown
  show exec ((analyze subject >>= fun a => pure (a, _)) >>= _) host = _
  rw [exec_bind, exec_bind]
  rcases (analyze subject).exec host with ⟨failure | findings, after⟩ <;> rfl

/-- A check of findings that are not known starts one process if PowerShell can be found, and none
otherwise.  It gives an outcome exactly if the process answers, and then the findings are known. -/
theorem exec_select_unknown (subject : Subject) (isWanted : Tool.Pwsh.Finding → Bool)
    {known : Findings} (hknown : known.analyzer = none) (host : Host) :
    ∃ ending after,
      ((select subject isWanted).run known).exec host = (ending, after) ∧
      (∀ found, ending = .ok found → found.2.analyzer.isSome) ∧
      Analyzes subject host after (∃ found, ending = .ok found) := by
  obtain ⟨analysis, after, hrun, hprocess⟩ := exec_analyze subject host
  have hfindings := exec_findings_unknown subject hknown host
  unfold select
  rw [hrun] at hfindings
  rcases analysis with failure | reason | findings
  · exact ⟨_, after, Checking.exec_bind_error hfindings _, by simp, by simpa using hprocess⟩
  · exact ⟨_, after, (Checking.exec_bind_ok hfindings _).trans rfl, by rintro _ ⟨⟩; rfl,
      by simpa using hprocess⟩
  · exact ⟨_, after, (Checking.exec_bind_ok hfindings _).trans rfl, by rintro _ ⟨⟩; rfl,
      by simpa using hprocess⟩

/-! ## Series of analyses -/

/-- Processes that take the results at hand are analyses, at most `count` of them, and all but the last
go without an answer.  If PowerShell can be found there are `count`, or the last one answers. -/
structure Series (canRun : Prop) (results : List ProcessResult) (calls : List ProcessCall)
    (count : Nat) : Prop where
  analyses : ∀ call ∈ calls, IsAnalysis call
  bounded : calls.length ≤ count
  unanswered : ∀ attempt ∈ (Attempt.ofCalls results calls).dropLast, ¬ Answers attempt.2
  ends : canRun →
    calls.length = count ∨ ∃ attempt ∈ (Attempt.ofCalls results calls).getLast?, Answers attempt.2

namespace Series

variable {canRun : Prop} {results : List ProcessResult} {call : ProcessCall} {calls : List ProcessCall}
  {count : Nat}

theorem nil (hends : canRun → count = 0) : Series canRun results [] count where
  analyses := by simp
  bounded := Nat.zero_le _
  unanswered := by simp [Attempt.ofCalls]
  ends hcan := .inl (hends hcan).symm

theorem single (hcall : IsAnalysis call)
    (hends : canRun → Answers (results.headD (.missing none)) ∨ count = 0) :
    Series canRun results [call] (count + 1) where
  analyses := by simpa using hcall
  bounded := by simp
  unanswered := by simp [Attempt.ofCalls]
  ends hcan := by
    rcases hends hcan with hanswers | rfl
    · exact .inr ⟨_, rfl, hanswers⟩
    · exact .inl rfl

theorem count_of_nil (hseries : Series canRun results [] count) (hcan : canRun) : count = 0 := by
  rcases hseries.ends hcan with hlength | ⟨attempt, hlast, -⟩
  · exact hlength.symm
  · cases hlast

/-- A process without an answer may go before a series. -/
theorem cons (hcall : IsAnalysis call) (hanswer : ¬ Answers (results.headD (.missing none)))
    (hseries : Series canRun results.tail calls count) :
    Series canRun results (call :: calls) (count + 1) := by
  -- the process in front is the last one only if the series is empty
  cases calls with
  | nil => exact single hcall fun hcan => .inr (hseries.count_of_nil hcan)
  | cons next calls =>
    refine ⟨?_, ?_, ?_, ?_⟩
    · exact List.forall_mem_cons.mpr ⟨hcall, hseries.analyses⟩
    · simpa using hseries.bounded
    · exact List.forall_mem_cons.mpr ⟨hanswer, hseries.unanswered⟩
    · exact fun hcan => (hseries.ends hcan).imp_left (by simp)

/-- A check without a process may go before a series if PowerShell cannot be found. -/
theorem weaken (hcan : ¬ canRun) (hseries : Series canRun results calls count) :
    Series canRun results calls (count + 1) where
  analyses := hseries.analyses
  bounded := Nat.le_succ_of_le hseries.bounded
  unanswered := hseries.unanswered
  ends h := (hcan h).elim

end Series

/-! ## Runs -/

def LooksAtFindings (subject : Subject) (check : Check) : Prop :=
  ∃ isWanted, check.run subject = select subject isWanted

variable {optIn : OptIn} {checks : List Check}

/-- If the other checks start no process, none is started behind a result. -/
theorem exec_goOn_idle {failFast : Bool} (result : Result) {known : Findings} {host : Host}
    (hrest : ∃ results known' after,
      ((runAll subject optIn failFast checks).run known).exec host = (.ok (results, known'), after) ∧
      host.Starts [] after) :
    ∃ results known' after,
      ((goOn subject optIn failFast checks result).run known).exec host =
        (.ok (result :: results, known'), after) ∧ host.Starts [] after := by
  by_cases hends : (failFast && result.status.isFailing) = true
  · obtain ⟨rfl, hfails⟩ := Bool.and_eq_true_iff.mp hends
    exact ⟨[], known, host, exec_goOn_failing checks hfails known host, .refl host⟩
  · obtain ⟨results, known', after, hothers, hafter⟩ := hrest
    exact ⟨results, known', after, exec_goOn (Bool.eq_false_iff.mpr hends) hothers, hafter⟩

theorem exec_runAll_known (hchecks : ∀ check ∈ checks, LooksAtFindings subject check)
    (failFast : Bool) {known : Findings} (hknown : known.analyzer.isSome) (host : Host) :
    ∃ results known' after,
      ((runAll subject optIn failFast checks).run known).exec host = (.ok (results, known'), after) ∧
      host.Starts [] after := by
  induction checks generalizing host with
  | nil => exact ⟨[], known, host, rfl, .refl host⟩
  | cons check checks ih =>
    obtain ⟨isWanted, hcheck⟩ := hchecks check (by simp)
    obtain ⟨started, milliseconds, finished, hstarts, hfinishes, hrun⟩ :=
      exec_runAll_cons subject optIn check known host
    obtain ⟨outcome, houtcome⟩ := exec_select_known subject isWanted hknown started
    rw [hcheck, houtcome] at hfinishes hrun
    obtain ⟨results, known', after, hbehind, hafter⟩ :=
      exec_goOn_idle (resultOfEnding optIn check milliseconds (.ok outcome))
        (ih (fun other hother => hchecks other (by simp [hother])) finished)
    exact ⟨_, known', after, (hrun _ _).trans hbehind, (hstarts.trans hfinishes).trans hafter⟩

/-- The first check of a run without known findings.  Either the findings are known behind it, and its
processes are all of the series, or it fails, and its processes go before those of the other checks. -/
theorem exec_runAll_first (optIn : OptIn) {check : Check}
    (hcheck : LooksAtFindings subject check) {known : Findings} (hknown : known.analyzer = none)
    (host : Host) :
    ∃ result known' finished first,
      host.Starts first finished ∧
      (∀ failFast checks, ((runAll subject optIn failFast (check :: checks)).run known).exec host =
        ((goOn subject optIn failFast checks result).run known').exec finished) ∧
      ((known'.analyzer.isSome ∧
          ∀ others, Series (IsFound subject.config host) host.results first (others + 1)) ∨
        (known'.analyzer = none ∧ result.status.isFailing = true ∧ ∀ calls others,
          Series (IsFound subject.config finished) finished.results calls others →
            Series (IsFound subject.config host) host.results (first ++ calls) (others + 1))) := by
  obtain ⟨isWanted, hcheck⟩ := hcheck
  obtain ⟨started, milliseconds, finished, hstarts, hfinishes, hrun⟩ :=
    exec_runAll_cons subject optIn check known host
  obtain ⟨ending, between, hselect, hknows, hprocess⟩ :=
    exec_select_unknown subject isWanted hknown started
  rw [hcheck, hselect] at hfinishes hrun
  unfold Analyzes at hprocess
  rw [isFound_of_starts hstarts, hstarts.results_eq] at hprocess
  rcases hprocess with ⟨hcan, call, hcalls, hcall, hanswer⟩ | ⟨hcannot, rfl⟩
  · have hfirst := hstarts.trans (hcalls.trans hfinishes)
    refine ⟨_, _, finished, [call], hfirst, hrun, ?_⟩
    cases ending with
    | ok found =>
      exact .inl ⟨hknows found rfl, fun _ => .single hcall fun _ => .inl (hanswer.mp ⟨found, rfl⟩)⟩
    | error failure =>
      refine .inr ⟨hknown, rfl, fun calls others hseries => ?_⟩
      rw [isFound_of_starts hfirst, hfirst.afterCalls.results_eq] at hseries
      exact .cons hcall (fun hanswers => nomatch hanswer.mpr hanswers) (by simpa using hseries)
  · have hfirst := hstarts.trans hfinishes
    refine ⟨_, _, finished, [], hfirst, hrun, ?_⟩
    cases ending with
    | ok found =>
      exact .inl ⟨hknows found rfl, fun _ => .nil fun hcan => (hcannot hcan).elim⟩
    | error failure =>
      refine .inr ⟨hknown, rfl, fun calls others hseries => ?_⟩
      rw [isFound_of_starts hfirst, hfirst.results_eq] at hseries
      exact hseries.weaken hcannot

/-- As long as findings are not known, the processes of a run are a series. -/
theorem exec_runAll_unknown (optIn : OptIn)
    (hchecks : ∀ check ∈ checks, LooksAtFindings subject check) (failFast : Bool) {known : Findings}
    (hknown : known.analyzer = none) (host : Host) :
    ∃ results known' after calls,
      ((runAll subject optIn failFast checks).run known).exec host = (.ok (results, known'), after) ∧
      host.Starts calls after ∧
      Series (IsFound subject.config host) host.results calls results.length := by
  -- the findings stay unknown behind a check that failed, so the series of the others goes on from there
  induction checks generalizing known host with
  | nil => exact ⟨[], known, host, [], rfl, .refl host, .nil fun _ => rfl⟩
  | cons check checks ih =>
    have hothers : ∀ other ∈ checks, LooksAtFindings subject other :=
      fun other hother => hchecks other (by simp [hother])
    obtain ⟨result, known', finished, first, hfirst, hrun, hstep⟩ :=
      exec_runAll_first optIn (hchecks check (by simp)) hknown host
    rcases hstep with ⟨hknown', hseries⟩ | ⟨hknown', hfails, hseries⟩
    · obtain ⟨results, known'', after, hbehind, hafter⟩ :=
        exec_goOn_idle result (exec_runAll_known hothers failFast hknown' finished)
      refine ⟨_, known'', after, first, (hrun _ _).trans hbehind, ?_, hseries results.length⟩
      simpa using hfirst.trans hafter
    cases failFast with
    | true =>
      refine ⟨_, known', finished, first, (hrun _ _).trans (exec_goOn_failing checks hfails _ _),
        hfirst, ?_⟩
      simpa using hseries [] 0 (.nil fun _ => rfl)
    | false =>
      obtain ⟨results, known'', after, calls, hrest, hafter, hothers'⟩ := ih hothers hknown' finished
      exact ⟨_, known'', after, first ++ calls, (hrun _ _).trans (exec_goOn rfl hrest),
        hfirst.trans hafter, hseries calls results.length hothers'⟩

def findingIds : List String :=
  ["analyzer/required-rules", "analyzer/flagged-rules", "analyzer/new-error-rules"]

theorem looksAtFindings_of_id (subject : Subject) {check : Check} (hmem : check ∈ all)
    (hid : check.id ∈ findingIds) : LooksAtFindings subject check := by
  have hfilter : all.filter (fun check => findingIds.contains check.id) = analyzerChecks.take 3 := rfl
  have hcheck : check ∈ analyzerChecks.take 3 := by
    rw [← hfilter]
    simpa using ⟨hmem, hid⟩
  simp only [analyzerChecks, List.take, List.mem_cons, List.not_mem_nil, or_false] at hcheck
  rcases hcheck with rfl | rfl | rfl
  · exact ⟨_, rfl⟩
  · exact ⟨_, rfl⟩
  · exact ⟨_, rfl⟩

/-- The first process of a series answers or the series could have been one of one process, exactly if
there is at most one process. -/
theorem Series.length_le_one_iff {canRun : Prop} {results : List ProcessResult}
    {calls : List ProcessCall} {count : Nat} (hseries : Series canRun results calls count)
    (hcan : canRun) :
    calls.length ≤ 1 ↔ count ≤ 1 ∨ Answers (results.headD (.missing none)) := by
  match calls with
  | [] =>
    have hcount := hseries.count_of_nil hcan
    simp [hcount]
  | [call] =>
    have hends := hseries.ends hcan
    simp only [List.length_cons, List.length_nil, Attempt.ofCalls] at hends
    constructor
    · intro hle
      rcases hends with hcount | ⟨attempt, hlast, hanswers⟩
      · exact .inl (Nat.le_of_eq hcount.symm)
      · cases hlast
        exact .inr hanswers
    · intro _
      exact Nat.le_refl 1
  | first :: second :: calls =>
    have hbound := hseries.bounded
    have hfirst := hseries.unanswered (first, results.headD (.missing none)) List.mem_cons_self
    simp only [List.length_cons] at hbound ⊢
    constructor
    · intro hle
      omega
    · rintro (hcount | hanswers)
      · omega
      · exact (hfirst hanswers).elim

/-- In a run of checks that look at findings, in any order and number, all processes are analyses, at
most one for each result, and only the last one can have answered.  If PowerShell can be found, there
is one for each result or the last one answered; so there is at most one exactly if the run has at
most one result or the first process answers. -/
theorem analyses_until_answer (subject : Subject) (optIn : OptIn) (checks : List Check)
    (hchecks : ∀ check ∈ checks, check ∈ all ∧ check.id ∈ findingIds) (failFast : Bool) (host : Host) :
    ∃ summary after,
      (runChecks subject checks optIn failFast).exec host = (.ok summary, after) ∧
      (∀ attempt ∈ host.attempts after, IsAnalysis attempt.1) ∧
      (host.attempts after).length ≤ summary.results.length ∧
      (∀ attempt ∈ (host.attempts after).dropLast, ¬ Answers attempt.2) ∧
      (IsFound subject.config host →
        ((host.attempts after).length = summary.results.length ∨
          ∃ attempt ∈ (host.attempts after).getLast?, Answers attempt.2) ∧
        ((host.attempts after).length ≤ 1 ↔
          summary.results.length ≤ 1 ∨ Answers (host.results.headD (.missing none)))) := by
  have hlook : ∀ check ∈ checks, LooksAtFindings subject check := fun check hcheck =>
    looksAtFindings_of_id subject (hchecks check hcheck).1 (hchecks check hcheck).2
  obtain ⟨results, known, after, calls, hrun, hcalls, hseries⟩ :=
    exec_runAll_unknown optIn hlook failFast (show Findings.none.analyzer = none from rfl) host
  have hanalyses : ∀ attempt ∈ Attempt.ofCalls host.results calls, IsAnalysis attempt.1 := by
    intro attempt hattempt
    have hcall := List.mem_map_of_mem (f := Prod.fst) hattempt
    rw [Attempt.map_ofCalls] at hcall
    exact hseries.analyses _ hcall
  refine ⟨_, after, exec_runChecks_of_runAll hrun, ?_⟩
  rw [hcalls.afterCalls.attempts_eq, Attempt.length_ofCalls]
  exact ⟨hanalyses, hseries.bounded, hseries.unanswered, fun hcan =>
    ⟨hseries.ends hcan, hseries.length_le_one_iff hcan⟩⟩

/-- A host on which PowerShell can be found and two processes run out of time. -/
def slowHost : Host :=
  { Host.holding ⟨[]⟩ ⟨.slash, []⟩ with
    tools := [("pwsh", "/bin/pwsh")]
    results := [.timedOut .nothing .nothing, .timedOut .nothing .nothing] }

theorem analyses_until_answer_of_two :
    (∀ check ∈ analyzerChecks.take 2, check ∈ all ∧ check.id ∈ findingIds) ∧
    IsFound (Subject.ofModule "m").config slowHost ∧
    ∃ summary after,
      (runChecks (.ofModule "m") (analyzerChecks.take 2) ⟨[]⟩ false).exec slowHost =
        (.ok summary, after) ∧
      (∀ attempt ∈ slowHost.attempts after, IsAnalysis attempt.1) ∧
      ((slowHost.attempts after).length ≤ 1 ↔
        summary.results.length ≤ 1 ∨ Answers (slowHost.results.headD (.missing none))) := by
  have hchecks : ∀ check ∈ analyzerChecks.take 2, check ∈ all ∧ check.id ∈ findingIds := by
    simp [all, analyzerChecks, findingIds]
  have hcan : IsFound (Subject.ofModule "m").config slowHost := ⟨_, rfl⟩
  obtain ⟨summary, after, hrun, hanalyses, -, -, hends⟩ :=
    analyses_until_answer (.ofModule "m") ⟨[]⟩ (analyzerChecks.take 2) hchecks false slowHost
  exact ⟨hchecks, hcan, summary, after, hrun, hanalyses, (hends hcan).2⟩

theorem slow_analysis_starts_again :
    ∃ summary after first second,
      (runChecks (.ofModule "m") (analyzerChecks.take 2) ⟨[]⟩ false).exec slowHost =
        (.ok summary, after) ∧
      slowHost.attempts after = [first, second] ∧ IsAnalysis first.1 ∧ IsAnalysis second.1 :=
  ⟨_, _, _, _, rfl, rfl, ⟨_, rfl⟩, ⟨_, rfl⟩⟩

end Analyzer

end DscAudit.Check

import DscAudit.CommandLine.Answer
import DscAudit.Proofs.Check.Metric
import DscAudit.Proofs.Json.RoundTrip
import DscAudit.Proofs.Run.Load

/-!
# Replies

Every answer first does all of its work, which prints nothing, and then prints its lines, which cannot
fail.  So an answer that fails has printed nothing, and one that succeeds in JSON has printed a single
line.

Every run gives an exit code.  A run in JSON answers once: it prints one line with one value, or it
prints nothing, and the last thing that it writes to the stream for errors is a line with the failure
and the exit code.
-/

namespace DscAudit.CommandLine

open DscAudit.Action
open Effect (IsWork)

variable {α : Type} {allowed : Effect → Prop} {format : OutputFormat}

/-- The lines suit the format: in JSON there is one line, which writes a value of finite numbers. -/
def Suit (format : OutputFormat) (lines : List String) : Prop :=
  format = .json → ∃ v : Value, v.IsFinite ∧ lines = [Json.write .oneLine v]

/-- How a step ends that does some work first.  If that succeeds, lines are printed that suit the
format, and the exit code says whether something was found. -/
def Concludes (format : OutputFormat) (host : Host) (work : List Effect) :
    Except Failure ExitCode × Host → Prop
  | (.ok code, after) => (code = .ok ∨ code = .checks) ∧ ∃ lines, Suit format lines ∧
      after = Effect.onAll host (work ++ lines.map .print)
  | (.error _, after) => after = Effect.onAll host work

theorem Concludes.append {host : Host} {first second : List Effect}
    {ending : Except Failure ExitCode × Host}
    (hending : Concludes format (Effect.onAll host first) second ending) :
    Concludes format host (first ++ second) ending := by
  rcases ending with ⟨failure | code, after⟩
  · show after = _
    rw [Effect.onAll_append]
    exact hending
  · obtain ⟨hcode, lines, hsuit, hafter⟩ := hending
    refine ⟨hcode, lines, hsuit, ?_⟩
    rw [List.append_assoc, Effect.onAll_append]
    exact hafter

/-- The step does allowed work, and then concludes. -/
def Replies (allowed : Effect → Prop) (format : OutputFormat) (step : Action ExitCode) : Prop :=
  ∀ host, ∃ work : List Effect,
    (∀ effect ∈ work, allowed effect) ∧ Concludes format host work (step.exec host)

/-- The step prints lines that suit the format, and nothing else. -/
def Prints (format : OutputFormat) (step : Action Unit) : Prop :=
  ∃ lines, Suit format lines ∧
    ∀ host, step.exec host = (.ok (), Effect.onAll host (lines.map .print))

namespace Prints

theorem value {v : Value} (hv : v.IsFinite) : Prints format (printLine (Json.write .oneLine v)) :=
  ⟨[Json.write .oneLine v], fun _ => ⟨v, hv, rfl⟩, fun _ => rfl⟩

theorem line (s : String) : Prints .text (printLine s) := ⟨[s], nofun, fun _ => rfl⟩

theorem bind {first second : Action Unit} (hfirst : Prints .text first)
    (hsecond : Prints .text second) : Prints .text (first >>= fun _ => second) := by
  obtain ⟨lines, -, hlines⟩ := hfirst
  obtain ⟨more, -, hmore⟩ := hsecond
  refine ⟨lines ++ more, nofun, fun host => ?_⟩
  rw [exec_bind_ok (hlines host), hmore, List.map_append, Effect.onAll_append]

theorem forM (lineOf : α → String) (items : List α) :
    Prints .text (items.forM fun item => printLine (lineOf item)) := by
  induction items with
  | nil => exact ⟨[], nofun, fun _ => rfl⟩
  | cons item items ih => exact bind (line (lineOf item)) ih

end Prints

namespace Replies

/-- Work whose values have a property, and a reply for each of them. -/
theorem bind_gives {post : α → Prop} {step : Action α} {next : α → Action ExitCode}
    (hstep : Does allowed step) (hpost : Gives post step)
    (hnext : ∀ a, post a → Replies allowed format (next a)) :
    Replies allowed format (step >>= next) := by
  intro host
  obtain ⟨first, hfirst, hbetween⟩ := hstep host
  rcases hend : step.exec host with ⟨failure | a, between⟩
  · rw [exec_bind_error hend]
    rw [hend] at hbetween
    exact ⟨first, hfirst, hbetween⟩
  · rw [exec_bind_ok hend]
    rw [hend] at hbetween
    obtain ⟨second, hsecond, hconcludes⟩ := hnext a (hpost host a between hend) between
    obtain rfl : between = Effect.onAll host first := hbetween
    refine ⟨first ++ second, fun effect heffect => ?_, hconcludes.append⟩
    rcases List.mem_append.mp heffect with hmem | hmem
    · exact hfirst effect hmem
    · exact hsecond effect hmem

theorem bind {step : Action α} {next : α → Action ExitCode} (hstep : Does allowed step)
    (hnext : ∀ a, Replies allowed format (next a)) : Replies allowed format (step >>= next) :=
  bind_gives hstep (.always step) fun a _ => hnext a

theorem guard {c : Prop} [Decidable c] {early : Action PUnit} {next : PUnit → Action ExitCode}
    (hearly : Does allowed early) (hnext : ∀ r, Replies allowed format (next r)) :
    Replies allowed format (if c then early >>= next else next ⟨⟩) := by
  split
  · exact bind hearly hnext
  · exact hnext ⟨⟩

theorem prints {step : Action Unit} (hstep : Prints format step) {code : ExitCode}
    (hcode : code = .ok ∨ code = .checks) :
    Replies allowed format (step >>= fun _ => pure code) := by
  intro host
  obtain ⟨lines, hsuit, hlines⟩ := hstep
  refine ⟨[], by simp, ?_⟩
  rw [exec_bind_ok (hlines host)]
  exact ⟨hcode, lines, hsuit, rfl⟩

end Replies

/-! ## The answers -/

theorem reads_accepted (result : Except Complaint α) : Reads (accepted result) := by
  cases result with
  | ok a => exact .pure a
  | error complaint => exact .throw _

/-- What every JSON answer starts with, and what the answer adds. -/
theorem isFinite_head {status : String} {more : Table} (hmore : (Value.table more).IsFinite) :
    (Value.table (head status ++ more)).IsFinite := by
  simpa [head] using hmore

theorem isFinite_runHead {context : RunContext} {more : Table} (hmore : (Value.table more).IsFinite) :
    (Value.table (runHead context ++ more)).IsFinite := by
  simpa [runHead, head] using hmore

theorem replies_version (format : OutputFormat) : Replies allowed format (answerVersion format) := by
  unfold answerVersion
  cases format with
  | json => exact .prints (.value (isFinite_head (by simp))) (.inl rfl)
  | text => exact .prints (.line _) (.inl rfl)

theorem replies_list (domain : String) (format : OutputFormat) :
    Replies allowed format (answerList domain format) := by
  unfold answerList
  refine .bind (reads_accepted _).does fun checks => ?_
  cases format with
  | json => exact .prints (.value (isFinite_head (by simp [checkRow]))) (.inl rfl)
  | text => exact .prints (.forM checkLine checks) (.inl rfl)

theorem replies_explain (id : String) (format : OutputFormat) :
    Replies allowed format (answerExplain id format) := by
  unfold answerExplain
  refine .bind (reads_accepted _).does fun check => ?_
  cases format with
  | json => exact .prints (.value (by simp [Report.explanationTable])) (.inl rfl)
  | text => exact .prints (.line _) (.inl rfl)

theorem ok_or_checks (c : Prop) [Decidable c] :
    (if c then ExitCode.ok else .checks) = .ok ∨ (if c then ExitCode.ok else .checks) = .checks := by
  split
  · exact .inl rfl
  · exact .inr rfl

variable {context : RunContext} {evidence : Place}

theorem mem_all_of_select {domain : String} {ids : List String} {checks : List Check}
    (hselect : Check.select domain ids = .ok checks) : ∀ check ∈ checks, check ∈ Check.all := by
  intro check hcheck
  unfold Check.select at hselect
  by_cases hdomain : (!Check.domains.contains domain) = true
  · simp only [if_pos hdomain] at hselect
    cases hselect
  simp only [if_neg hdomain] at hselect
  by_cases hids : ids.isEmpty = true
  · simp only [if_pos hids] at hselect
    cases hselect
    exact (List.mem_filter.mp hcheck).1
  simp only [if_neg hids] at hselect
  rcases hwanted : ids.mapM Check.find with complaint | wanted
  · rw [hwanted] at hselect
    cases hselect
  · rw [hwanted] at hselect
    cases hselect
    exact (List.mem_filter.mp (List.mem_filter.mp hcheck).1).1

theorem gives_accepted (result : Except Complaint α) :
    Gives (fun a => result = .ok a) (accepted result) := by
  cases result with
  | ok a => exact .of_pure rfl
  | error complaint => exact .of_throw _

theorem replies_check (hcontext : context.evidence.IsNormal)
    (hconfig : context.config.HasFiniteNumbers) (domain : String) (ids : List String)
    (failFast : Bool) (outFile : Option String) :
    Replies (IsWork context.evidence.parts) context.format
      (answerCheck context domain ids failFast outFile) := by
  unfold answerCheck
  refine .bind_gives (reads_accepted _).does (gives_accepted _) fun checks hselect => ?_
  have hsubject : context.subject.config.HasFiniteNumbers := hconfig
  have hmetrics := Check.metrics_runChecks context.optIn failFast fun check hcheck =>
    Check.metrics_of_mem_all hsubject (mem_all_of_select hselect check hcheck)
  refine .guard (does_fail _ _ _) fun _ => .bind_gives ?_ hmetrics fun summary hsummary => ?_
  · refine Check.does_runChecks context.optIn failFast isWork_line fun check hcheck => ?_
    have hsubject : context.subject.evidence.IsNormal := hcontext
    exact Check.work_of_mem_all hsubject (mem_all_of_select hselect check hcheck)
  refine .bind_gives (reads_accepted _).does (gives_accepted _) fun payload hpayload => ?_
  have hfinite := Report.isFinite_payload hsummary hpayload
  have hwrite : ∀ {format : OutputFormat} {print : Action ExitCode} (file : String),
      Replies (IsWork context.evidence.parts) format print →
        Replies (IsWork context.evidence.parts) format (do
          let path ← context.writeJson (Path.ofString file) payload
          Action.log context.logSettings
            ⟨"debug", "report", "write", [("path", .text path.toString)]⟩
          print) := fun file hprint =>
    .bind (RunContext.work_writeJson hcontext _ _) fun path => .bind (work_log _ _) fun _ => hprint
  dsimp only
  cases context.format with
  | json =>
    have hprint : Replies (IsWork context.evidence.parts) .json (do
        Action.printLine (Json.write .oneLine payload)
        return if summary.status = .pass then .ok else .checks) :=
      .prints (.value hfinite) (ok_or_checks _)
    split
    · exact hwrite _ hprint
    · exact hprint
  | text =>
    have hprint : Replies (IsWork context.evidence.parts) .text (do
        Action.printLine (← Tool.Pwsh.reading (Report.text (detail context) payload))
        return if summary.status = .pass then .ok else .checks) :=
      .bind Check.Suits.reads_reading.does fun text => .prints (.line _) (ok_or_checks _)
    split
    · exact hwrite _ hprint
    · exact hprint

theorem replies_analyze (raw : List String) :
    Replies (IsWork evidence) context.format (answerAnalyze context raw) := by
  unfold answerAnalyze
  refine .bind ((Does.compositional _).filterM fun path _ => ?_) fun missing => ?_
  · exact .bind (reads_isPresent path).does fun _ => .pure _
  refine .guard (does_fail _ _ _) fun _ => .bind (File.reads_scripts _ _).does fun files => ?_
  refine .bind ((Does.compositional _).mapM fun file _ => ?_) fun found => ?_
  · refine .bind (.bind (reads_readFile _).does fun _ => .pure _) fun _ => .pure _
  refine .bind (work_log _ _) fun _ => ?_
  cases context.format with
  | json =>
    have hitems : (Value.list (found.flatten.map fun found => found.2.toValue found.1)).IsFinite :=
      .list (List.forall_mem_map.mpr fun found _ => by simp [Rule.Diagnostic.toValue])
    have hrules := Value.isFinite_ofTexts (Rule.all.map Rule.Name.text)
    refine .prints (.value (isFinite_head (.table ?_))) (ok_or_checks _)
    exact List.forall_mem_cons.mpr ⟨hrules, List.forall_mem_singleton.mpr hitems⟩
  | text =>
    let lineOf (found : String × Rule.Diagnostic PowerShell.Extent) := found.2.render found.1
    exact .prints (.forM lineOf found.flatten) (ok_or_checks _)

theorem replies_dump (hconfig : context.config.HasFiniteNumbers) :
    Replies (IsWork evidence) context.format (answerDump context) := by
  have hvalue := Config.isFinite_toValue hconfig
  unfold answerDump
  cases context.format with
  | json => exact .prints (.value (isFinite_runHead (by simp [hvalue]))) (.inl rfl)
  | text => exact .prints (.line _) (.inl rfl)

theorem replies_validate : Replies (IsWork evidence) context.format (answerValidate context) := by
  unfold answerValidate
  cases context.format with
  | json => exact .prints (.value (isFinite_runHead (by simp))) (.inl rfl)
  | text => exact .prints (.bind (.line _) (.forM _ _)) (.inl rfl)

theorem work_lookForTool (name executable : String) :
    Does (IsWork evidence) (lookForTool name executable) := by
  unfold lookForTool toolVersion
  refine .bind (reads_findTool _).does fun path => ?_
  split
  · refine .bind ?_ fun _ => .pure _
    refine .get_bind fun host => .bind (work_runOnce _ _) fun result => ?_
    exact .ite (fun _ => .pure _) fun _ => .pure _
  · exact .pure _

theorem replies_doctor : Replies (IsWork evidence) context.format (answerDoctor context) := by
  unfold answerDoctor
  refine .bind ((Does.compositional _).mapM fun tool _ => work_lookForTool _ _) fun tools => ?_
  refine .bind .get fun host => ?_
  cases context.format with
  | json =>
    refine .prints (.value (isFinite_runHead ?_)) (.inl rfl)
    simp [ToolState.toValue]
  | text => exact .prints (.bind (.line _) (.forM _ _)) (.inl rfl)

/-- The command is answered with the context of a run. -/
def Command.NeedsRun : Command → Prop
  | .version => False
  | .list _ => False
  | .explain _ => False
  | _ => True

theorem replies_inRun (hcontext : context.evidence.IsNormal)
    (hconfig : context.config.HasFiniteNumbers) {command : Command}
    (hcommand : command.NeedsRun) :
    Replies (IsWork context.evidence.parts) context.format (answerInRun context command) := by
  unfold answerInRun
  refine .bind (work_log _ _) fun _ => .bind (work_log _ _) fun _ => ?_
  cases command with
  | check domain ids failFast outFile => exact replies_check hcontext hconfig domain ids failFast outFile
  | analyze paths => exact replies_analyze paths
  | dump => exact replies_dump hconfig
  | validate => exact replies_validate
  | doctor => exact replies_doctor
  | version => exact hcommand.elim
  | list domain => exact hcommand.elim
  | explain id => exact hcommand.elim

/-- Nothing is done for an answer on a host, or what is done lies in the directory for evidence of the
context that the host gives. -/
def IsWorkOn (host : Host) (settings : RunSettings) (work : List Effect) : Prop :=
  work = [] ∨ ∃ context, (RunContext.load settings).exec host = (.ok context, host) ∧
    ∀ effect ∈ work, IsWork context.evidence.parts effect

/-- An answer does its work and concludes, whatever the request and the host are. -/
theorem exec_answer (request : Request) (format : OutputFormat) (host : Host) :
    ∃ work, IsWorkOn host (request.runSettings format) work ∧
      Concludes format host work ((answer request format).exec host) := by
  -- some answers need no context and do no work; the others first load the context of a run
  have hidle : ∀ step : Action ExitCode, Replies (fun _ => False) format step →
      ∃ work, IsWorkOn host (request.runSettings format) work ∧
        Concludes format host work (step.exec host) := by
    intro step hstep
    obtain ⟨work, hnone, hconcludes⟩ := hstep host
    cases work with
    | nil => exact ⟨[], .inl rfl, hconcludes⟩
    | cons effect work => exact (hnone effect (by simp)).elim
  have hrun : ∀ command : Command, command.NeedsRun →
      ∃ work, IsWorkOn host (request.runSettings format) work ∧
        Concludes format host work ((do
          answerInRun (← RunContext.load (request.runSettings format)) command :
            Action ExitCode).exec host) := by
    intro command hcommand
    have hafter := (RunContext.reads_load (request.runSettings format)).exec_snd host
    rcases hload : (RunContext.load (request.runSettings format)).exec host with
        ⟨failure | context, between⟩
    · rw [hload] at hafter
      refine ⟨[], .inl rfl, ?_⟩
      rw [exec_bind_error hload]
      exact hafter
    · rw [hload] at hafter
      obtain rfl : between = host := hafter
      have hsound := RunContext.gives_load _ _ _ _ hload
      rw [exec_bind_ok hload]
      obtain ⟨work, hwork, hconcludes⟩ := replies_inRun hsound.evidence hsound.config hcommand between
      rw [hsound.format] at hconcludes
      exact ⟨work, .inr ⟨context, hload, hwork⟩, hconcludes⟩
  unfold answer
  cases request.command with
  | version => exact hidle _ (replies_version format)
  | list domain => exact hidle _ (replies_list domain format)
  | explain id => exact hidle _ (replies_explain id format)
  | check domain ids failFast outFile => exact hrun _ trivial
  | analyze paths => exact hrun _ trivial
  | dump => exact hrun _ trivial
  | validate => exact hrun _ trivial
  | doctor => exact hrun _ trivial

/-! ## Whole runs -/

theorem exec_formatOf (request : Request) (host : Host) :
    ∃ format, (formatOf request).exec host = (.ok format, host) := ⟨_, rfl⟩

/-- A failure of an answer is caught: its line is written, and its code is the result. -/
theorem exec_run {request : Request} {host : Host} {format : OutputFormat}
    (hformat : (formatOf request).exec host = (.ok format, host)) :
    (run request).exec host =
      match (answer request format).exec host with
      | (.ok code, after) => (.ok code, after)
      | (.error failure, after) => (.ok (failureLine format failure).2,
          (Effect.report ((failureLine format failure).1 ++ "\n")).on after) := by
  unfold run
  rw [exec_bind_ok hformat, exec_tryCatch]
  rcases (answer request format).exec host with ⟨failure | code, after⟩ <;> rfl

end DscAudit.CommandLine

/-! ## One answer -/

namespace DscAudit

namespace Effect

theorem on_of_isSilent {effect : Effect} (hsilent : effect.IsSilent) (host : Host) :
    (effect.on host).output = host.output ∧
      ∃ logs : List String, (effect.on host).errors = host.errors ++ logs ∧
        ∀ text ∈ logs, ∃ line, text = line ++ "\n" := by
  cases effect with
  | print line => exact hsilent.elim
  | report text => exact ⟨rfl, [text], rfl, List.forall_mem_singleton.mpr hsilent⟩
  | start call => exact ⟨rfl, [], (List.append_nil _).symm, nofun⟩
  | pause delay => exact ⟨rfl, [], (List.append_nil _).symm, nofun⟩
  | makeDirectory place =>
    simp only [on]
    split <;> exact ⟨rfl, [], (List.append_nil _).symm, nofun⟩
  | writeFile place content =>
    simp only [on]
    split <;> exact ⟨rfl, [], (List.append_nil _).symm, nofun⟩

theorem onAll_of_isSilent {effects : List Effect} (hsilent : ∀ effect ∈ effects, effect.IsSilent)
    (host : Host) :
    (onAll host effects).output = host.output ∧
      ∃ logs : List String, (onAll host effects).errors = host.errors ++ logs ∧
        ∀ text ∈ logs, ∃ line, text = line ++ "\n" := by
  induction effects generalizing host with
  | nil => exact ⟨rfl, [], (List.append_nil _).symm, nofun⟩
  | cons effect effects ih =>
    rw [List.forall_mem_cons] at hsilent
    obtain ⟨hfirst, first, hreports, hlines⟩ := on_of_isSilent hsilent.1 host
    obtain ⟨houtput, logs, herrors, hlogs⟩ := ih hsilent.2 (effect.on host)
    refine ⟨houtput.trans hfirst, first ++ logs, ?_, List.forall_mem_append.mpr ⟨hlines, hlogs⟩⟩
    rw [onAll_cons, herrors, hreports, List.append_assoc]

end Effect

namespace CommandLine

/-- The line holds a value and nothing else: it is read as this value, and it was written for a value
whose numbers are all finite. -/
structure HoldsValue (line : String) (v : Value) : Prop where
  oneLine : '\n' ∉ line.toList
  read : Json.read? line.toList = some v
  finite : ∃ written : Value, written.IsFinite ∧ line = Json.write .oneLine written

theorem holdsValue_write {v : Value} (hv : v.IsFinite) :
    HoldsValue (Json.write .oneLine v) (Json.reread v) :=
  ⟨Json.newline_not_mem_write v, Json.read?_write v, v, hv, rfl⟩

/-- The line holds an envelope with the exit code. -/
def HoldsFailure (line : String) (code : ExitCode) : Prop :=
  ∃ envelope error : Table, HoldsValue line (.table envelope) ∧
    envelope.get? "error" = some (.table error) ∧ error.get? "code" = some (.int code.number)

/-- The host after a run in JSON that gives an exit code. -/
inductive AnswersOnce (before after : Host) (code : ExitCode) : Prop where
  | result {line : String} {v : Value} (hcode : code = .ok ∨ code = .checks)
      (hline : HoldsValue line v) (houtput : after.output = before.output ++ [line ++ "\n"])
  | refusal {line : String} {logs : List String} (houtput : after.output = before.output)
      (hlogs : ∀ text ∈ logs, ∃ log, text = log ++ "\n") (hline : HoldsFailure line code)
      (herrors : after.errors = before.errors ++ logs ++ [line ++ "\n"])

theorem holdsFailure_errorLine (message kind : String) (code : ExitCode) :
    HoldsFailure (errorLine .json message code.number kind) code := by
  let details : Table := [("message", .text message), ("code", .int code.number), ("kind", .text kind)]
  let envelope : Table := head "fail" ++ [("error", .table details)]
  have hdetails : (details.map (·.1)).Nodup := show ["message", "code", "kind"].Nodup by decide
  have henvelope : (envelope.map (·.1)).Nodup :=
    show ["schema_version", "tool", "status", "error"].Nodup by decide
  obtain ⟨error, hreadError, hcode⟩ :=
    Json.get?_reread hdetails (List.mem_of_getElem? (i := 1) rfl)
  obtain ⟨table, hread, herror⟩ := Json.get?_reread henvelope (List.mem_of_getElem? (i := 3) rfl)
  have hfinite : (Value.table envelope).IsFinite := isFinite_head (by simp [details])
  have hline := holdsValue_write hfinite
  rw [hread] at hline
  rw [hreadError] at herror
  exact ⟨table, error, hline, herror, hcode⟩

theorem holdsFailure_failureLine (failure : Failure) :
    HoldsFailure (failureLine .json failure).1 (failureLine .json failure).2 := by
  cases failure with
  | complaint complaint => exact holdsFailure_errorLine _ _ complaint.code
  | defect defect => exact holdsFailure_errorLine _ _ .internal

theorem IsWorkOn.isSilent {host : Host} {settings : RunSettings} {work : List Effect}
    (hwork : IsWorkOn host settings work) : ∀ effect ∈ work, effect.IsSilent := by
  rcases hwork with rfl | ⟨context, -, hwork⟩
  · exact nofun
  · exact fun effect heffect => (hwork effect heffect).1

theorem exitCode_mem_all (code : ExitCode) : code ∈ ExitCode.all := by
  cases code <;> decide

/-- Whatever is asked for and whatever the host is like, a run gives an exit code, and in JSON one
answer. -/
theorem run_answers_once (request : Request) (host : Host) :
    ∃ format code after, (formatOf request).exec host = (.ok format, host) ∧
      (run request).exec host = (.ok code, after) ∧ code ∈ ExitCode.all ∧
      (format = .json → AnswersOnce host after code) := by
  obtain ⟨format, hformat⟩ := exec_formatOf request host
  obtain ⟨work, hwork, hconcludes⟩ := exec_answer request format host
  obtain ⟨houtput, logs, herrors, hlogs⟩ := Effect.onAll_of_isSilent hwork.isSilent host
  have hrun := exec_run hformat
  rcases hend : (answer request format).exec host with ⟨failure | code, after⟩
  · rw [hend] at hrun hconcludes
    obtain rfl : after = Effect.onAll host work := hconcludes
    refine ⟨format, _, _, hformat, hrun, exitCode_mem_all _, ?_⟩
    rintro rfl
    refine .refusal houtput hlogs (holdsFailure_failureLine failure) ?_
    show (Effect.onAll host work).errors ++ _ = _
    rw [herrors]
  · rw [hend] at hrun hconcludes
    obtain ⟨hcode, lines, hsuit, hafter⟩ := hconcludes
    refine ⟨format, code, after, hformat, hrun, exitCode_mem_all code, fun hjson => ?_⟩
    obtain ⟨v, hv, rfl⟩ := hsuit hjson
    refine .result hcode (holdsValue_write hv) ?_
    rw [hafter, Effect.onAll_append]
    show (Effect.onAll host work).output ++ _ = _
    rw [houtput]

def versionRequest (format : OutputFormat) : Request :=
  ⟨none, none, none, some format, false, false, false, false, .version⟩

theorem version_answers_once :
    ∃ code after,
      (run (versionRequest .json)).exec (.holding ⟨[]⟩ ⟨.slash, []⟩) = (.ok code, after) ∧
      AnswersOnce (.holding ⟨[]⟩ ⟨.slash, []⟩) after code := by
  obtain ⟨format, code, after, hformat, hrun, -, honce⟩ :=
    run_answers_once (versionRequest .json) (.holding ⟨[]⟩ ⟨.slash, []⟩)
  have hjson : (formatOf (versionRequest .json)).exec (.holding ⟨[]⟩ ⟨.slash, []⟩) =
      (.ok .json, .holding ⟨[]⟩ ⟨.slash, []⟩) := rfl
  rw [hjson] at hformat
  cases hformat
  exact ⟨code, after, hrun, honce rfl⟩

end CommandLine

end DscAudit

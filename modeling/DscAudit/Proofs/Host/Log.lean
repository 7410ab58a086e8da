import DscAudit.Proofs.Json.RoundTrip
import DscAudit.Proofs.Tool.Pwsh

/-!
# One line per event

An event that is written as JSON is one line, whatever it has: line feeds are escaped.  As text it is
one line exactly if none of the texts that it is made of has a line feed.  So the process of a script
of several lines is logged on several lines of text.
-/

namespace DscAudit

/-- The text ends with a line feed and has no other one. -/
def IsOneLine (text : String) : Prop := ∃ line : String, '\n' ∉ line.toList ∧ text = line ++ "\n"

theorem isOneLine_append_newline (line : String) : IsOneLine (line ++ "\n") ↔ '\n' ∉ line.toList := by
  constructor
  · intro hone
    obtain ⟨other, hother, heq⟩ := hone
    have hlists := congrArg String.toList heq
    simp only [String.toList_append] at hlists
    rwa [List.append_cancel_right hlists]
  · intro hline
    exact ⟨line, hline, rfl⟩

/-- What stands in a text that parts and a separator make, and not in the separator, stands in a part. -/
theorem mem_toList_intercalate {c : Char} {separator : String} (hc : c ∉ separator.toList)
    (parts : List String) :
    c ∈ (separator.intercalate parts).toList ↔ ∃ part ∈ parts, c ∈ part.toList := by
  rw [String.toList_intercalate]
  induction parts with
  | nil => simp
  | cons part parts ih =>
    cases parts with
    | nil => simp
    | cons next parts =>
      rw [List.map_cons, List.map_cons, List.intercalate_cons_cons, ← List.map_cons]
      simp only [List.mem_append, ih, hc, or_false]
      rw [List.exists_mem_cons_iff _ part]

theorem mem_toList_intercalate_of_mem {c : Char} {separator : String} (hc : c ∈ separator.toList)
    (first second : String) (parts : List String) :
    c ∈ (separator.intercalate (first :: second :: parts)).toList := by
  rw [String.toList_intercalate, List.map_cons, List.map_cons, List.intercalate_cons_cons]
  simp [hc]

namespace Moment

theorem newline_not_mem_digits (width n : Nat) : '\n' ∉ digits width n := by
  induction width generalizing n with
  | zero => simp [digits]
  | succ width ih =>
    have hdigit : ∀ k < 10, '\n' ≠ Char.ofNat (0x30 + k) := by decide
    simp only [digits, List.mem_append, List.mem_singleton, not_or]
    exact ⟨ih _, hdigit _ (Nat.mod_lt n (by omega))⟩

theorem newline_not_mem_extended (moment : Moment) : '\n' ∉ moment.extended.toList := by
  unfold extended
  simp [newline_not_mem_digits]

end Moment

namespace Event

variable {settings : LogSettings} {now : Moment} {event : Event}

/-- None of the texts that a line is made of has a line feed. -/
structure IsUnbroken (settings : LogSettings) (event : Event) : Prop where
  runId : '\n' ∉ settings.runId.toList
  level : '\n' ∉ event.level.toList
  component : '\n' ∉ event.component.toList
  action : '\n' ∉ event.action.toList
  fields : ∀ field ∈ event.fields, '\n' ∉ field.1.toList ∧ '\n' ∉ field.2.plain.toList

theorem get?_insertAll (key : String) (fields table : Table) :
    (fields.foldl (fun table field => table.insert field.1 field.2) table).get? key =
        table.get? key ∨
      ∃ field ∈ fields,
        (fields.foldl (fun table field => table.insert field.1 field.2) table).get? key =
          some field.2 := by
  induction fields generalizing table with
  | nil => exact .inl rfl
  | cons field fields ih =>
    rw [List.foldl_cons]
    cases ih (table.insert field.1 field.2) with
    | inl hfirst =>
      by_cases hkey : key = field.1
      · right
        use field, List.mem_cons_self
        rw [hfirst, hkey, Entries.get?_insert_self]
      · left
        rw [hfirst, Entries.get?_insert_of_ne hkey]
    | inr hlater =>
      obtain ⟨other, hother, hget⟩ := hlater
      right
      use other, List.mem_cons_of_mem _ hother

/-- The time in a line is that of the clock or the value of a field. -/
theorem newline_not_mem_time (hunbroken : event.IsUnbroken settings) :
    '\n' ∉ (((event.record settings now).get? "ts").getD .null).plain.toList := by
  unfold record
  rcases get?_insertAll "ts" event.fields _ with hclock | ⟨field, hfield, hget⟩
  · rw [hclock]
    exact now.newline_not_mem_extended
  · rw [hget]
    exact (hunbroken.fields field hfield).2

/-- The fields of a line, in their order. -/
def extras (event : Event) : String :=
  " ".intercalate (event.sortedFields.map fun field => field.1 ++ "=" ++ field.2.plain)

theorem newline_mem_extras :
    '\n' ∈ event.extras.toList ↔
      ∃ field ∈ event.fields, '\n' ∈ field.1.toList ∨ '\n' ∈ field.2.plain.toList := by
  have hsorted : ∀ field, field ∈ event.sortedFields ↔ field ∈ event.fields := by
    intro field
    exact List.mem_mergeSort
  unfold extras
  rw [mem_toList_intercalate (by decide)]
  simp [hsorted]

/-- The part of a line before the fields. -/
def core (settings : LogSettings) (now : Moment) (event : Event) : String :=
  "ts=" ++ (((event.record settings now).get? "ts").getD .null).plain ++ " level=" ++ event.level ++
    " run_id=" ++ settings.runId ++ " component=" ++ event.component ++ " action=" ++ event.action

theorem line_eq_of_text (htext : settings.json = false) :
    event.line settings now =
      if event.extras.isEmpty then event.core settings now
      else event.core settings now ++ " " ++ event.extras := by
  unfold line
  rw [if_neg (by simp [htext])]
  rfl

theorem newline_mem_line_of_text (htext : settings.json = false) :
    '\n' ∈ (event.line settings now).toList ↔
      '\n' ∈ (event.core settings now).toList ∨ '\n' ∈ event.extras.toList := by
  rw [line_eq_of_text htext]
  by_cases hempty : event.extras.isEmpty = true
  · have hnone : event.extras = "" := String.isEmpty_iff.mp hempty
    rw [if_pos hempty, hnone]
    simp
  · rw [if_neg hempty]
    simp

/-- JSON stands on one line; a line of text is one line if nothing breaks it, and only then. -/
theorem isOneLine_line :
    IsOneLine (event.line settings now ++ "\n") ↔
      settings.json = true ∨ event.IsUnbroken settings := by
  rw [isOneLine_append_newline]
  by_cases hjson : settings.json = true
  · have hline : event.line settings now = Json.write .oneLine (.table (event.record settings now)) := by
      unfold line
      exact if_pos hjson
    rw [hline]
    exact iff_of_true (Json.newline_not_mem_write _) (.inl hjson)
  · have htext : settings.json = false := by simpa using hjson
    rw [newline_mem_line_of_text htext, newline_mem_extras]
    simp only [htext, Bool.false_eq_true, false_or]
    constructor
    · intro hnone
      rw [not_or] at hnone
      obtain ⟨hcore, hfields⟩ := hnone
      simp only [core, String.toList_append, List.mem_append, not_or] at hcore
      constructor
      · exact hcore.1.1.1.1.2
      · exact hcore.1.1.1.1.1.1.2
      · exact hcore.1.1.2
      · exact hcore.2
      · intro field hfield
        by_contra hbreak
        exact hfields ⟨field, hfield, by tauto⟩
    · intro hunbroken hmem
      cases hmem with
      | inl hcore =>
        simp [core, newline_not_mem_time hunbroken, hunbroken.level, hunbroken.runId,
          hunbroken.component, hunbroken.action] at hcore
      | inr hfields =>
        obtain ⟨field, hfield, hbreak⟩ := hfields
        have hplain := hunbroken.fields field hfield
        tauto

end Event

namespace Action

/-- What the log writes for an event: at most one text. -/
def logged (settings : LogSettings) (now : Moment) (event : Event) : List String :=
  if event.isWritten settings then [event.line settings now ++ "\n"] else []

theorem exec_log (settings : LogSettings) (event : Event) (host : Host) :
    (log settings event).exec host =
      (.ok (), { host with errors := host.errors ++ logged settings host.now event }) := by
  unfold log logged
  by_cases hwritten : event.isWritten settings = true
  · rw [if_pos hwritten, if_pos hwritten]
    rfl
  · rw [if_neg hwritten, if_neg hwritten, List.append_nil]
    rfl

end Action

namespace Command

open DscAudit.Action

variable {settings : LogSettings} {command : Command}

/-- Neither the run nor what a command shows of itself has a line feed. -/
structure IsUnbroken (settings : LogSettings) (command : Command) : Prop where
  runId : '\n' ∉ settings.runId.toList
  words : ∀ word ∈ command.words, '\n' ∉ word.toList
  directory : '\n' ∉ command.directory.toString.toList

/-- The numbers in the event of a command break no line. -/
theorem isUnbroken_event (attempt : Nat) (result : CommandResult) :
    (command.event attempt result).IsUnbroken settings ↔ command.IsUnbroken settings := by
  have hinteger : ∀ n : Int, '\n' ∉ (Value.int n).plain.toList := by
    intro n
    show '\n' ∉ (String.ofList (integerText n)).toList
    rw [String.toList_ofList]
    exact Json.newline_not_mem_integerText n
  have hwords : '\n' ∈ (" ".intercalate command.words).toList ↔
      ∃ word ∈ command.words, '\n' ∈ word.toList := mem_toList_intercalate (by decide) _
  constructor
  · intro hevent
    have hcommand := (hevent.fields ("command", .text (" ".intercalate command.words)) (by simp [event])).2
    have hdirectory := (hevent.fields ("cwd", .text command.directory.toString) (by simp [event])).2
    rw [Value.plain_text, hwords] at hcommand
    constructor
    · exact hevent.runId
    · intro word hword hbreak
      exact hcommand ⟨word, hword, hbreak⟩
    · exact hdirectory
  · intro hcommand
    have hnone : '\n' ∉ (" ".intercalate command.words).toList := by
      rw [hwords]
      intro hbroken
      obtain ⟨word, hword, hbreak⟩ := hbroken
      exact hcommand.words word hword hbreak
    constructor
    · exact hcommand.runId
    · simp [event]
    · simp [event]
    · simp [event]
    · intro field hfield
      simp only [event, List.mem_cons, List.not_mem_nil, or_false] at hfield
      rcases hfield with rfl | rfl | rfl | rfl | rfl
      · exact ⟨by simp, hnone⟩
      · exact ⟨by simp, hcommand.directory⟩
      · exact ⟨by simp, hinteger _⟩
      · exact ⟨by simp, hinteger _⟩
      · exact ⟨by simp, hinteger _⟩

/-- From the first host to the second one the process of a command was started so many times, and each
time its end was logged, unless the log is quiet. -/
structure Logs (settings : LogSettings) (command : Command) (before : Host) (times : Nat)
    (after : Host) (texts : List String) : Prop where
  calls_eq : after.calls = before.calls ++ List.replicate times command.call
  errors_eq : after.errors = before.errors ++ texts
  length_eq : texts.length = if settings.quiet then 0 else times
  isOneLine_iff : ∀ text ∈ texts,
    (IsOneLine text ↔ settings.json = true ∨ command.IsUnbroken settings)

namespace Logs

variable {before between after : Host} {first second : Nat} {texts texts' : List String}

theorem refl (settings : LogSettings) (command : Command) (host : Host) :
    Logs settings command host 0 host [] := by
  constructor <;> simp

theorem trans (hfirst : Logs settings command before first between texts)
    (hsecond : Logs settings command between second after texts') :
    Logs settings command before (first + second) after (texts ++ texts') := by
  constructor
  · rw [hsecond.calls_eq, hfirst.calls_eq, List.append_assoc, List.replicate_append_replicate]
  · rw [hsecond.errors_eq, hfirst.errors_eq, List.append_assoc]
  · rw [List.length_append, hfirst.length_eq, hsecond.length_eq]
    split <;> rfl
  · intro text htext
    cases List.mem_append.mp htext with
    | inl hearlier => exact hfirst.isOneLine_iff text hearlier
    | inr hlater => exact hsecond.isOneLine_iff text hlater

end Logs

/-- One attempt: the process is started and its end is logged. -/
theorem logs_attempt (settings : LogSettings) (command : Command) (attempt : Nat) (host : Host) :
    ∃ after texts, Logs settings command host 1 after texts ∧
      ∀ {α : Type} (next : CommandResult → Action α),
        (command.start >>= fun result =>
          Action.log? (some settings) (command.event attempt result) >>= fun _ =>
            next result).exec host =
        (next (command.resultOf (host.results.headD (.missing none)))).exec after := by
  let result := command.resultOf (host.results.headD (.missing none))
  let started := (Effect.start command.call).on host
  have hstart : command.start.exec host = (.ok result, started) := rfl
  have hlog := exec_log settings (command.event attempt result) started
  use { started with errors := started.errors ++ logged settings started.now (command.event attempt result) }
  use logged settings started.now (command.event attempt result)
  constructor
  · constructor
    · rfl
    · rfl
    · have hwritten : (command.event attempt result).isWritten settings = !settings.quiet := by
        simp [Event.isWritten, event]
      unfold logged
      rw [hwritten]
      cases settings.quiet <;> rfl
    · intro text htext
      unfold logged at htext
      rw [List.mem_ite_nil_right, List.mem_singleton] at htext
      rw [htext.2, Event.isOneLine_line, isUnbroken_event]
  · intro α next
    rw [exec_bind_ok hstart]
    exact exec_bind_ok hlog _

theorem logs_pause (delay : Decimal.Binary64) (host : Host) :
    ∃ after, (pause delay).exec host = (.ok (), after) ∧ Logs settings command host 0 after [] := by
  unfold pause
  split
  · use { host with sleeps := host.sleeps ++ [delay] }
    constructor
    · rfl
    · constructor <;> simp
  · exact ⟨host, rfl, .refl settings command host⟩

theorem logs_attempts (settings : LogSettings) (command : Command) (delay : Decimal.Binary64)
    (attempt left : Nat) (host : Host) :
    ∃ result times after texts,
      (attempts command delay (some settings) attempt left).exec host = (.ok result, after) ∧
      Logs settings command host times after texts := by
  induction left generalizing attempt host with
  | zero =>
    obtain ⟨after, texts, hlogs, hexec⟩ := logs_attempt settings command attempt host
    unfold attempts
    rw [hexec]
    exact ⟨_, _, _, _, rfl, hlogs⟩
  | succ left ih =>
    obtain ⟨between, texts, hfirst, hexec⟩ := logs_attempt settings command attempt host
    unfold attempts
    rw [hexec]
    dsimp only
    split
    · exact ⟨_, _, _, _, rfl, hfirst⟩
    · obtain ⟨paused, hpause, hpaused⟩ : ∃ after, (pause delay).exec between = (.ok (), after) ∧
          Logs settings command between 0 after [] := logs_pause delay between
      obtain ⟨last, times, after, more, hrest, hafter⟩ := ih (attempt + 1) paused
      rw [exec_bind_ok hpause, hrest]
      exact ⟨_, _, _, _, rfl, (hfirst.trans hpaused).trans hafter⟩

/-- However often a command is started, each of its processes is logged by itself. -/
theorem logs_run (settings : LogSettings) (command : Command) (allowed : Nat)
    (delay : Decimal.Binary64) (host : Host) :
    ∃ result times after texts,
      (command.run allowed delay (some settings)).exec host = (.ok result, after) ∧
      Logs settings command host times after texts := by
  cases allowed with
  | zero => exact ⟨_, _, _, _, rfl, .refl settings command host⟩
  | succ left => exact logs_attempts settings command delay 1 left host

end Command

namespace Tool.Pwsh

open DscAudit.Action

/-- The scripts that are run with PowerShell. -/
def scripts : List String := [Script.analyze, Script.parse, Script.compile]

theorem newline_mem_of_mem_scripts {script : String} (hscript : script ∈ scripts) :
    '\n' ∈ script.toList := by
  simp only [scripts, List.mem_cons, List.not_mem_nil, or_false] at hscript
  rcases hscript with rfl | rfl | rfl <;> exact mem_toList_intercalate_of_mem (by decide) _ _ _

/-- The command that runs a script. -/
def command (session : Session) (script : String) (environment : List (String × String)) : Command :=
  ⟨session.executable :: options ++ [script], session.directory, session.timeout, some environment⟩

theorem not_isUnbroken_command {session : Session} {script : String}
    {environment : List (String × String)} {settings : LogSettings} (hscript : '\n' ∈ script.toList) :
    ¬ (command session script environment).IsUnbroken settings := by
  intro hunbroken
  exact hunbroken.words script (by simp [command]) hscript

/-- A script starts one process, whose end is logged. -/
theorem logs_run {session : Session} {settings : LogSettings} (hlog : session.log = some settings)
    (script : String) (overrides : List (String × String)) (host : Host) :
    ∃ ending after texts,
      (run session script overrides).exec host = (ending, after) ∧
      Command.Logs settings (command session script (override host.environment overrides)) host 1
        after texts := by
  let command : Command :=
    ⟨session.executable :: options ++ [script], session.directory, session.timeout,
      some (override host.environment overrides)⟩
  let result := command.resultOf (host.results.headD (.missing none))
  obtain ⟨after, texts, hlogs, hexec⟩ := Command.logs_attempt settings command 1 host
  have hcommand : (command.runOnce session.log).exec host = (.ok result, after) := by
    rw [hlog]
    exact hexec pure
  unfold run
  rw [exec_get_bind, exec_bind_ok hcommand]
  generalize result = result
  -- what follows only looks at the result
  by_cases htimeout : result.code = timeoutCode
  · simp only [if_pos htimeout]
    exact ⟨_, after, texts, rfl, hlogs⟩
  · by_cases hcode : result.code = 0
    · simp only [hcode]
      cases ResultLine.read result.output.toList with
      | ok value => exact ⟨_, after, texts, rfl, hlogs⟩
      | error fault => exact ⟨_, after, texts, rfl, hlogs⟩
    · simp only [if_neg htimeout, if_pos hcode]
      exact ⟨_, after, texts, rfl, hlogs⟩

end Tool.Pwsh

/-- An event is written once or not at all, as a line if the log is in JSON or nothing in the event
breaks the line.  The same holds of each process that a command starts, and the scripts always break
their lines of text. -/
theorem log_writes_one_line_iff (settings : LogSettings) (host : Host) :
    (∀ event : Event, ∃ texts,
      (Action.log settings event).exec host =
        (.ok (), { host with errors := host.errors ++ texts }) ∧
      texts.length = (if event.isWritten settings then 1 else 0) ∧
      ∀ text ∈ texts, (IsOneLine text ↔ settings.json = true ∨ event.IsUnbroken settings)) ∧
    (∀ (command : Command) (allowed : Nat) (delay : Decimal.Binary64), ∃ result times after texts,
      (command.run allowed delay (some settings)).exec host = (.ok result, after) ∧
      command.Logs settings host times after texts) ∧
    ∀ (session : Tool.Pwsh.Session), ∀ script ∈ Tool.Pwsh.scripts,
      ∀ overrides : List (String × String), ∃ ending after texts,
        (Tool.Pwsh.run { session with log := some settings } script overrides).exec host =
          (ending, after) ∧
        after.errors = host.errors ++ texts ∧
        texts.length = (if settings.quiet then 0 else 1) ∧
        ∀ text ∈ texts, (IsOneLine text ↔ settings.json = true) := by
  constructor
  · intro event
    use Action.logged settings host.now event, Action.exec_log settings event host
    unfold Action.logged
    constructor
    · split <;> rfl
    · intro text htext
      rw [List.mem_ite_nil_right, List.mem_singleton] at htext
      rw [htext.2, Event.isOneLine_line]
  constructor
  · intro command allowed delay
    exact command.logs_run settings allowed delay host
  · intro session script hscript overrides
    let logging : Tool.Pwsh.Session := { session with log := some settings }
    have hlog : logging.log = some settings := rfl
    obtain ⟨ending, after, texts, hexec, hlogs⟩ := Tool.Pwsh.logs_run hlog script overrides host
    use ending, after, texts, hexec, hlogs.errors_eq, hlogs.length_eq
    intro text htext
    have hbroken : ¬ (Tool.Pwsh.command logging script
        (Tool.Pwsh.override host.environment overrides)).IsUnbroken settings :=
      Tool.Pwsh.not_isUnbroken_command (Tool.Pwsh.newline_mem_of_mem_scripts hscript)
    rw [hlogs.isOneLine_iff text htext, or_iff_left hbroken]

/-- The first script breaks its line in a log of text. -/
theorem log_of_script_breaks :
    Tool.Script.analyze ∈ Tool.Pwsh.scripts ∧
    ∃ ending after text,
      (Tool.Pwsh.run ⟨"pwsh", ⟨.slash, []⟩, .int 60, some ⟨"run", false, false, false⟩⟩
          Tool.Script.analyze []).exec (.holding ⟨[]⟩ ⟨.slash, []⟩) = (ending, after) ∧
      after.errors = [text] ∧ ¬ IsOneLine text := by
  have hscript : Tool.Script.analyze ∈ Tool.Pwsh.scripts := List.mem_cons_self
  obtain ⟨ending, after, texts, hexec, herrors, hlength, hone⟩ :=
    (log_writes_one_line_iff ⟨"run", false, false, false⟩ (.holding ⟨[]⟩ ⟨.slash, []⟩)).2.2
      ⟨"pwsh", ⟨.slash, []⟩, .int 60, none⟩ Tool.Script.analyze hscript []
  obtain ⟨text, htexts⟩ := List.length_eq_one_iff.mp hlength
  use hscript, ending, after, text, hexec
  constructor
  · rw [herrors, htexts]
    rfl
  · rw [hone text (by simp [htexts])]
    decide

/-- A line feed in the value of a field ends the line of text before its end. -/
theorem logged_value_breaks_line :
    ∃ text,
      (Action.log ⟨"run", false, false, false⟩
          ⟨"info", "component", "action", [("field", .text "first\nsecond")]⟩).exec
        (.holding ⟨[]⟩ ⟨.slash, []⟩) =
      (.ok (), { Host.holding ⟨[]⟩ ⟨.slash, []⟩ with errors := [text] }) ∧ ¬ IsOneLine text := by
  refine ⟨_, Action.exec_log _ _ _, ?_⟩
  rw [Event.isOneLine_line]
  intro hone
  cases hone with
  | inl hjson => cases hjson
  | inr hunbroken =>
    have hvalue := (hunbroken.fields ("field", .text "first\nsecond") (by simp)).2
    rw [Value.plain_text] at hvalue
    exact hvalue (by decide)

end DscAudit

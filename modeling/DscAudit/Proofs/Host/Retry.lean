import DscAudit.Proofs.Host.Attempt
import DscAudit.Proofs.Host.Log
import DscAudit.Proofs.Text.Character
import Mathlib.Data.ENat.Basic

/-!
# Commands that are started again

A command that may be started again after a failure is started until a process ends with code zero or no
attempt is left.  What it does to its host is a list of effects: each attempt starts the process and logs
its end, and between two attempts the delay passes once.  The numbers of processes, of pauses and of
events are all read off this list.
-/

namespace DscAudit

open Decimal (Binary64)

/-! ## Parts of what is done -/

namespace Effect

/-- The process that the effect starts. -/
def started? : Effect → Option ProcessCall
  | start call => some call
  | _ => none

/-- The time that the effect lets pass. -/
def paused? : Effect → Option Binary64
  | pause delay => some delay
  | _ => none

/-- The text that the effect writes to the stream for errors. -/
def reported? : Effect → Option String
  | report text => some text
  | _ => none

/-- What the effects add to the lists of a host. -/
theorem onAll_lists (effects : List Effect) (host : Host) :
    (onAll host effects).calls = host.calls ++ effects.filterMap started? ∧
      (onAll host effects).sleeps = host.sleeps ++ effects.filterMap paused? ∧
      (onAll host effects).errors = host.errors ++ effects.filterMap reported? := by
  induction effects generalizing host with
  | nil => simp
  | cons effect effects ih =>
    obtain ⟨hcalls, hsleeps, herrors⟩ := ih (effect.on host)
    rw [onAll_cons, hcalls, hsleeps, herrors]
    cases effect with
    | print line => exact ⟨rfl, rfl, rfl⟩
    | report text => simp [on, started?, paused?, reported?, List.filterMap_cons]
    | start call => simp [on, started?, paused?, reported?, List.filterMap_cons]
    | pause delay => simp [on, started?, paused?, reported?, List.filterMap_cons]
    | makeDirectory place =>
      rw [on]
      split <;> exact ⟨rfl, rfl, rfl⟩
    | writeFile place content =>
      rw [on]
      split <;> exact ⟨rfl, rfl, rfl⟩

end Effect

theorem filterMap_intercalate {α β : Type} (f : α → Option β) (separator : List α) (parts : List (List α)) :
    (separator.intercalate parts).filterMap f =
      (separator.filterMap f).intercalate (parts.map (List.filterMap f)) := by
  induction parts with
  | nil => rfl
  | cons part parts ih =>
    cases parts with
    | nil => simp
    | cons next parts =>
      rw [List.intercalate_cons_cons, List.filterMap_append, List.filterMap_append, ih, List.map_cons,
        List.map_cons, List.map_cons, List.intercalate_cons_cons]

theorem nil_intercalate {α : Type} (parts : List (List α)) : [].intercalate parts = parts.flatten := by
  induction parts with
  | nil => rfl
  | cons part parts ih =>
    cases parts with
    | nil => simp
    | cons next parts =>
      rw [List.intercalate_cons_cons, ih, List.append_nil]
      exact List.flatten_cons.symm

/-- Between parts that are empty there is one separator less than parts. -/
theorem intercalate_replicate_nil {α : Type} (separator : α) (count : Nat) :
    [separator].intercalate (List.replicate count []) = List.replicate (count - 1) separator := by
  induction count with
  | zero => rfl
  | succ count ih =>
    cases count with
    | zero => rfl
    | succ count =>
      rw [List.replicate_succ, List.replicate_succ, List.intercalate_cons_cons, ← List.replicate_succ, ih]
      rfl

/-! ## How a process ended -/

/-- The process ended with code zero. -/
def ProcessResult.succeeds : ProcessResult → Bool
  | finished code _ _ => code = 0
  | timedOut _ _ => false
  | missing _ => false

namespace Command

open DscAudit.Action

/-- The note that a process took too long. -/
def timeoutNote (command : Command) : String := "command timed out after " ++ command.timeout.text ++ "s"

/-- The result of a command tells how a process of it ended. -/
inductive Tells (command : Command) : ProcessResult → CommandResult → Prop where
  | finished (code : Int) (output errors : String) :
      Tells command (.finished code output errors) ⟨code, output, errors, 0⟩
  /-- A process that was stopped has written something, and the note stands behind it. -/
  | timedOut (output errors : PartialOutput) (noted : String)
      (hnoted : noted.toList =
        Text.trimStart (errors.toText.toList ++ ['\n']) ++ command.timeoutNote.toList) :
      Tells command (.timedOut output errors) ⟨124, output.toText, noted, 0⟩
  | missing (name : Option String) (shown : String) :
      Tells command (.missing name) ⟨127, "", "command not found: " ++ shown, 0⟩

theorem code_resultOf (command : Command) (ending : ProcessResult) :
    (command.resultOf ending).code = 0 ↔ ending.succeeds = true := by
  cases ending <;> simp [resultOf, ProcessResult.succeeds, timeoutCode, missingCode]

/-- The note has no blanks at its ends. -/
theorem exists_timeoutNote (command : Command) :
    ∃ middle, command.timeoutNote.toList = 'c' :: middle ++ ['s'] := by
  unfold timeoutNote
  generalize command.timeout.text = shown
  exact ⟨"ommand timed out after ".toList ++ shown.toList, by simp⟩

/-- The note keeps what is written before it from being trimmed at its end. -/
theorem trim_timeoutNote (command : Command) (front : List Char) :
    Text.trim (front ++ command.timeoutNote.toList) =
      Text.trimStart front ++ command.timeoutNote.toList := by
  obtain ⟨middle, hmiddle⟩ := command.exists_timeoutNote
  have hstart : (front ++ command.timeoutNote.toList).dropWhile Text.isBlank =
      Text.trimStart front ++ command.timeoutNote.toList := by
    have hnote : command.timeoutNote.toList.dropWhile Text.isBlank = command.timeoutNote.toList := by
      rw [hmiddle]
      rfl
    rw [List.dropWhile_append, Text.trimStart]
    split
    · rename_i hempty
      rw [List.isEmpty_iff.mp hempty, hnote]
      rfl
    · rfl
  have hlast : (Text.trimStart front ++ command.timeoutNote.toList).getLast? = some 's' := by
    rw [hmiddle, ← List.append_assoc, List.getLast?_concat]
  have hend := @Text.trimEnd_append _ [] _ hlast rfl (List.forall_mem_nil _)
  rw [List.append_nil] at hend
  rw [Text.trim, Text.trimWhile, hstart]
  exact hend

theorem tells_resultOf (command : Command) (ending : ProcessResult) :
    command.Tells ending (command.resultOf ending) := by
  cases ending with
  | finished code output errors => exact .finished code output errors
  | timedOut output errors =>
    refine .timedOut output errors _ ?_
    have hnoted : (errors.toText ++ "\ncommand timed out after " ++ command.timeout.text ++ "s").toList =
        errors.toText.toList ++ ['\n'] ++ command.timeoutNote.toList := by
      unfold timeoutNote
      generalize command.timeout.text = shown
      simp
    rw [String.toList_ofList, hnoted]
    exact command.trim_timeoutNote _
  | missing name => exact .missing name _

/-! ## The course of the attempts -/

/-- The position of the first result with code zero, counted from one; infinite if there is none. -/
def firstSuccess (results : List ProcessResult) : ℕ∞ :=
  (results.findIdx? ProcessResult.succeeds).elim ⊤ fun index => ↑(index + 1)

/-- Only the first result decides whether the first one succeeds; where there is none, the tool counts as
missing. -/
theorem firstSuccess_eq (results : List ProcessResult) :
    firstSuccess results =
      if (results.headD (.missing none)).succeeds then 1 else firstSuccess results.tail + 1 := by
  cases results with
  | nil => rfl
  | cons result results =>
    rw [firstSuccess, List.findIdx?_cons]
    by_cases hresult : result.succeeds = true
    · simp [hresult]
    · simp only [hresult, Bool.false_eq_true, if_false, List.headD_cons, List.tail_cons, firstSuccess]
      cases results.findIdx? ProcessResult.succeeds with
      | none => rfl
      | some index => simp

/-- What is logged of the end of a process. -/
def logged (command : Command) (settings : Option LogSettings) (now : Moment)
    (attempt : ProcessResult × Nat) : List String :=
  settings.elim [] fun settings =>
    Action.logged settings now (command.event attempt.2 (command.resultOf attempt.1))

/-- What one attempt does, given how its process ends and the number of the attempt. -/
def attemptEffects (command : Command) (settings : Option LogSettings) (now : Moment)
    (attempt : ProcessResult × Nat) : List Effect :=
  .start command.call :: (command.logged settings now attempt).map .report

/-- What happens between two attempts. -/
def pauses (delay : Binary64) : List Effect := if delay.gtInt 0 then [.pause delay] else []

/-- What attempts do one after the other. -/
def course (command : Command) (delay : Binary64) (settings : Option LogSettings) (now : Moment)
    (attempts : List (ProcessResult × Nat)) : List Effect :=
  (pauses delay).intercalate (attempts.map (command.attemptEffects settings now))

theorem exec_attempt (command : Command) (settings : Option LogSettings) (attempt : Nat) (host : Host)
    {α : Type} (next : CommandResult → Action α) :
    (command.start >>= fun result =>
      Action.log? settings (command.event attempt result) >>= fun _ => next result).exec host =
    (next (command.resultOf (host.results.headD (.missing none)))).exec
      (Effect.onAll host
        (command.attemptEffects settings host.now (host.results.headD (.missing none), attempt))) := by
  let result := command.resultOf (host.results.headD (.missing none))
  let started := (Effect.start command.call).on host
  have hstart : command.start.exec host = (.ok result, started) := rfl
  have hlog : (Action.log? settings (command.event attempt result)).exec started =
      (.ok (), Effect.onAll started
        ((command.logged settings host.now (host.results.headD (.missing none), attempt)).map .report)) := by
    cases settings with
    | none => rfl
    | some settings =>
      refine (exec_log settings _ started).trans ?_
      show _ = (_, Effect.onAll started ((Action.logged settings started.now _).map .report))
      unfold Action.logged
      split
      · rfl
      · rw [List.append_nil]
        rfl
  rw [exec_bind_ok hstart, exec_bind_ok hlog]
  rfl

theorem exec_pause_eq (delay : Binary64) (host : Host) :
    (pause delay).exec host = (.ok (), Effect.onAll host (pauses delay)) := by
  unfold pause pauses
  split <;> rfl

/-- An attempt with a pause behind it takes one result and leaves the clock alone. -/
theorem onAll_attempt (command : Command) (delay : Binary64) (settings : Option LogSettings)
    (attempt : ProcessResult × Nat) (host : Host) :
    (Effect.onAll host (command.attemptEffects settings host.now attempt ++ pauses delay)).results =
        host.results.tail ∧
      (Effect.onAll host (command.attemptEffects settings host.now attempt ++ pauses delay)).now =
        host.now := by
  have hreports (texts : List String) (host : Host) :
      (Effect.onAll host (texts.map .report)).results = host.results ∧
        (Effect.onAll host (texts.map .report)).now = host.now := by
    induction texts generalizing host with
    | nil => exact ⟨rfl, rfl⟩
    | cons text texts ih => exact ih _
  have hpauses (host : Host) : (Effect.onAll host (pauses delay)).results = host.results ∧
      (Effect.onAll host (pauses delay)).now = host.now := by
    unfold pauses
    split <;> exact ⟨rfl, rfl⟩
  rw [Effect.onAll_append, (hpauses _).1, (hpauses _).2, attemptEffects, Effect.onAll_cons]
  exact hreports _ _

theorem course_singleton (command : Command) (delay : Binary64) (settings : Option LogSettings)
    (now : Moment) (attempt : ProcessResult × Nat) :
    command.course delay settings now [attempt] = command.attemptEffects settings now attempt :=
  List.intercalate_singleton

theorem course_cons (command : Command) (delay : Binary64) (settings : Option LogSettings) (now : Moment)
    (attempt : ProcessResult × Nat) {attempts : List (ProcessResult × Nat)} (hne : attempts ≠ []) :
    command.course delay settings now (attempt :: attempts) =
      command.attemptEffects settings now attempt ++ pauses delay ++
        command.course delay settings now attempts := by
  obtain ⟨next, attempts, rfl⟩ := List.exists_cons_of_ne_nil hne
  rw [course, List.map_cons, List.map_cons, List.intercalate_cons_cons]
  rfl

/-- The attempts of a command, the first of them with a given number: how many there are, what they do, and
the result of the last one. -/
theorem exec_attempts_eq (command : Command) (delay : Binary64) (settings : Option LogSettings)
    (attempt left : Nat) (host : Host) :
    ∃ (endings : List ProcessResult) (ending : ProcessResult),
      (endings.length : ℕ∞) = min (firstSuccess host.results) (left + 1) ∧
      endings = host.results.takeD endings.length (.missing none) ∧
      endings.getLast? = some ending ∧
      (attempts command delay settings attempt left).exec host =
        (.ok (command.resultOf ending),
          Effect.onAll host (command.course delay settings host.now (endings.zipIdx attempt))) := by
  induction left generalizing attempt host with
  | zero =>
    have hpositive : 1 ≤ firstSuccess host.results := by
      rw [firstSuccess_eq]
      split
      · exact le_rfl
      · exact le_add_self
    refine ⟨[host.results.headD (.missing none)], _, by simpa using hpositive, by simp [List.takeD], rfl, ?_⟩
    unfold attempts
    rw [exec_attempt, List.zipIdx_singleton, course_singleton]
    rfl
  | succ left ih =>
    unfold attempts
    rw [exec_attempt, firstSuccess_eq]
    by_cases hsucceeds : (host.results.headD (.missing none)).succeeds = true
    · refine ⟨[host.results.headD (.missing none)], _, ?_, by simp [List.takeD], rfl, ?_⟩
      · rw [if_pos hsucceeds]
        simp
      dsimp only
      rw [if_pos ((command.code_resultOf _).mpr hsucceeds), List.zipIdx_singleton, course_singleton]
      rfl
    · let first := (host.results.headD (.missing none), attempt)
      let between := Effect.onAll host (command.attemptEffects settings host.now first ++ pauses delay)
      obtain ⟨hresults, hnow⟩ : between.results = host.results.tail ∧ between.now = host.now :=
        onAll_attempt command delay settings first host
      obtain ⟨endings, ending, hlength, htaken, hlast, hexec⟩ := ih (attempt + 1) between
      have hne : endings.zipIdx (attempt + 1) ≠ [] := by
        rw [Ne, List.zipIdx_eq_nil_iff]
        rintro rfl
        cases hlast
      rw [hresults] at hlength htaken
      refine ⟨first.1 :: endings, ending, ?_, ?_, ?_, ?_⟩
      · rw [if_neg hsucceeds, List.length_cons, Nat.cast_add, hlength, Nat.cast_add, min_add_add_right]
        rfl
      · rw [List.length_cons, List.takeD_succ, ← htaken, ← List.headD_eq_head?_getD]
      · rw [List.getLast?_cons, hlast]
        rfl
      · dsimp only
        rw [if_neg (mt (command.code_resultOf _).mp hsucceeds), exec_bind_ok (exec_pause_eq delay _),
          ← Effect.onAll_append]
        refine hexec.trans ?_
        rw [List.zipIdx_cons, course_cons _ _ _ _ _ hne, Effect.onAll_append, hnow]

/-! ## What a run of a command amounts to -/

theorem filterMap_attemptEffects (command : Command) (settings : Option LogSettings) (now : Moment)
    (attempt : ProcessResult × Nat) :
    (command.attemptEffects settings now attempt).filterMap Effect.started? = [command.call] ∧
      (command.attemptEffects settings now attempt).filterMap Effect.paused? = [] ∧
      (command.attemptEffects settings now attempt).filterMap Effect.reported? =
        command.logged settings now attempt := by
  have hreports : ((command.logged settings now attempt).map Effect.report).filterMap Effect.reported? =
      command.logged settings now attempt := by
    rw [List.filterMap_map]
    exact List.filterMap_some
  simp [attemptEffects, List.filterMap_cons, Effect.started?, Effect.paused?, Effect.reported?, hreports,
    List.filterMap_map, Function.comp_def]

theorem filterMap_pauses (delay : Binary64) :
    (pauses delay).filterMap Effect.started? = [] ∧
      (pauses delay).filterMap Effect.paused? = (if delay.gtInt 0 then [delay] else []) ∧
      (pauses delay).filterMap Effect.reported? = [] := by
  unfold pauses
  split <;> exact ⟨rfl, rfl, rfl⟩

/-- The processes, the pauses and the texts in what attempts do. -/
theorem filterMap_course (command : Command) (delay : Binary64) (settings : Option LogSettings)
    (now : Moment) (attempts : List (ProcessResult × Nat)) :
    (command.course delay settings now attempts).filterMap Effect.started? =
        List.replicate attempts.length command.call ∧
      (command.course delay settings now attempts).filterMap Effect.paused? =
        List.replicate (if delay.gtInt 0 then attempts.length - 1 else 0) delay ∧
      (command.course delay settings now attempts).filterMap Effect.reported? =
        attempts.flatMap (command.logged settings now) := by
  obtain ⟨hstarted, hpaused, hreported⟩ := filterMap_pauses delay
  simp only [course, filterMap_intercalate, List.map_map, Function.comp_def, filterMap_attemptEffects,
    hstarted, hpaused, hreported, nil_intercalate]
  refine ⟨?_, ?_, rfl⟩
  · rw [List.map_const', List.flatten_replicate_singleton]
  · rw [List.map_const']
    split
    · exact intercalate_replicate_nil delay _
    · rw [nil_intercalate, List.flatten_replicate_nil]
      rfl

/-- A log that is not quiet has one event for each attempt. -/
theorem logged_of_not_quiet (command : Command) {settings : LogSettings} (hloud : settings.quiet = false)
    (now : Moment) (attempt : ProcessResult × Nat) :
    command.logged (some settings) now attempt =
      [(command.event attempt.2 (command.resultOf attempt.1)).line settings now ++ "\n"] := by
  have hwritten : (command.event attempt.2 (command.resultOf attempt.1)).isWritten settings = true := by
    simp [Event.isWritten, event, hloud]
  show Action.logged settings now _ = _
  unfold Action.logged
  rw [if_pos hwritten]

/-- The number and the code that an event of a command shows. -/
def shownBy (event : Event) : Option Value × Option Value :=
  (Entries.get? "attempt" event.fields, Entries.get? "code" event.fields)

/-- What a command that may be started again so many times does to its host when its processes end like
this, and its result. -/
structure IsRetried (command : Command) (retries : Nat) (delay : Binary64)
    (settings : Option LogSettings) (before after : Host) (endings : List ProcessResult)
    (result : CommandResult) : Prop where
  /-- The number of processes. -/
  started : (endings.length : ℕ∞) = min (firstSuccess before.results) (retries + 1)
  /-- The processes end as the host has it, one after the other. -/
  taken : endings = before.results.takeD endings.length (.missing none)
  tells : ∃ ending, endings.getLast? = some ending ∧ command.Tells ending result
  /-- The attempts come one after the other, with a pause between any two of them. -/
  course : after = Effect.onAll before (command.course delay settings before.now (endings.zipIdx 1))
  calls : after.calls = before.calls ++ List.replicate endings.length command.call
  sleeps : after.sleeps =
    before.sleeps ++ List.replicate (if delay.gtInt 0 then endings.length - 1 else 0) delay
  /-- Each attempt is logged by one event, with its number. -/
  logs : ∀ log, settings = some log → log.quiet = false → ∃ events : List Event,
    after.errors = before.errors ++ events.map (fun event => event.line log before.now ++ "\n") ∧
      events.map shownBy = (endings.zipIdx 1).map fun attempt =>
        (some (.int attempt.2), some (.int (command.resultOf attempt.1).code))

/-- A command with retries is started until a process ends with code zero or no retry is left.  Its result is
that of the last process, the delay passes once between two attempts, and each attempt is logged. -/
theorem run_until_success (command : Command) (retries : Nat) (delay : Binary64)
    (settings : Option LogSettings) (host : Host) :
    ∃ endings result after, (command.run (retries + 1) delay settings).exec host = (.ok result, after) ∧
      command.IsRetried retries delay settings host after endings result := by
  obtain ⟨endings, ending, hlength, htaken, hlast, hexec⟩ :=
    exec_attempts_eq command delay settings 1 retries host
  refine ⟨endings, _, _, hexec, ?_⟩
  obtain ⟨hstarted, hpaused, hreported⟩ :=
    filterMap_course command delay settings host.now (endings.zipIdx 1)
  obtain ⟨hcalls, hsleeps, herrors⟩ :=
    Effect.onAll_lists (command.course delay settings host.now (endings.zipIdx 1)) host
  rw [List.length_zipIdx] at hstarted hpaused
  refine ⟨hlength, htaken, ⟨ending, hlast, command.tells_resultOf ending⟩, rfl, ?_, ?_, ?_⟩
  · rw [hcalls, hstarted]
  · rw [hsleeps, hpaused]
  · rintro log rfl hloud
    refine ⟨(endings.zipIdx 1).map fun attempt =>
      command.event attempt.2 (command.resultOf attempt.1), ?_, ?_⟩
    · have hlogged := funext (logged_of_not_quiet command hloud host.now)
      rw [herrors, hreported, hlogged, List.map_map, List.map_eq_flatMap]
      rfl
    · rw [List.map_map]
      rfl

example : firstSuccess [.finished 1 "" "", .missing none, .finished 0 "" "", .finished 0 "" ""] = 3 := rfl

end Command

end DscAudit

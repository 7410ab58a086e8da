import DscAudit.Proofs.Host.Primitive

/-!
# Attempts

The processes that a step starts take the results that the host has for them, one after the other.
A command that is started again after a failure counts by its last attempt.  A step fails closed if
a failure of a last attempt never goes unnoticed: the step then fails itself, or its value shows it.
-/

namespace DscAudit

/-- A process that was started, and what came of it. -/
abbrev Attempt := ProcessCall × ProcessResult

namespace Attempt

/-- The attempts of processes that are started one after the other with the given results at hand.
Without a result the tool counts as missing. -/
def ofCalls : List ProcessResult → List ProcessCall → List Attempt
  | _, [] => []
  | results, call :: calls => (call, results.headD (.missing none)) :: ofCalls results.tail calls

theorem ofCalls_append (results : List ProcessResult) (first second : List ProcessCall) :
    ofCalls results (first ++ second) =
      ofCalls results first ++ ofCalls (results.drop first.length) second := by
  induction first generalizing results with
  | nil => rfl
  | cons call first ih =>
    simp only [List.cons_append, ofCalls, ih, List.length_cons, List.drop_tail]

theorem map_ofCalls (results : List ProcessResult) (calls : List ProcessCall) :
    (ofCalls results calls).map Prod.fst = calls := by
  induction calls generalizing results with
  | nil => rfl
  | cons call calls ih => simp only [ofCalls, List.map_cons, ih]

theorem length_ofCalls (results : List ProcessResult) (calls : List ProcessCall) :
    (ofCalls results calls).length = calls.length := by
  simpa using congrArg List.length (map_ofCalls results calls)

/-- The attempts that no attempt with the same words follows at once. -/
def last : List Attempt → List Attempt
  | [] => []
  | attempt :: attempts =>
    if attempts.head?.any fun next => next.1.command == attempt.1.command then last attempts
    else attempt :: last attempts

theorem mem_last_append {attempt : Attempt} {first second : List Attempt}
    (hmem : attempt ∈ last (first ++ second)) : attempt ∈ last first ∨ attempt ∈ last second := by
  induction first with
  | nil => exact .inr hmem
  | cons head first ih =>
    rw [List.cons_append, last] at hmem
    by_cases hagain : (first.head?.any fun next => next.1.command == head.1.command) = true
    · have hnext : ((first ++ second).head?.any fun next =>
          next.1.command == head.1.command) = true := by
        cases first with
        | nil => simp at hagain
        | cons next first => exact hagain
      rw [if_pos hnext] at hmem
      rw [last, if_pos hagain]
      exact ih hmem
    · rw [last, if_neg hagain]
      split at hmem
      · exact (ih hmem).imp_left (List.mem_cons_of_mem _)
      · rcases List.mem_cons.mp hmem with rfl | hrest
        · exact .inl List.mem_cons_self
        · exact (ih hrest).imp_left (List.mem_cons_of_mem _)

/-- Of attempts of one command only the last one counts. -/
theorem last_ofCalls_replicate (results : List ProcessResult) (call : ProcessCall) (times : Nat) :
    last (ofCalls results (List.replicate (times + 1) call)) =
      [(call, (results.drop times).headD (.missing none))] := by
  induction times generalizing results with
  | zero => simp [ofCalls, last]
  | succ times ih =>
    have hnext : ((ofCalls results.tail (List.replicate (times + 1) call)).head?.any fun next =>
        next.1.command == call.command) = true := by
      simp [List.replicate_succ, ofCalls]
    rw [List.replicate_succ, ofCalls, last, if_pos hnext, ih, List.drop_tail]

end Attempt

/-- The attempts between two hosts. -/
def Host.attempts (before after : Host) : List Attempt :=
  Attempt.ofCalls before.results (after.calls.drop before.calls.length)

/-- The second host is the first one after some calls, which took its results. -/
structure Host.AfterCalls (before : Host) (calls : List ProcessCall) (after : Host) : Prop where
  calls_eq : after.calls = before.calls ++ calls
  results_eq : after.results = before.results.drop calls.length

namespace Host.AfterCalls

variable {before between after : Host} {first second : List ProcessCall}

theorem refl (host : Host) : host.AfterCalls [] host := ⟨by simp, rfl⟩

theorem trans (hfirst : before.AfterCalls first between) (hsecond : between.AfterCalls second after) :
    before.AfterCalls (first ++ second) after where
  calls_eq := by rw [hsecond.calls_eq, hfirst.calls_eq, List.append_assoc]
  results_eq := by rw [hsecond.results_eq, hfirst.results_eq, List.drop_drop, List.length_append]

/-- Reading starts no process. -/
theorem bind_reads {α β : Type} {step : Action α} {next : α → Action β}
    (hstep : before.AfterCalls first (step.exec before).2) (hnext : ∀ a, (next a).Reads) :
    before.AfterCalls first ((step >>= next).exec before).2 := by
  rcases hrun : step.exec before with ⟨failure | a, between⟩
  · rw [Action.exec_bind_error hrun]
    rwa [hrun] at hstep
  · rw [Action.exec_bind_ok hrun, (hnext a).exec_snd]
    rwa [hrun] at hstep

theorem attempts_eq (hafter : before.AfterCalls first after) :
    before.attempts after = Attempt.ofCalls before.results first := by
  rw [attempts, hafter.calls_eq, List.drop_left]

end Host.AfterCalls

/-- From the first host to the second one these processes were started, each took a result, and lines
were logged.  Nothing else changed. -/
def Host.Starts (before : Host) (calls : List ProcessCall) (after : Host) : Prop :=
  ∃ logs, after =
    { before with
      calls := before.calls ++ calls
      results := before.results.drop calls.length
      errors := before.errors ++ logs }

namespace Host.Starts

variable {before between after : Host} {first second : List ProcessCall}

theorem refl (host : Host) : host.Starts [] host := ⟨[], by simp⟩

theorem trans (hfirst : before.Starts first between) (hsecond : between.Starts second after) :
    before.Starts (first ++ second) after := by
  obtain ⟨logs, rfl⟩ := hfirst
  obtain ⟨logs', rfl⟩ := hsecond
  exact ⟨logs ++ logs', by simp [List.drop_drop]⟩

theorem results_eq (hstarts : before.Starts [] after) : after.results = before.results := by
  obtain ⟨logs, rfl⟩ := hstarts
  rfl

theorem afterCalls (hstarts : before.Starts first after) : before.AfterCalls first after := by
  obtain ⟨logs, rfl⟩ := hstarts
  exact ⟨rfl, rfl⟩

end Host.Starts

namespace Effect

/-- The effect starts no process. -/
def IsLocal : Effect → Prop
  | start _ => False
  | _ => True

theorem afterCalls_on {effect : Effect} (heffect : effect.IsLocal) (host : Host) :
    host.AfterCalls [] (effect.on host) := by
  cases effect with
  | start call => exact heffect.elim
  | makeDirectory place =>
    simp only [on]
    split <;> exact ⟨by simp, rfl⟩
  | writeFile place content =>
    simp only [on]
    split <;> exact ⟨by simp, rfl⟩
  | print line => exact ⟨by simp [on], rfl⟩
  | report text => exact ⟨by simp [on], rfl⟩
  | pause delay => exact ⟨by simp [on], rfl⟩

theorem afterCalls_onAll {effects : List Effect} (heffects : ∀ effect ∈ effects, effect.IsLocal)
    (host : Host) : host.AfterCalls [] (onAll host effects) := by
  induction effects generalizing host with
  | nil => exact .refl host
  | cons effect effects ih =>
    have hfirst := afterCalls_on (heffects effect (by simp)) host
    exact hfirst.trans (ih (fun other hother => heffects other (by simp [hother])) _)

end Effect

namespace Action

variable {α β : Type} {fails : Attempt → Prop} {shows : α → Prop}

/-- If a last attempt of the step fails, then the step fails or its value shows it. -/
def FailsClosed (fails : Attempt → Prop) (shows : α → Prop) (step : Action α) : Prop :=
  ∀ host, ∃ calls, host.AfterCalls calls (step.exec host).2 ∧
    ((∃ attempt ∈ Attempt.last (Attempt.ofCalls host.results calls), fails attempt) →
      ∀ a, (step.exec host).1 = .ok a → shows a)

/-- A failure of a last attempt makes the step fail. -/
def Strict (fails : Attempt → Prop) (step : Action α) : Prop := FailsClosed fails (fun _ => False) step

namespace FailsClosed

theorem of_local {step : Action α} (hstep : Does Effect.IsLocal step) :
    FailsClosed fails shows step := by
  intro host
  obtain ⟨effects, heffects, hafter⟩ := hstep host
  refine ⟨[], hafter ▸ Effect.afterCalls_onAll heffects host, ?_⟩
  rintro ⟨attempt, hmem, -⟩
  cases hmem

theorem of_reads {step : Action α} (hstep : Reads step) : FailsClosed fails shows step :=
  of_local hstep.does

/-- A sequence whose second part keeps what the value of the first one shows. -/
theorem bind {between : α → Prop} {shows : β → Prop} {step : Action α} {next : α → Action β}
    (hstep : FailsClosed fails between step) (hnext : ∀ a, FailsClosed fails shows (next a))
    (hkeeps : ∀ a, between a → Gives shows (next a)) : FailsClosed fails shows (step >>= next) := by
  intro host
  obtain ⟨first, hfirst, hshows⟩ := hstep host
  rcases hend : step.exec host with ⟨failure | a, middle⟩
  · rw [exec_bind_error hend]
    rw [hend] at hfirst
    exact ⟨first, hfirst, fun _ b hb => nomatch hb⟩
  · rw [exec_bind_ok hend]
    rw [hend] at hfirst hshows
    obtain ⟨second, hsecond, hshows'⟩ := hnext a middle
    refine ⟨first ++ second, hfirst.trans hsecond, ?_⟩
    rintro ⟨attempt, hmem, hfails⟩ b hb
    rw [Attempt.ofCalls_append] at hmem
    -- what failed in the first part shows in its value, and the second part keeps that
    rcases Attempt.mem_last_append hmem with hmem | hmem
    · have hbetween := hshows ⟨attempt, hmem, hfails⟩ a rfl
      exact hkeeps a hbetween middle b ((next a).exec middle).2 (Prod.ext hb rfl)
    · rw [← hfirst.results_eq] at hmem
      exact hshows' ⟨attempt, hmem, hfails⟩ b hb

theorem bind_strict {shows : β → Prop} {step : Action α} {next : α → Action β}
    (hstep : Strict fails step) (hnext : ∀ a, FailsClosed fails shows (next a)) :
    FailsClosed fails shows (step >>= next) := bind hstep hnext fun _ hfalse => hfalse.elim

end FailsClosed

theorem Strict.compositional (fails : Attempt → Prop) :
    Compositional (m := Action) fun _ => Strict fails where
  pure a := .of_reads (.pure a)
  bind := .bind_strict

end Action

/-! ## Commands -/

namespace Command

open DscAudit.Action

theorem exec_log? (settings : Option LogSettings) (event : Event) (host : Host) :
    ∃ after, (Action.log? settings event).exec host = (.ok (), after) ∧ host.Starts [] after := by
  cases settings with
  | none => exact ⟨host, rfl, .refl host⟩
  | some settings =>
    show ∃ after, (Action.log settings event).exec host = _ ∧ _
    unfold Action.log
    split
    · exact ⟨_, rfl, [event.line settings host.now ++ "\n"], by simp⟩
    · exact ⟨host, rfl, .refl host⟩

theorem exec_pause (delay : Decimal.Binary64) (host : Host) :
    ∃ after, (pause delay).exec host = (.ok (), after) ∧ host.AfterCalls [] after := by
  unfold pause
  split
  · exact ⟨_, rfl, by simp, rfl⟩
  · exact ⟨host, rfl, .refl host⟩

/-- The start of a command takes one result from the host. -/
theorem exec_start (command : Command) (host : Host) :
    ∃ after, command.start.exec host =
        (.ok (command.resultOf (host.results.headD (.missing none))), after) ∧
      host.Starts [command.call] after :=
  ⟨(Effect.start command.call).on host, rfl, [], by simp [Effect.on]⟩

/-- An attempt after which none is left. -/
theorem exec_lastAttempt (command : Command) (delay : Decimal.Binary64)
    (settings : Option LogSettings) (attempt : Nat) (host : Host) :
    ∃ after,
      (attempts command delay settings attempt 0).exec host =
        (.ok (command.resultOf (host.results.headD (.missing none))), after) ∧
      host.Starts [command.call] after := by
  obtain ⟨started, hstart, hstarted⟩ := exec_start command host
  obtain ⟨after, hlog, hafter⟩ := exec_log? settings
    (command.event attempt (command.resultOf (host.results.headD (.missing none)))) started
  refine ⟨after, ?_, hstarted.trans hafter⟩
  unfold attempts
  rw [exec_bind_ok hstart, exec_bind_ok hlog]
  rfl

/-- How attempts of a command end: it is started at least once, and its result is that of the last
attempt. -/
theorem exec_attempts (command : Command) (delay : Decimal.Binary64) (settings : Option LogSettings)
    (attempt left : Nat) (host : Host) :
    ∃ times after,
      (attempts command delay settings attempt left).exec host =
        (.ok (command.resultOf ((host.results.drop times).headD (.missing none))), after) ∧
      host.AfterCalls (List.replicate (times + 1) command.call) after := by
  -- each attempt takes one result from the host; the event and the pause between attempts take none
  induction left generalizing attempt host with
  | zero =>
    obtain ⟨after, hexec, hafter⟩ := exec_lastAttempt command delay settings attempt host
    exact ⟨0, after, hexec, hafter.afterCalls⟩
  | succ left ih =>
    unfold attempts
    obtain ⟨started, hstart, hstarted⟩ := exec_start command host
    obtain ⟨between, hlog, hbetween⟩ := exec_log? settings
      (command.event attempt (command.resultOf (host.results.headD (.missing none)))) started
    have hfirst := (hstarted.trans hbetween).afterCalls
    rw [exec_bind_ok hstart, exec_bind_ok hlog]
    dsimp only
    split
    · exact ⟨0, between, rfl, hfirst⟩
    · obtain ⟨paused, hpause, hpaused⟩ := exec_pause delay between
      obtain ⟨times, after, hrest, hafter⟩ := ih (attempt + 1) paused
      have hwaited := hfirst.trans hpaused
      refine ⟨times + 1, after, ?_, hwaited.trans hafter⟩
      rw [exec_bind_ok hpause, hrest, hwaited.results_eq, List.drop_drop]
      simp only [List.length_append, List.length_cons, List.length_nil, Nat.add_comm times]

theorem exec_run (command : Command) (left : Nat) (delay : Decimal.Binary64)
    (settings : Option LogSettings) (host : Host) :
    ∃ calls ending after,
      (command.run (left + 1) delay settings).exec host = (.ok (command.resultOf ending), after) ∧
      host.AfterCalls calls after ∧
      Attempt.last (Attempt.ofCalls host.results calls) = [(command.call, ending)] := by
  obtain ⟨times, after, hexec, hafter⟩ := exec_attempts command delay settings 1 left host
  exact ⟨_, _, after, hexec, hafter, Attempt.last_ofCalls_replicate _ _ times⟩

/-- A command that runs once starts one process and does nothing else. -/
theorem exec_runOnce (command : Command) (settings : Option LogSettings) (host : Host) :
    ∃ after,
      (command.runOnce settings).exec host =
        (.ok (command.resultOf (host.results.headD (.missing none))), after) ∧
      host.Starts [command.call] after :=
  exec_lastAttempt command (.finite false 0) settings 1 host

/-- A command whose failed last attempt leads to a value that shows it. -/
theorem failsClosed_run {fails : Attempt → Prop} {shows : CommandResult → Prop} (command : Command)
    (left : Nat) (delay : Decimal.Binary64) (settings : Option LogSettings)
    (hshows : ∀ ending, fails (command.call, ending) → shows (command.resultOf ending)) :
    FailsClosed fails shows (command.run (left + 1) delay settings) := by
  intro host
  obtain ⟨calls, ending, after, hexec, hafter, hlast⟩ := exec_run command left delay settings host
  rw [hexec]
  refine ⟨calls, hafter, ?_⟩
  rintro ⟨attempt, hmem, hfails⟩ result hresult
  rw [hlast, List.mem_singleton] at hmem
  subst hmem
  cases hresult
  exact hshows ending hfails

end Command

end DscAudit

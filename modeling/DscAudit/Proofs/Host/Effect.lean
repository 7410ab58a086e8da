import DscAudit.Host.Command

/-!
# What actions do to the host

Nothing of what the program does to its host is hidden in the host's fields: an action prints lines,
writes to the stream for errors, starts processes, lets time pass, makes directories and writes files,
one after the other.  `Does allowed` says of an action that everything it does is allowed, whatever
host it runs on and however it ends.  The property goes through sequences, choices and loops, so that
it is proved once for each primitive and then follows the text of the program.
-/

namespace DscAudit

open Decimal (Binary64)
open Text (Octets)

/-- A host with files, and nothing else that could be found. -/
def Host.holding (volume : Volume) (directory : Path) : Host where
  volume := volume
  directory := directory
  environment := []
  tools := []
  results := []
  calls := []
  sleeps := []
  now := ⟨1970, 1, 1, 0, 0, 0⟩
  milliseconds := 0
  platform := ""
  output := []
  errors := []

namespace Action

variable {α β : Type}

/-- How an action ends on a host, and the host that it leaves. -/
def exec (step : Action α) (host : Host) : Except Failure α × Host := (ExceptT.run step).run host

@[simp] theorem exec_pure (a : α) (host : Host) : (pure a : Action α).exec host = (.ok a, host) := rfl

@[simp] theorem exec_throw (failure : Failure) (host : Host) :
    (throw failure : Action α).exec host = (.error failure, host) := rfl

@[simp] theorem exec_get (host : Host) : (get : Action Host).exec host = (.ok host, host) := rfl

@[simp] theorem exec_set (new host : Host) : (set new : Action Unit).exec host = (.ok (), new) := rfl

@[simp] theorem exec_modify (change : Host → Host) (host : Host) :
    (modify change : Action Unit).exec host = (.ok (), change host) := rfl

theorem exec_bind (step : Action α) (next : α → Action β) (host : Host) :
    (step >>= next).exec host =
      match step.exec host with
      | (.ok a, between) => (next a).exec between
      | (.error failure, between) => (.error failure, between) := by
  simp only [exec, ExceptT.run_bind, StateT.run_bind]
  rcases (ExceptT.run step).run host with ⟨failure | a, between⟩ <;> rfl

theorem exec_bind_ok {step : Action α} {host between : Host} {a : α}
    (hstep : step.exec host = (.ok a, between)) (next : α → Action β) :
    (step >>= next).exec host = (next a).exec between := by
  rw [exec_bind, hstep]

theorem exec_bind_error {step : Action α} {host between : Host} {failure : Failure}
    (hstep : step.exec host = (.error failure, between)) (next : α → Action β) :
    (step >>= next).exec host = (.error failure, between) := by
  rw [exec_bind, hstep]

/-- A sequence that ends well has passed its first part. -/
theorem exec_bind_eq_ok {step : Action α} {next : α → Action β} {host after : Host} {b : β}
    (hend : (step >>= next).exec host = (.ok b, after)) :
    ∃ a between, step.exec host = (.ok a, between) ∧ (next a).exec between = (.ok b, after) := by
  rcases hstep : step.exec host with ⟨failure | a, between⟩
  · rw [exec_bind_error hstep] at hend
    cases hend
  · rw [exec_bind_ok hstep] at hend
    exact ⟨a, between, rfl, hend⟩

@[simp] theorem exec_get_bind (next : Host → Action β) (host : Host) :
    (get >>= next).exec host = (next host).exec host := rfl

theorem exec_tryCatch (step : Action α) (handler : Failure → Action α) (host : Host) :
    (tryCatch step handler).exec host =
      match step.exec host with
      | (.ok a, between) => (.ok a, between)
      | (.error failure, between) => (handler failure).exec between := by
  simp only [exec, ExceptT.run_tryCatch, StateT.run_bind]
  rcases (ExceptT.run step).run host with ⟨failure | a, between⟩ <;> rfl

end Action

/-! ## Effects -/

/-- One thing that an action does to its host. -/
inductive Effect where
  | print (line : String)
  | report (text : String)
  | start (call : ProcessCall)
  | pause (delay : Binary64)
  | makeDirectory (place : Place)
  | writeFile (place : Place) (content : Octets)

namespace Effect

/-- The host after an effect.  A directory is made only where nothing is, and a file is written only
where no directory is. -/
def on (host : Host) : Effect → Host
  | print line => { host with output := host.output ++ [line ++ "\n"] }
  | report text => { host with errors := host.errors ++ [text] }
  | start call => { host with calls := host.calls ++ [call], results := host.results.tail }
  | pause delay => { host with sleeps := host.sleeps ++ [delay] }
  | makeDirectory place =>
    if (host.volume.find? place).isSome then host
    else { host with volume := host.volume.put place .directory }
  | writeFile place content =>
    if host.volume.find? place = some .directory then host
    else { host with volume := host.volume.put place (.file content) }

def onAll (host : Host) (effects : List Effect) : Host := effects.foldl on host

@[simp] theorem onAll_nil (host : Host) : onAll host [] = host := rfl

@[simp] theorem onAll_cons (host : Host) (effect : Effect) (effects : List Effect) :
    onAll host (effect :: effects) = onAll (effect.on host) effects := rfl

theorem onAll_append (host : Host) (first second : List Effect) :
    onAll host (first ++ second) = onAll (onAll host first) second := by
  simp only [onAll, List.foldl_append]

end Effect

/-! ## Properties that go through sequences -/

/-- A property of steps that a step without effect has, and that a sequence has whose parts have it. -/
structure Compositional {m : Type → Type} [Monad m] (P : ∀ α : Type, m α → Prop) : Prop where
  pure : ∀ {α : Type} (a : α), P α (pure a)
  bind : ∀ {α β : Type} {step : m α} {next : α → m β},
    P α step → (∀ a, P β (next a)) → P β (step >>= next)

namespace Compositional

variable {m : Type → Type} [Monad m] {P : ∀ α : Type, m α → Prop} {α β : Type}

theorem map [LawfulMonad m] (hP : Compositional P) {step : m α} (hstep : P α step) (f : α → β) :
    P β (f <$> step) := by
  rw [← bind_pure_comp]
  exact hP.bind hstep fun a => hP.pure (f a)

theorem mapM [LawfulMonad m] (hP : Compositional P) {f : α → m β} {items : List α}
    (hf : ∀ item ∈ items, P _ (f item)) : P _ (items.mapM f) := by
  induction items with
  | nil => simpa using hP.pure []
  | cons item items ih =>
    rw [List.mapM_cons]
    refine hP.bind (hf item (by simp)) fun b => ?_
    refine hP.bind (ih fun other hother => hf other (by simp [hother])) fun bs => ?_
    exact hP.pure (b :: bs)

theorem filterAuxM (hP : Compositional P) {f : α → m Bool} {items : List α}
    (hf : ∀ item ∈ items, P _ (f item)) (kept : List α) : P _ (items.filterAuxM f kept) := by
  induction items generalizing kept with
  | nil => exact hP.pure kept
  | cons item items ih =>
    rw [List.filterAuxM]
    refine hP.bind (hf item (by simp)) fun b => ?_
    exact ih (fun other hother => hf other (by simp [hother])) _

theorem filterM (hP : Compositional P) {f : α → m Bool} {items : List α}
    (hf : ∀ item ∈ items, P _ (f item)) : P _ (items.filterM f) := by
  unfold List.filterM
  exact hP.bind (hP.filterAuxM hf []) fun kept => hP.pure kept.reverse

theorem forM (hP : Compositional P) {f : α → m PUnit} {items : List α}
    (hf : ∀ item ∈ items, P _ (f item)) : P _ (items.forM f) := by
  induction items with
  | nil => exact hP.pure PUnit.unit
  | cons item items ih =>
    refine hP.bind (hf item (by simp)) fun _ => ?_
    exact ih fun other hother => hf other (by simp [hother])

theorem forIn [LawfulMonad m] (hP : Compositional P) {σ : Type} {f : α → σ → m (ForInStep σ)}
    {items : List α} (hf : ∀ item ∈ items, ∀ s, P _ (f item s)) (s : σ) :
    P _ (ForIn.forIn items s f) := by
  induction items generalizing s with
  | nil => exact hP.pure s
  | cons item items ih =>
    rw [List.forIn_cons]
    refine hP.bind (hf item (by simp) s) fun step => ?_
    cases step with
    | done s => exact hP.pure s
    | yield s => exact ih (fun other hother => hf other (by simp [hother])) s

end Compositional

namespace Action

variable {α β : Type} {allowed : Effect → Prop}

/-! ## What an action does -/

/-- Everything that the action does is allowed. -/
def Does (allowed : Effect → Prop) (step : Action α) : Prop :=
  ∀ host, ∃ effects : List Effect,
    (∀ effect ∈ effects, allowed effect) ∧ (step.exec host).2 = Effect.onAll host effects

/-- The action does nothing to its host. -/
def Reads (step : Action α) : Prop := Does (fun _ => False) step

/-- If the action ends well, then with a value that has the property. -/
def Gives (post : α → Prop) (step : Action α) : Prop :=
  ∀ host a after, step.exec host = (.ok a, after) → post a

namespace Gives

variable {post : β → Prop}

theorem of_pure {a : β} (ha : post a) : Gives post (pure a) := by
  intro host b after hend
  cases hend
  exact ha

theorem of_throw (failure : Failure) : Gives post (throw failure) := by
  intro host b after hend
  cases hend

/-- What the last part of a sequence gives, for the values that the first one gives. -/
theorem bind {between : α → Prop} {step : Action α} {next : α → Action β}
    (hstep : Gives between step) (hnext : ∀ a, between a → Gives post (next a)) :
    Gives post (step >>= next) := by
  intro host b after hend
  rw [exec_bind] at hend
  rcases hfirst : step.exec host with ⟨failure | a, middle⟩
  · rw [hfirst] at hend
    cases hend
  · rw [hfirst] at hend
    exact hnext a (hstep host a middle hfirst) middle b after hend

theorem ite {c : Prop} [Decidable c] {first second : Action β} (hfirst : c → Gives post first)
    (hsecond : ¬ c → Gives post second) : Gives post (if c then first else second) := by
  split
  · exact hfirst ‹_›
  · exact hsecond ‹_›

theorem of_fails {step : Action α} (hstep : Gives (fun _ => False) step) {next : α → Action β} :
    Gives post (step >>= next) := bind hstep fun _ hfalse => hfalse.elim

theorem always (step : Action α) : Gives (fun _ => True) step := fun _ _ _ _ => trivial

end Gives

namespace Does

theorem mono {other : Effect → Prop} {step : Action α} (hstep : Does allowed step)
    (hallowed : ∀ effect, allowed effect → other effect) : Does other step := by
  intro host
  obtain ⟨effects, heffects, hafter⟩ := hstep host
  exact ⟨effects, fun effect heffect => hallowed effect (heffects effect heffect), hafter⟩

theorem pure (a : α) : Does allowed (pure a : Action α) := fun host => ⟨[], by simp, rfl⟩

theorem throw (failure : Failure) : Does allowed (throw failure : Action α) :=
  fun host => ⟨[], by simp, rfl⟩

theorem get : Does allowed (get : Action Host) := fun host => ⟨[], by simp, rfl⟩

theorem modify {change : Host → Host} {effect : Effect} (heffect : allowed effect)
    (hchange : ∀ host, change host = effect.on host) : Does allowed (modify change : Action Unit) :=
  fun host => ⟨[effect], by simpa using heffect, hchange host⟩

/-- A sequence whose second part only counts for the values that the first one gives. -/
theorem bind_gives {post : α → Prop} {step : Action α} {next : α → Action β}
    (hstep : Does allowed step) (hpost : Gives post step)
    (hnext : ∀ a, post a → Does allowed (next a)) : Does allowed (step >>= next) := by
  intro host
  obtain ⟨first, hfirst, hbetween⟩ := hstep host
  rcases hend : step.exec host with ⟨failure | a, between⟩
  · rw [exec_bind_error hend]
    rw [hend] at hbetween
    exact ⟨first, hfirst, hbetween⟩
  · rw [exec_bind_ok hend]
    rw [hend] at hbetween
    obtain ⟨second, hsecond, hafter⟩ := hnext a (hpost host a between hend) between
    refine ⟨first ++ second, fun effect heffect => ?_, ?_⟩
    · rcases List.mem_append.mp heffect with hmem | hmem
      · exact hfirst effect hmem
      · exact hsecond effect hmem
    · rw [Effect.onAll_append, ← hbetween, hafter]

theorem bind {step : Action α} {next : α → Action β} (hstep : Does allowed step)
    (hnext : ∀ a, Does allowed (next a)) : Does allowed (step >>= next) :=
  bind_gives hstep (.always step) fun a _ => hnext a

theorem compositional (allowed : Effect → Prop) :
    Compositional (m := Action) fun _ => Does allowed := ⟨pure, bind⟩

theorem get_bind {next : Host → Action β} (hnext : ∀ host, Does allowed (next host)) :
    Does allowed (MonadState.get >>= next) := bind get hnext

theorem tryCatch {step : Action α} {handler : Failure → Action α} (hstep : Does allowed step)
    (hhandler : ∀ failure, Does allowed (handler failure)) :
    Does allowed (tryCatch step handler) := by
  intro host
  obtain ⟨first, hfirst, hbetween⟩ := hstep host
  rw [exec_tryCatch]
  rcases hend : step.exec host with ⟨failure | a, between⟩
  · rw [hend] at hbetween
    obtain ⟨second, hsecond, hafter⟩ := hhandler failure between
    refine ⟨first ++ second, fun effect heffect => ?_, ?_⟩
    · rcases List.mem_append.mp heffect with hmem | hmem
      · exact hfirst effect hmem
      · exact hsecond effect hmem
    · rw [Effect.onAll_append, ← hbetween, ← hafter]
  · rw [hend] at hbetween
    exact ⟨first, hfirst, hbetween⟩

end Does

theorem Reads.does {step : Action α} (hstep : Reads step) : Does allowed step :=
  hstep.mono fun _ hfalse => hfalse.elim

theorem Reads.exec_snd {step : Action α} (hstep : Reads step) (host : Host) :
    (step.exec host).2 = host := by
  obtain ⟨effects, hnone, hafter⟩ := hstep host
  cases effects with
  | nil => exact hafter
  | cons effect effects => exact (hnone effect (by simp)).elim

theorem Reads.exec_bind_eq_ok {step : Action α} (hstep : Reads step) {next : α → Action β}
    {host after : Host} {b : β} (hend : (step >>= next).exec host = (.ok b, after)) :
    ∃ a, step.exec host = (.ok a, host) ∧ (next a).exec host = (.ok b, after) := by
  obtain ⟨a, between, hfirst, hrest⟩ := Action.exec_bind_eq_ok hend
  obtain rfl : between = host := by rw [← hstep.exec_snd host, hfirst]
  exact ⟨a, hfirst, hrest⟩

end Action

end DscAudit

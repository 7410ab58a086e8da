import DscAudit.Proofs.Check.Work

/-!
# What holds throughout a run

Processes take the results that a host has for them one after the other.  So whatever is true of all of
these results stays true, also where a check breaks off.  What checks share may depend on it, and stays
as it was where one breaks off.
-/

namespace DscAudit

variable {α β : Type} {fair : ProcessResult → Prop}

/-- All processes to come have fair results. -/
def Host.Expects (fair : ProcessResult → Prop) (host : Host) : Prop :=
  ∀ result ∈ host.results, fair result

theorem Host.Expects.on {host : Host} (hhost : host.Expects fair) (effect : Effect) :
    (effect.on host).Expects fair := by
  cases effect with
  | start call => exact fun result hresult => hhost result (List.mem_of_mem_tail hresult)
  | makeDirectory place =>
    simp only [Effect.on]
    split <;> exact hhost
  | writeFile place content =>
    simp only [Effect.on]
    split <;> exact hhost
  | _ => exact hhost

theorem Host.Expects.onAll {host : Host} (hhost : host.Expects fair) (effects : List Effect) :
    (Effect.onAll host effects).Expects fair := by
  induction effects generalizing host with
  | nil => exact hhost
  | cons effect effects ih => exact ih (hhost.on effect)

namespace Action

/-- The results to come stay fair, and if the step ends well, then with a value that has the
property. -/
def Maintains (fair : ProcessResult → Prop) (post : α → Prop) (step : Action α) : Prop :=
  ∀ host, host.Expects fair →
    (step.exec host).2.Expects fair ∧ ∀ a, (step.exec host).1 = .ok a → post a

namespace Maintains

variable {post : β → Prop} {allowed : Effect → Prop}

theorem of_pure {b : β} (hb : post b) : Maintains fair post (pure b) := by
  intro host hhost
  constructor
  · exact hhost
  · rintro a ⟨⟩
    exact hb

theorem bind {between : α → Prop} {step : Action α} {next : α → Action β}
    (hstep : Maintains fair between step) (hnext : ∀ a, between a → Maintains fair post (next a)) :
    Maintains fair post (step >>= next) := by
  intro host hhost
  obtain ⟨hmiddle, hbetween⟩ := hstep host hhost
  rcases hend : step.exec host with ⟨failure | a, middle⟩
  · rw [exec_bind_error hend]
    rw [hend] at hmiddle
    exact ⟨hmiddle, nofun⟩
  · rw [exec_bind_ok hend]
    rw [hend] at hmiddle hbetween
    exact hnext a (hbetween a rfl) middle hmiddle

/-- Whatever an action does, it takes no results but those of its processes. -/
theorem of_does {step : Action β} (hdoes : Does allowed step) (hgives : Gives post step) :
    Maintains fair post step := by
  intro host hhost
  obtain ⟨effects, -, hafter⟩ := hdoes host
  constructor
  · rw [hafter]
    exact hhost.onAll effects
  · intro a hend
    exact hgives host a _ (Prod.ext hend rfl)

theorem of_reads {step : Action β} (hreads : Reads step) (hgives : Gives post step) :
    Maintains fair post step := of_does hreads hgives

theorem any {step : Action β} (hdoes : Does allowed step) : Maintains fair (fun _ => True) step :=
  of_does hdoes (.always step)

theorem get : Maintains fair (fun _ => True) (get : Action Host) := of_reads .get (.always _)

theorem mono {other : β → Prop} {step : Action β} (hstep : Maintains fair post step)
    (hpost : ∀ b, post b → other b) : Maintains fair other step :=
  fun host hhost => ⟨(hstep host hhost).1, fun b hend => hpost b ((hstep host hhost).2 b hend)⟩

end Maintains

end Action

namespace Checking

/-- The same of a step of a check, which also keeps a property of what is shared. -/
def Maintains (fair : ProcessResult → Prop) (kept : Findings → Prop) (post : α → Prop)
    (step : Checking α) : Prop :=
  ∀ known, kept known →
    Action.Maintains fair (fun found => post found.1 ∧ kept found.2) (step.run known)

namespace Maintains

variable {kept : Findings → Prop} {post : β → Prop}

theorem of_pure {b : β} (hb : post b) : Maintains fair kept post (pure b) :=
  fun _ hknown => .of_pure ⟨hb, hknown⟩

theorem bind {between : α → Prop} {step : Checking α} {next : α → Checking β}
    (hstep : Maintains fair kept between step)
    (hnext : ∀ a, between a → Maintains fair kept post (next a)) :
    Maintains fair kept post (step >>= next) :=
  fun known hknown => (hstep known hknown).bind fun found hfound => hnext found.1 hfound.1 found.2 hfound.2

theorem get : Maintains fair kept kept (get : Checking Findings) :=
  fun _ hknown => .of_pure ⟨hknown, hknown⟩

theorem set {known : Findings} (hknown : kept known) :
    Maintains fair kept (fun _ => True) (set known : Checking PUnit) :=
  fun _ _ => .of_pure ⟨trivial, hknown⟩

theorem lift {step : Action β} (hstep : Action.Maintains fair post step) :
    Maintains fair kept post (liftM step : Checking β) :=
  fun _ hknown => hstep.bind fun _ hb => .of_pure ⟨hb, hknown⟩

/-- What is read does not matter. -/
theorem bind_reads {step : Action α} {next : α → Checking β} (hreads : Action.Reads step)
    (hnext : ∀ a, Maintains fair kept post (next a)) :
    Maintains fair kept post ((liftM step : Checking α) >>= next) :=
  bind (lift (.any hreads)) fun a _ => hnext a

theorem ite {c : Prop} [Decidable c] {first second : Checking β}
    (hfirst : Maintains fair kept post first) (hsecond : Maintains fair kept post second) :
    Maintains fair kept post (if c then first else second) := by
  split
  · exact hfirst
  · exact hsecond

theorem mono {other : β → Prop} {step : Checking β} (hstep : Maintains fair kept post step)
    (hpost : ∀ b, post b → other b) : Maintains fair kept other step :=
  fun known hknown => (hstep known hknown).mono fun found hfound => ⟨hpost found.1 hfound.1, hfound.2⟩

theorem mapM {f : α → Checking β} {items : List α}
    (hf : ∀ item ∈ items, Maintains fair kept post (f item)) :
    Maintains fair kept (fun results => ∀ result ∈ results, post result) (items.mapM f) := by
  induction items with
  | nil => exact of_pure nofun
  | cons item items ih =>
    rw [List.mapM_cons]
    apply bind (hf item List.mem_cons_self)
    intro b hb
    apply bind (ih fun other hother => hf other (List.mem_cons_of_mem _ hother))
    intro bs hbs
    exact of_pure (List.forall_mem_cons.mpr ⟨hb, hbs⟩)

theorem compositional :
    Compositional (m := Checking) fun _ => Maintains fair kept (fun _ => True) where
  pure _ := of_pure trivial
  bind hstep hnext := bind hstep fun a _ => hnext a

end Maintains

end Checking

namespace Check

open Checking

variable {kept : Findings → Prop} {subject : Subject} {optIn : OptIn}

theorem maintains_attempt {post : α → Prop} {step : Checking α}
    (hstep : Maintains fair kept post step) :
    Maintains fair kept (fun ending => ∀ a, ending = .ok a → post a) (attempt step) := by
  intro known hknown host hhost
  obtain ⟨hafter, hpost⟩ := hstep known hknown host hhost
  rw [exec_attempt]
  rcases hend : (step.run known).exec host with ⟨failure | ⟨a, known'⟩, after⟩
  · rw [hend] at hafter
    refine ⟨hafter, ?_⟩
    rintro found ⟨⟩
    exact ⟨nofun, hknown⟩
  · rw [hend] at hafter hpost
    obtain ⟨ha, hknown'⟩ := hpost _ rfl
    refine ⟨hafter, ?_⟩
    rintro found ⟨⟩
    refine ⟨?_, hknown'⟩
    rintro b ⟨⟩
    exact ha

/-- What holds of the result of a check if its outcome has a property, and of that of a check that
breaks off. -/
theorem maintains_runOne {check : Check} {post : Outcome → Prop} {shown : Result → Prop}
    (hcheck : Maintains fair kept post (check.run subject))
    (hresult : ∀ optedIn milliseconds outcome, post outcome →
      shown (resultOf check optedIn milliseconds outcome))
    (hbroken : ∀ optedIn milliseconds failure, shown (brokenResult check optedIn milliseconds failure)) :
    Maintains fair kept shown (runOne subject optIn check) := by
  unfold runOne
  refine .bind_reads .get fun started => .bind (maintains_attempt hcheck) fun ending hending => ?_
  refine .bind_reads .get fun finished => ?_
  cases ending with
  | error failure => exact .of_pure (hbroken _ _ _)
  | ok outcome => exact .of_pure (hresult _ _ _ (hending outcome rfl))

theorem maintains_runAll {shown : Result → Prop} (failFast : Bool) {checks : List Check}
    (hchecks : ∀ check ∈ checks, Maintains fair kept shown (runOne subject optIn check)) :
    Maintains fair kept (fun results => ∀ result ∈ results, shown result)
      (runAll subject optIn failFast checks) := by
  have hlog (event : Event) :
      Maintains fair kept (fun _ => True) (liftM (Action.log? subject.log event) : Checking Unit) := by
    have hdoes : Action.Does (fun _ => True) (Action.log? subject.log event) :=
      Action.does_log? _ _ fun _ => trivial
    exact .lift (.any hdoes)
  induction checks with
  | nil => exact .of_pure nofun
  | cons check checks ih =>
    unfold runAll
    apply Maintains.bind (hlog _)
    intro _ _
    apply Maintains.bind (hchecks check List.mem_cons_self)
    intro result hresult
    apply Maintains.bind (hlog _)
    intro _ _
    apply Maintains.ite
    · exact .of_pure (List.forall_mem_singleton.mpr hresult)
    · apply Maintains.bind (ih fun other hother => hchecks other (List.mem_cons_of_mem check hother))
      intro results hresults
      exact .of_pure (List.forall_mem_cons.mpr ⟨hresult, hresults⟩)

theorem maintains_runChecks {shown : Result → Prop} (failFast : Bool) {checks : List Check}
    (hnone : kept Findings.none)
    (hchecks : ∀ check ∈ checks, Maintains fair kept shown (runOne subject optIn check)) :
    Action.Maintains fair (fun summary => ∀ result ∈ summary.results, shown result)
      (runChecks subject checks optIn failFast) := by
  unfold runChecks
  apply Action.Maintains.bind Action.Maintains.get
  intro started _
  apply Action.Maintains.bind (maintains_runAll failFast hchecks Findings.none hnone)
  intro found hfound
  apply Action.Maintains.bind Action.Maintains.get
  intro finished _
  exact .of_pure hfound.1

end Check

end DscAudit

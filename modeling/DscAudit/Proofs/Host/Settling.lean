import DscAudit.Check.Basic
import DscAudit.Proofs.Host.Effect
import DscAudit.Run.Context
import Mathlib.Data.List.Basic

/-!
# Steps that end, or break off for a reason

Some steps change nothing, and whether they break off depends on the host alone.  What makes a sequence
of such steps break off is what makes one of them break off, and it ends with what they end with
otherwise.
-/

namespace DscAudit

open DscAudit.Action

/-- A property that says of a step what makes it break off and with what value it ends otherwise, and
that goes through sequences. -/
structure Settling {m : Type → Type} [Monad m] (P : ∀ α : Type, Prop → m α → α → Prop) : Prop where
  pure : ∀ {α : Type} (a : α), P α False (pure a) a
  bind : ∀ {α β : Type} {reason reason' : Prop} {step : m α} {next : α → m β} {a : α} {b : β},
    P α reason step a → (¬ reason → P β reason' (next a) b) →
      P β (reason ∨ reason') (step >>= next) b

namespace Settling

variable {m : Type → Type} [Monad m] {P : ∀ α : Type, Prop → m α → α → Prop} {α β : Type}

theorem map (hP : Settling P) {reason : Prop} {step : m α} {a : α} {next : α → m β} {b : β}
    (hstep : P α reason step a) (hnext : next a = Pure.pure b) : P β reason (step >>= next) b := by
  have hboth : P β (reason ∨ False) (step >>= next) b :=
    hP.bind hstep fun _ => hnext ▸ hP.pure b
  rwa [or_false] at hboth

theorem mapM [LawfulMonad m] (hP : Settling P) {step : α → m β} {value : α → β}
    {reason : α → Prop} {items : List α}
    (hstep : ∀ item ∈ items, P β (reason item) (step item) (value item)) :
    P _ (∃ item ∈ items, reason item) (items.mapM step) (items.map value) := by
  induction items with
  | nil => simpa using hP.pure []
  | cons item items ih =>
    have hrest := ih fun other hother => hstep other (List.mem_cons_of_mem _ hother)
    rw [List.mapM_cons]
    simp only [List.exists_mem_cons_iff]
    exact hP.bind (hstep item List.mem_cons_self) fun _ => hP.map hrest rfl

theorem filterAuxM (hP : Settling P) {ask : α → m Bool} {answer : α → Bool} {reason : α → Prop}
    {items : List α} (hask : ∀ item ∈ items, P _ (reason item) (ask item) (answer item))
    (kept : List α) :
    P _ (∃ item ∈ items, reason item) (items.filterAuxM ask kept)
      ((items.filter answer).reverse ++ kept) := by
  induction items generalizing kept with
  | nil => simpa [List.filterAuxM] using hP.pure kept
  | cons item items ih =>
    have hrest := ih (fun other hother => hask other (List.mem_cons_of_mem _ hother))
      (cond (answer item) (item :: kept) kept)
    have hkept : ((item :: items).filter answer).reverse ++ kept =
        (items.filter answer).reverse ++ cond (answer item) (item :: kept) kept := by
      cases hanswer : answer item <;> simp [hanswer]
    rw [List.filterAuxM, hkept]
    simp only [List.exists_mem_cons_iff]
    exact hP.bind (hask item List.mem_cons_self) fun _ => hrest

theorem filterM (hP : Settling P) {ask : α → m Bool} {answer : α → Bool} {reason : α → Prop}
    {items : List α} (hask : ∀ item ∈ items, P _ (reason item) (ask item) (answer item)) :
    P _ (∃ item ∈ items, reason item) (items.filterM ask) (items.filter answer) := by
  unfold List.filterM
  exact hP.map (hP.filterAuxM hask []) (by simp)

end Settling

/-- On the host, the action breaks off for the reason, or ends with the value, and changes nothing. -/
def Action.Settles (host : Host) (α : Type) (reason : Prop) (step : Action α) (a : α) : Prop :=
  (reason ∧ ∃ failure, step.exec host = (.error failure, host)) ∨
    (¬ reason ∧ step.exec host = (.ok a, host))

theorem Action.settling (host : Host) : Settling (Action.Settles host) where
  pure a := .inr ⟨not_false, rfl⟩
  bind hstep hnext := by
    rcases hstep with ⟨hreason, failure, hstep⟩ | ⟨hnone, hstep⟩
    · exact .inl ⟨.inl hreason, failure, exec_bind_error hstep _⟩
    rcases hnext hnone with ⟨hreason, failure, hnext⟩ | ⟨hnone', hnext⟩
    · exact .inl ⟨.inr hreason, failure, by rw [exec_bind_ok hstep, hnext]⟩
    · exact .inr ⟨not_or.mpr ⟨hnone, hnone'⟩, by rw [exec_bind_ok hstep, hnext]⟩

/-- The same of a check, which learns nothing either. -/
def Checking.Settles (known : Findings) (host : Host) (α : Type) (reason : Prop) (step : Checking α)
    (a : α) : Prop :=
  Action.Settles host (α × Findings) reason (step.run known) (a, known)

theorem Checking.settling (known : Findings) (host : Host) :
    Settling (Checking.Settles known host) where
  pure _ := (Action.settling host).pure _
  bind hstep hnext := (Action.settling host).bind hstep hnext

theorem Checking.settles_lift {α : Type} {host : Host} {reason : Prop} {step : Action α} {a : α}
    (known : Findings) (hstep : Action.Settles host α reason step a) :
    Checking.Settles known host α reason (liftM step) a :=
  (Action.settling host).map hstep rfl

end DscAudit

/-!
## Kinds of complaints

Every complaint has a kind.  Steps that only deal with files and streams fail with defects, so they end
with no complaint of any kind.
-/

namespace DscAudit

variable {α β : Type} {kind : String}

namespace Action

/-- No complaint of the kind ends the step. -/
def Avoids (kind : String) (step : Action α) : Prop :=
  ∀ host complaint, (step.exec host).1 = .error (.complaint complaint) → complaint.kind ≠ kind

namespace Avoids

theorem of_pure (a : α) : Avoids kind (pure a : Action α) := by
  rintro host complaint ⟨⟩

theorem of_throw {failure : Failure}
    (hfailure : ∀ complaint, failure = .complaint complaint → complaint.kind ≠ kind) :
    Avoids kind (throw failure : Action α) := by
  rintro host complaint ⟨⟩
  exact hfailure complaint rfl

theorem of_defect (cause : Defect) : Avoids kind (defect cause : Action α) := .of_throw nofun

theorem get : Avoids kind (get : Action Host) := by
  rintro host complaint ⟨⟩

theorem set (after : Host) : Avoids kind (set after : Action PUnit) := by
  rintro host complaint ⟨⟩

theorem bind {step : Action α} {next : α → Action β} (hstep : Avoids kind step)
    (hnext : ∀ a, Avoids kind (next a)) : Avoids kind (step >>= next) := by
  intro host complaint hend
  rcases hfirst : step.exec host with ⟨failure | a, between⟩
  · rw [exec_bind_error hfirst] at hend
    cases hend
    exact hstep host complaint (congrArg Prod.fst hfirst)
  · rw [exec_bind_ok hfirst] at hend
    exact hnext a between complaint hend

theorem guard {c : Prop} [Decidable c] {early : Action PUnit} {next : PUnit → Action α}
    (hearly : Avoids kind early) (hnext : ∀ r, Avoids kind (next r)) :
    Avoids kind (if c then early >>= next else next ⟨⟩) := by
  split
  · exact bind hearly hnext
  · exact hnext ⟨⟩

theorem ite {c : Prop} [Decidable c] {first second : Action α} (hfirst : Avoids kind first)
    (hsecond : Avoids kind second) : Avoids kind (if c then first else second) := by
  split
  · exact hfirst
  · exact hsecond

end Avoids

theorem avoids_ofFile (path : Path) (result : Except FileError α) : Avoids kind (ofFile path result) := by
  cases result with
  | ok a => exact .of_pure a
  | error error => exact .of_defect _

theorem avoids_resolve (path : Path) : Avoids kind (resolve path) := by
  unfold resolve
  exact .guard (.of_defect _) fun _ => .bind .get fun _ => .of_pure _

theorem avoids_isDirectory (path : Path) : Avoids kind (isDirectory path) := by
  unfold isDirectory askVolume
  exact .bind .get fun _ => .guard (.of_defect _) fun _ => .of_pure _

theorem avoids_writeFile (path : Path) (content : Text.Octets) : Avoids kind (writeFile path content) := by
  unfold writeFile
  refine .guard (.of_defect _) fun _ => .bind .get fun host => ?_
  exact .bind (avoids_ofFile _ _) fun volume => .set _

theorem avoids_makeDirectoryHere? (path : Path) : Avoids kind (makeDirectoryHere? path) := by
  unfold makeDirectoryHere?
  refine .bind .get fun host => ?_
  dsimp only
  split
  · exact .bind (.set _) fun _ => .of_pure _
  · exact .of_pure _

theorem avoids_makeDirectories (tries : Nat) (path : Path) : Avoids kind (makeDirectories tries path) := by
  have hrefuse (error : FileError) (path : Path) : Avoids kind (do
      if ← isDirectory path then return () else defect (.file error path.toString)) :=
    .bind (avoids_isDirectory _) fun _ => .ite (.of_pure _) (.of_defect _)
  induction tries generalizing path with
  | zero => exact .of_pure _
  | succ tries ih =>
    unfold makeDirectories
    refine .bind (avoids_makeDirectoryHere? _) fun made => ?_
    split
    · exact .of_pure _
    · refine .ite (.of_defect _) (.bind (ih _) fun _ => ?_)
      refine .bind (avoids_makeDirectoryHere? _) fun made => ?_
      split
      · exact .of_pure _
      · exact hrefuse _ _
    · exact hrefuse _ _

theorem avoids_makeDirectory (path : Path) : Avoids kind (makeDirectory path) := by
  unfold makeDirectory
  exact .guard (.of_defect _) fun _ => avoids_makeDirectories _ _

theorem avoids_printLine (line : String) : Avoids kind (printLine line) := by
  rintro host complaint ⟨⟩

theorem avoids_log (settings : LogSettings) (event : Event) : Avoids kind (log settings event) := by
  unfold log
  refine .ite (.bind .get fun host => ?_) (.of_pure _)
  rintro host complaint ⟨⟩

end Action

open DscAudit.Action

theorem Tool.Pwsh.avoids_reading (result : Except Defect α) : Avoids kind (reading result) := by
  cases result with
  | ok a => exact .of_pure a
  | error cause => exact .of_defect cause

theorem RunContext.avoids_writeJson (hkind : "forbidden_write_path" ≠ kind) (context : RunContext)
    (path : Path) (payload : Value) : Avoids kind (context.writeJson path payload) := by
  unfold writeJson evidencePath
  refine .bind ?_ fun target => .bind (avoids_writeFile _ _) fun _ => .of_pure _
  refine .bind (avoids_resolve _) fun resolved => .bind (avoids_resolve _) fun evidence => ?_
  refine .ite (.bind (avoids_makeDirectory _) fun _ => .of_pure _) (.of_throw ?_)
  rintro complaint ⟨⟩
  exact hkind

end DscAudit

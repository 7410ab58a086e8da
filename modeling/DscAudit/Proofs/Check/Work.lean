import DscAudit.Check.Run
import DscAudit.Proofs.Check.Composition
import DscAudit.Proofs.File.Directory

/-!
# The work of checks

While checks run nothing is printed, whole lines are written to the stream for errors, and every file
and directory that is made lies in the directory for evidence, directories on the way to it apart.

The checks of one run share the findings of the script analyzer, from which those outside the module
and in excluded directories are left out.  No check adds others, and none changes the current
directory, on which it depends where the path of a finding leads to.
-/

namespace DscAudit

open DscAudit.Action

namespace Effect

/-- Nothing is printed, and what is written to the stream for errors ends its line. -/
def IsSilent : Effect → Prop
  | print _ => False
  | report text => ∃ line, text = line ++ "\n"
  | _ => True

/-- Files are written at or below a place only, and directories made there and on the way to it. -/
def StaysIn (evidence : Place) : Effect → Prop
  | makeDirectory place => place <+: evidence ∨ evidence <+: place
  | writeFile place _ => evidence <+: place
  | _ => True

/-- What may be done before an answer is printed. -/
def IsWork (evidence : Place) (effect : Effect) : Prop := effect.IsSilent ∧ effect.StaysIn evidence

end Effect

open Effect (IsWork)

/-- What is on the way to a place inside a directory is on the way to the directory, or inside. -/
theorem Place.comparable {evidence target place : Place} (htarget : evidence <+: target)
    (hplace : place <+: target) : place <+: evidence ∨ evidence <+: place :=
  List.prefix_or_prefix_of_prefix hplace htarget

variable {evidence : Place}

namespace Action

theorem isWork_line (line : String) : IsWork evidence (.report (line ++ "\n")) := ⟨⟨line, rfl⟩, trivial⟩

theorem isWork_pause (delay : Decimal.Binary64) : IsWork evidence (.pause delay) :=
  ⟨trivial, trivial⟩

theorem isWork_start (call : ProcessCall) : IsWork evidence (.start call) := ⟨trivial, trivial⟩

theorem work_log (settings : LogSettings) (event : Event) :
    Does (IsWork evidence) (log settings event) := does_log settings event isWork_line

/-- A directory may be made that lies in the directory for evidence, or on the way to something that
does. -/
theorem work_makeDirectory {path : Path} (hpath : path.IsNormal) {target : Place}
    (hinside : evidence <+: target) (htarget : path.parts <+: target) :
    Does (IsWork evidence) (makeDirectory path) := by
  refine does_makeDirectory fun ancestor hroot hparts volume directory place hlocate => ?_
  have hancestor : ancestor.IsNormal :=
    ⟨by rw [Path.isAbsolute, hroot]; exact hpath.absolute,
      fun hmem => hpath.noDoublePoint (hparts.subset hmem)⟩
  rw [Volume.eq_parts_of_locate hancestor hlocate]
  exact ⟨trivial, Place.comparable hinside (hparts.trans htarget)⟩

theorem isWork_writeFile {path : Path} (hpath : path.IsNormal) (hinside : evidence <+: path.parts)
    (content : Text.Octets) (volume : Volume) (directory : Path) (place : Place)
    (hlocate : volume.locate directory path = .ok place) :
    IsWork evidence (.writeFile place content) := by
  rw [Volume.eq_parts_of_locate hpath hlocate]
  exact ⟨trivial, hinside⟩

theorem work_writeFile {path : Path} (hpath : path.IsNormal) (hinside : evidence <+: path.parts)
    (content : Text.Octets) : Does (IsWork evidence) (writeFile path content) :=
  does_writeFile content (isWork_writeFile hpath hinside content)

theorem work_copyFile (source : Path) {target : Path} (htarget : target.IsNormal)
    (hinside : evidence <+: target.parts) : Does (IsWork evidence) (copyFile source target) :=
  does_copyFile source (isWork_writeFile htarget hinside)

theorem work_runOnce (command : Command) (settings : Option LogSettings) :
    Does (IsWork evidence) (command.runOnce settings) :=
  command.does_runOnce isWork_line isWork_pause (isWork_start _) settings

end Action

namespace Tool

theorem Pwsh.work_run (session : Pwsh.Session) (script : String)
    (overrides : List (String × String)) :
    Does (IsWork evidence) (Pwsh.run session script overrides) := by
  unfold Pwsh.run
  refine .get_bind fun host => .bind (work_runOnce _ _) fun result => ?_
  refine .guard (does_fail _ _ _) fun _ => .guard (does_fail _ _ _) fun _ => ?_
  split
  · exact .pure _
  · exact does_fail _ _ _

namespace MarkdownLint

theorem files_ne_doublePoint : ∀ file ∈ LintTask.files, file.1 ≠ ".." := by decide

theorem does_prepare {allowed : Effect → Prop} (root : Path) {directory : Path}
    (hmake : Does allowed (makeDirectory directory))
    (hwrite : ∀ name, name ≠ ".." → ∀ content, Does allowed (writeFile (directory.child name) content))
    (hcopy : ∀ source, Does allowed (copyFile source (directory.child LintTask.rulesName))) :
    Does allowed (prepare directory root) := by
  unfold prepare
  refine .bind hmake fun _ => .bind ?_ fun _ => ?_
  · refine (Does.compositional _).forIn (fun file hfile _ => ?_) _
    exact .bind (hwrite _ (files_ne_doublePoint file hfile) _) fun _ => .pure _
  · exact .bind (reads_isFile _).does fun found => .ite (fun _ => hcopy _) fun _ => .pure _

theorem work_prepare (root : Path) {directory : Path} (hdirectory : directory.IsNormal)
    (hinside : evidence <+: directory.parts) : Does (IsWork evidence) (prepare directory root) := by
  have hchild : ∀ name, evidence <+: (directory.child name).parts :=
    fun name => hinside.trans (List.prefix_append _ _)
  apply does_prepare root (work_makeDirectory hdirectory hinside (List.prefix_refl _))
  · exact fun name hname => work_writeFile (hdirectory.child hname) (hchild name)
  · exact fun source => work_copyFile source (hdirectory.child (by decide)) (hchild _)

theorem work_install (session : Session) : Does (IsWork evidence) (install session) := by
  unfold install
  refine .bind ?_ fun result => .guard (does_fail _ _ _) fun _ => .ite (fun _ => does_fail _ _ _)
    fun _ => .pure _
  exact Command.does_run isWork_line isWork_pause _ (isWork_start _) _ _ _

theorem work_run {session : Session} (hdirectory : session.directory.IsNormal)
    (hinside : evidence <+: session.directory.parts) : Does (IsWork evidence) (run session) := by
  unfold run
  refine .bind (work_prepare _ hdirectory hinside) fun _ => .bind (work_install session) fun _ => ?_
  refine .bind (work_runOnce _ _) fun result => .guard (does_fail _ _ _) fun _ => ?_
  exact .get_bind fun _ => .pure _

end MarkdownLint

end Tool

namespace Check

open Checking

variable {subject : Subject}

theorem suits_work (hsubject : subject.evidence.IsNormal) :
    Suits subject fun _ => Does (IsWork subject.evidence.parts) where
  compositional := Does.compositional _
  reads hstep := hstep.does
  script := Tool.Pwsh.work_run
  directory := work_makeDirectory (hsubject.child (by decide)) (List.prefix_append _ _) (List.prefix_refl _)

theorem work_lint (hsubject : subject.evidence.IsNormal) :
    Always (fun _ => Does (IsWork subject.evidence.parts)) (Markdown.lint subject) := by
  have hsuits := suits_work hsubject
  unfold Markdown.lint
  refine hsuits.bind (hsuits.liftReads (File.reads_withSuffix _ _ _)) fun files => ?_
  refine Suits.ite (hsuits.pure _) (hsuits.bind (hsuits.liftReads (reads_findTool _)) fun found => ?_)
  cases found with
  | none => exact hsuits.pure _
  | some npm =>
    refine hsuits.bind (hsuits.lift ?_) fun found => hsuits.pure _
    exact Tool.MarkdownLint.work_run (hsubject.child (by decide)) (List.prefix_append _ _)

/-- What a check of the catalogue does. -/
theorem work_of_mem_all (hsubject : subject.evidence.IsNormal) {check : Check} (hcheck : check ∈ all) :
    Always (fun _ => Does (IsWork subject.evidence.parts)) (check.run subject) := by
  rcases (suits_work hsubject).lint_or_always hcheck with hrun | halways
  · rw [hrun]
    exact work_lint hsubject
  · exact halways

/-! ## Runs -/

section

variable {α : Type} {allowed : Effect → Prop}

theorem does_attempt {step : Checking α} (hstep : Always (fun _ => Does allowed) step) :
    Always (fun _ => Does allowed) (attempt step) := by
  intro known
  have hok : Does allowed ((do return .ok (← step) : Checking (Except Failure α)).run known) :=
    .bind (hstep known) fun _ => .pure _
  exact .tryCatch hok fun failure => .pure (Except.error failure, known)

theorem does_runOne {check : Check} (optIn : OptIn)
    (hcheck : Always (fun _ => Does allowed) (check.run subject)) :
    Always (fun _ => Does allowed) (runOne subject optIn check) := by
  have hP : Compositional (m := Action) fun _ => Does allowed := Does.compositional _
  have hclock : Always (fun _ => Does allowed) (getThe Host : Checking Host) := .lift hP .get
  unfold runOne
  refine .bind hP hclock fun _ => .bind hP (does_attempt hcheck) fun ending => ?_
  refine .bind hP hclock fun _ => ?_
  cases ending <;> exact .pure hP _

theorem does_runAll (optIn : OptIn) (failFast : Bool) {checks : List Check}
    (hlog : ∀ line, allowed (.report (line ++ "\n")))
    (hchecks : ∀ check ∈ checks, Always (fun _ => Does allowed) (check.run subject)) :
    Always (fun _ => Does allowed) (runAll subject optIn failFast checks) := by
  have hP : Compositional (m := Action) fun _ => Does allowed := Does.compositional _
  induction checks with
  | nil => exact .pure hP _
  | cons check checks ih =>
    unfold runAll
    refine .bind hP (.lift hP (does_log? _ _ hlog)) fun _ => ?_
    refine .bind hP (does_runOne optIn (hchecks check (by simp))) fun result => ?_
    refine .bind hP (.lift hP (does_log? _ _ hlog)) fun _ => Suits.ite (.pure hP _) ?_
    refine .bind hP (ih fun other hother => hchecks other (by simp [hother])) fun _ => .pure hP _

theorem does_runChecks (optIn : OptIn) (failFast : Bool) {checks : List Check}
    (hlog : ∀ line, allowed (.report (line ++ "\n")))
    (hchecks : ∀ check ∈ checks, Always (fun _ => Does allowed) (check.run subject)) :
    Does allowed (runChecks subject checks optIn failFast) := by
  unfold runChecks
  refine .get_bind fun host => .bind (does_runAll optIn failFast hlog hchecks Findings.none) ?_
  exact fun _ => .get_bind fun _ => .pure _

end

end Check

end DscAudit

/-! ## What checks share -/

namespace DscAudit

open DscAudit.Action

variable {α β : Type} {allowed : Effect → Prop}

namespace Effect

theorem directory_on (host : Host) (effect : Effect) : (effect.on host).directory = host.directory := by
  cases effect with
  | makeDirectory place =>
    simp only [on]
    split <;> rfl
  | writeFile place content =>
    simp only [on]
    split <;> rfl
  | print line => rfl
  | report text => rfl
  | start call => rfl
  | pause delay => rfl

theorem directory_onAll (host : Host) (effects : List Effect) :
    (onAll host effects).directory = host.directory := by
  induction effects generalizing host with
  | nil => rfl
  | cons effect effects ih => rw [onAll_cons, ih, directory_on]

end Effect

/-- No action changes the current directory. -/
theorem Action.Does.directory_eq {step : Action α} (hstep : Does allowed step) (host : Host) :
    (step.exec host).2.directory = host.directory := by
  obtain ⟨effects, -, hafter⟩ := hstep host
  rw [hafter, Effect.directory_onAll]

/-- The findings of the script analyzer that are known concern the module and no excluded directory. -/
structure Findings.IsSound (subject : Subject) (directory : Path) (known : Findings) (host : Host) :
    Prop where
  directory_eq : host.directory = directory
  inScope : ∀ findings, known.analyzer = some (.ok findings) → ∀ finding ∈ findings,
    Check.Analyzer.isInScope subject directory finding = true

theorem Findings.isSound_none (subject : Subject) (host : Host) :
    Findings.none.IsSound subject host.directory host where
  directory_eq := rfl
  inScope := nofun

namespace Checking

variable {subject : Subject} {directory : Path}

/-- A sequence that ends well has passed its first part. -/
theorem exec_bind_eq_ok {step : Checking α} {next : α → Checking β} {known known' : Findings}
    {host after : Host} {b : β}
    (hend : ((step >>= next).run known).exec host = (.ok (b, known'), after)) :
    ∃ a middle between, (step.run known).exec host = (.ok (a, middle), between) ∧
      ((next a).run middle).exec between = (.ok (b, known'), after) := by
  rw [StateT.run_bind] at hend
  obtain ⟨⟨a, middle⟩, between, hfirst, hrest⟩ := Action.exec_bind_eq_ok hend
  exact ⟨a, middle, between, hfirst, hrest⟩

theorem exec_lift_eq_ok {step : Action β} {known known' : Findings} {host after : Host} {b : β}
    (hend : ((liftM step : Checking β).run known).exec host = (.ok (b, known'), after)) :
    step.exec host = (.ok b, after) ∧ known' = known := by
  obtain ⟨b', between, hstep, hrest⟩ := Action.exec_bind_eq_ok hend
  cases hrest
  exact ⟨hstep, rfl⟩

/-- If the step ends well, what is known stays sound, and the value has the property. -/
def Keeps (subject : Subject) (directory : Path) (post : α → Prop) (step : Checking α) : Prop :=
  ∀ known host, known.IsSound subject directory host → ∀ a known' after,
    (step.run known).exec host = (.ok (a, known'), after) →
      post a ∧ known'.IsSound subject directory after

namespace Keeps

variable {post : β → Prop}

theorem of_pure {b : β} (hb : post b) : Keeps subject directory post (pure b) := by
  intro known host hknown a known' after hend
  cases hend
  exact ⟨hb, hknown⟩

theorem bind {between : α → Prop} {step : Checking α} {next : α → Checking β}
    (hstep : Keeps subject directory between step)
    (hnext : ∀ a, between a → Keeps subject directory post (next a)) :
    Keeps subject directory post (step >>= next) := by
  intro known host hknown b known' after hend
  obtain ⟨a, middle, host', hfirst, hrest⟩ := exec_bind_eq_ok hend
  obtain ⟨ha, hmiddle⟩ := hstep known host hknown a middle host' hfirst
  exact hnext a ha middle host' hmiddle b known' after hrest

/-- An action knows nothing of what is shared. -/
theorem lift {step : Action β} (hdoes : Does allowed step) (hgives : Action.Gives post step) :
    Keeps subject directory post (liftM step : Checking β) := by
  intro known host hknown b known' after hend
  obtain ⟨hstep, hsame⟩ := exec_lift_eq_ok hend
  rw [hsame]
  have hafter := hdoes.directory_eq host
  rw [hstep] at hafter
  constructor
  · exact hgives host b _ hstep
  · exact ⟨hafter.trans hknown.directory_eq, hknown.inScope⟩

theorem lift_reads {step : Action β} (hreads : Reads step) (hgives : Action.Gives post step) :
    Keeps subject directory post (liftM step : Checking β) := lift hreads hgives

/-- Whatever an action gives, what is shared stays sound. -/
theorem lift_any {step : Action β} (hdoes : Does allowed step) :
    Keeps subject directory (fun _ => True) (liftM step : Checking β) := lift hdoes (.always step)

theorem ite {c : Prop} [Decidable c] {first second : Checking β}
    (hfirst : Keeps subject directory post first) (hsecond : Keeps subject directory post second) :
    Keeps subject directory post (if c then first else second) := by
  split
  · exact hfirst
  · exact hsecond

theorem mono {other : β → Prop} {step : Checking β} (hstep : Keeps subject directory post step)
    (hpost : ∀ b, post b → other b) : Keeps subject directory other step := by
  intro known host hknown b known' after hend
  obtain ⟨hb, hknown'⟩ := hstep known host hknown b known' after hend
  exact ⟨hpost b hb, hknown'⟩

theorem mapM {f : α → Checking β} {items : List α}
    (hf : ∀ item ∈ items, Keeps subject directory post (f item)) :
    Keeps subject directory (fun results => ∀ result ∈ results, post result) (items.mapM f) := by
  induction items with
  | nil => exact of_pure (by simp)
  | cons item items ih =>
    rw [List.mapM_cons]
    apply bind (hf item List.mem_cons_self)
    intro b hb
    apply bind (ih fun other hother => hf other (List.mem_cons_of_mem _ hother))
    intro bs hbs
    apply of_pure
    intro result hresult
    cases List.mem_cons.mp hresult with
    | inl hhead => rwa [hhead]
    | inr htail => exact hbs result htail

theorem compositional :
    Compositional (m := Checking) fun _ => Keeps subject directory (fun _ => True) where
  pure _ := of_pure trivial
  bind hstep hnext := bind hstep fun a _ => hnext a

/-- The current directory is the one that what is known depends on. -/
theorem getHost :
    Keeps subject directory (fun host : Host => host.directory = directory) (getThe Host) := by
  intro known host hknown a known' after hend
  cases hend
  exact ⟨hknown.directory_eq, hknown⟩

end Keeps

end Checking

/-- What a filter keeps was there before. -/
theorem Action.gives_filterM (step : α → Action Bool) (items : List α) :
    Gives (fun kept => ∀ item ∈ kept, item ∈ items) (items.filterM step) := by
  have haux : ∀ (rest kept : List α), (∀ item ∈ rest, item ∈ items) → (∀ item ∈ kept, item ∈ items) →
      Gives (fun found => ∀ item ∈ found, item ∈ items) (rest.filterAuxM step kept) := by
    intro rest
    induction rest with
    | nil =>
      intro kept _ hkept
      exact .of_pure hkept
    | cons item rest ih =>
      intro kept hrest hkept
      rw [List.filterAuxM]
      refine .bind (.always _) fun b _ => ih _ ?_ ?_
      · intro other hother
        exact hrest other (List.mem_cons_of_mem _ hother)
      · cases b with
        | true => simpa [hrest item List.mem_cons_self] using hkept
        | false => exact hkept
  unfold List.filterM
  refine .bind (haux items [] (by simp) (by simp)) fun kept hkept => .of_pure ?_
  intro item hitem
  exact hkept item (List.mem_reverse.mp hitem)

namespace Check

open Checking

variable {subject : Subject} {directory : Path}

/-! ## The findings of the script analyzer -/

namespace Analyzer

/-- What the script analyzer gives is in scope. -/
theorem inScope_of_exec_analyze (hdoes : Does allowed (analyze subject)) {host after : Host}
    {findings : List Tool.Pwsh.Finding}
    (hend : (analyze subject).exec host = (.ok (.ok findings), after)) :
    ∀ finding ∈ findings, isInScope subject host.directory finding = true := by
  have hafter := hdoes.directory_eq host
  rw [hend] at hafter
  unfold analyze at hend
  obtain ⟨found, between, -, hend⟩ := exec_bind_eq_ok hend
  cases found with
  | none => cases hend
  | some executable =>
    obtain ⟨found, last, -, hend⟩ := exec_bind_eq_ok hend
    cases found with
    | none => cases hend
    | some all =>
      cases hend
      rw [← hafter]
      intro finding hfinding
      exact (List.mem_filter.mp hfinding).2

/-- The findings that a check gets are in scope, whether they were known or not. -/
theorem keeps_findings (hdoes : Does allowed (analyze subject)) :
    Keeps subject directory (fun result => ∀ findings, result = .ok findings →
      ∀ finding ∈ findings, isInScope subject directory finding = true) (findings subject) := by
  intro known host hknown result known' after hend
  unfold findings at hend
  obtain ⟨shared, _, _, hget, hend⟩ := Checking.exec_bind_eq_ok hend
  cases hget
  cases hanalyzer : known.analyzer with
  | some found =>
    rw [hanalyzer] at hend
    cases hend
    exact ⟨fun findings heq => hknown.inScope findings (by rw [hanalyzer, heq]), hknown⟩
  | none =>
    rw [hanalyzer] at hend
    obtain ⟨found, _, between, hlifted, hend⟩ := Checking.exec_bind_eq_ok hend
    obtain ⟨hanalyze, -⟩ := Checking.exec_lift_eq_ok hlifted
    have hafter := hdoes.directory_eq host
    rw [hanalyze] at hafter
    cases hend
    have hfound : ∀ findings, result = .ok findings → ∀ finding ∈ findings,
        isInScope subject directory finding = true := by
      intro findings heq
      rw [heq] at hanalyze
      rw [← hknown.directory_eq]
      exact inScope_of_exec_analyze hdoes hanalyze
    exact ⟨hfound, hafter.trans hknown.directory_eq, fun findings heq => hfound findings (by cases heq; rfl)⟩

end Analyzer

end Check

end DscAudit

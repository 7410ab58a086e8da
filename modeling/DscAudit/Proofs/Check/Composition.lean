import DscAudit.Check.Catalogue
import DscAudit.Check.Run
import DscAudit.Proofs.Host.Primitive

/-!
# What checks are made of

All checks but the one that runs the lint task are made of steps that only read, of scripts that run
with PowerShell, and of one directory that is made.  A property of actions that goes through sequences
and that these steps have is one of every such check.
-/

namespace DscAudit

open DscAudit.Action

/-- A module in a directory of that name where nothing is configured. -/
def Subject.ofModule (name : String) : Subject where
  root := ⟨.slash, [name]⟩
  config := .default
  evidence := ⟨.slash, [name, "output", "dscmeta"]⟩
  log := none

namespace Checking

variable {α β : Type} {P : ∀ α : Type, Action α → Prop}

/-! ## How checks end -/

theorem exec_bind_ok {step : Checking α} {known known' : Findings} {host between : Host} {a : α}
    (hstep : (step.run known).exec host = (.ok (a, known'), between)) (next : α → Checking β) :
    ((step >>= next).run known).exec host = ((next a).run known').exec between := by
  rw [StateT.run_bind, Action.exec_bind_ok hstep]

theorem exec_bind_error {step : Checking α} {known : Findings} {host between : Host}
    {failure : Failure} (hstep : (step.run known).exec host = (.error failure, between))
    (next : α → Checking β) :
    ((step >>= next).run known).exec host = (.error failure, between) := by
  rw [StateT.run_bind, Action.exec_bind_error hstep]

theorem exec_lift_ok {step : Action α} {host after : Host} {a : α}
    (hstep : step.exec host = (.ok a, after)) (known : Findings) :
    ((liftM step : Checking α).run known).exec host = (.ok (a, known), after) :=
  Action.exec_bind_ok hstep fun a => pure (a, known)

/-! ## Properties that go through checks -/

/-- The property holds of what is done, whatever is known already. -/
def Always (P : ∀ α : Type, Action α → Prop) (step : Checking α) : Prop :=
  ∀ known, P (α × Findings) (step.run known)

namespace Always

theorem pure (hP : Compositional P) (a : α) : Always P (pure a) := fun known => hP.pure (a, known)

theorem bind (hP : Compositional P) {step : Checking α} {next : α → Checking β}
    (hstep : Always P step) (hnext : ∀ a, Always P (next a)) : Always P (step >>= next) :=
  fun known => hP.bind (hstep known) fun found => hnext found.1 found.2

theorem compositional (hP : Compositional P) :
    Compositional (m := Checking) fun _ => Always P := ⟨pure hP, bind hP⟩

theorem get (hP : Compositional P) : Always P get := fun known => hP.pure (known, known)

theorem set (hP : Compositional P) (known : Findings) : Always P (set known) :=
  fun _ => hP.pure (PUnit.unit, known)

theorem lift (hP : Compositional P) {step : Action α} (hstep : P α step) :
    Always P (liftM step : Checking α) :=
  fun known => hP.bind hstep fun a => hP.pure (a, known)

end Always

/-! ## What steps give -/

/-- If the step ends well, then with a value that has the property, whatever is known already. -/
def Gives (post : α → Prop) (step : Checking α) : Prop :=
  ∀ known, Action.Gives (fun found => post found.1) (step.run known)

namespace Gives

variable {post : β → Prop}

theorem of_pure {b : β} (hb : post b) : Checking.Gives post (pure b) := fun _ => .of_pure hb

theorem bind_gives {between : α → Prop} {step : Checking α} {next : α → Checking β}
    (hstep : Checking.Gives between step) (hnext : ∀ a, between a → Checking.Gives post (next a)) :
    Checking.Gives post (step >>= next) :=
  fun known => .bind (hstep known) fun found hfound => hnext found.1 hfound found.2

/-- What comes last counts, whatever was found before. -/
theorem bind {step : Checking α} {next : α → Checking β} (hnext : ∀ a, Checking.Gives post (next a)) :
    Checking.Gives post (step >>= next) :=
  fun _ => .bind (.always _) fun found _ => hnext found.1 found.2

theorem ite {c : Prop} [Decidable c] {first second : Checking β}
    (hfirst : Checking.Gives post first) (hsecond : Checking.Gives post second) :
    Checking.Gives post (if c then first else second) := by
  split
  · exact hfirst
  · exact hsecond

end Gives

end Checking

namespace Check

open Checking

/-- An attempt always succeeds: how the step ended is its value. -/
theorem exec_attempt {α : Type} (step : Checking α) (known : Findings) (host : Host) :
    ((attempt step).run known).exec host =
      match (step.run known).exec host with
      | (.ok (a, known'), after) => (.ok (.ok a, known'), after)
      | (.error failure, after) => (.ok (.error failure, known), after) := by
  show exec (tryCatch (step.run known >>= fun found => pure (Except.ok found.1, found.2))
    fun failure => pure (Except.error failure, known)) host = _
  rw [exec_tryCatch, exec_bind]
  rcases (step.run known).exec host with ⟨failure | ⟨a, known'⟩, after⟩ <;> rfl

/-- A property of actions that the parts of checks have which are no checks of the lint task. -/
structure Suits (subject : Subject) (P : ∀ α : Type, Action α → Prop) : Prop where
  compositional : Compositional P
  reads : ∀ {α : Type} {step : Action α}, Reads step → P α step
  script : ∀ (session : Tool.Pwsh.Session) (script : String) (overrides : List (String × String)),
    P Value (Tool.Pwsh.run session script overrides)
  directory : P Unit (Action.makeDirectory (subject.evidence.child "examples"))

namespace Suits

variable {subject : Subject} {P : ∀ α : Type, Action α → Prop} {α β : Type}

theorem pure (hP : Suits subject P) (a : α) : Always P (pure a) := .pure hP.compositional a

theorem bind (hP : Suits subject P) {step : Checking α} {next : α → Checking β}
    (hstep : Always P step) (hnext : ∀ a, Always P (next a)) : Always P (step >>= next) :=
  .bind hP.compositional hstep hnext

theorem lift (hP : Suits subject P) {step : Action α} (hstep : P α step) :
    Always P (liftM step : Checking α) := .lift hP.compositional hstep

theorem liftReads (hP : Suits subject P) {step : Action α} (hstep : Reads step) :
    Always P (liftM step : Checking α) := hP.lift (hP.reads hstep)

theorem ite {c : Prop} [Decidable c] {first second : Checking α} (hfirst : Always P first)
    (hsecond : Always P second) : Always P (if c then first else second) := by
  split
  · exact hfirst
  · exact hsecond

theorem mapM (hP : Suits subject P) {f : α → Checking β} {items : List α}
    (hf : ∀ item ∈ items, Always P (f item)) : Always P (items.mapM f) :=
  (Always.compositional hP.compositional).mapM hf

/-! ## Checks of files, the manifest and resources -/

theorem inFiles (hP : Suits subject P) (files : List Path)
    (look : String → Text.Octets → List Violation) :
    Always P (Formatting.inFiles subject files look) := by
  unfold Formatting.inFiles
  refine hP.bind (hP.mapM fun file _ => ?_) fun _ => hP.pure _
  exact hP.bind (hP.liftReads (reads_readFile _)) fun _ => hP.pure _

theorem encoding (hP : Suits subject P) : Always P (Formatting.encoding subject) :=
  hP.bind (hP.liftReads (File.reads_withExtension _ _ _)) fun _ => hP.inFiles _ _

theorem tabCharacters (hP : Suits subject P) : Always P (Formatting.tabCharacters subject) :=
  hP.bind (hP.liftReads (File.reads_withExtension _ _ _)) fun _ => hP.inFiles _ _

theorem finalNewline (hP : Suits subject P) : Always P (Formatting.finalNewline subject) :=
  hP.bind (hP.liftReads (File.reads_withExtension _ _ _)) fun _ => hP.inFiles _ _

theorem markdownMark (hP : Suits subject P) : Always P (Formatting.markdownMark subject) :=
  hP.bind (hP.liftReads (File.reads_withSuffix _ _ _)) fun _ => hP.inFiles _ _

theorem reads_candidates (root : Path) : Reads (DscAudit.Manifest.candidates root) := by
  unfold DscAudit.Manifest.candidates
  exact .bind (File.reads_namesIn _ _) fun _ => .pure _

theorem reads_loadManifest (root : Path) : Reads (DscAudit.Manifest.Content.load root) := by
  unfold DscAudit.Manifest.Content.load
  refine .bind (reads_candidates root) fun candidates => ?_
  split
  · exact .pure _
  · exact .bind (reads_readFile _) fun _ => .pure _

theorem content (hP : Suits subject P) : Always P (Manifest.content subject) := by
  unfold Manifest.content
  refine hP.bind (.get hP.compositional) fun findings => ?_
  split
  · exact hP.pure _
  · refine hP.bind (hP.liftReads (reads_loadManifest _)) fun content => ?_
    exact hP.bind (.set hP.compositional _) fun _ => hP.pure _

theorem present (hP : Suits subject P) : Always P (Manifest.present subject) := by
  unfold Manifest.present
  refine hP.bind (hP.liftReads (reads_candidates _)) fun candidates => ?_
  dsimp only
  split
  · exact hP.pure _
  · exact ite (hP.pure _) (hP.pure _)

theorem valid (hP : Suits subject P) : Always P (Manifest.valid subject) := by
  unfold Manifest.valid
  refine hP.bind hP.content fun content => ?_
  cases content <;> exact hP.pure _

theorem powerShellVersion (hP : Suits subject P) : Always P (Manifest.powerShellVersion subject) := by
  unfold Manifest.powerShellVersion
  refine hP.bind hP.content fun content => ?_
  cases content <;> exact hP.pure _

theorem reads_directories (root : Path) : Reads (Resource.directories root) := by
  unfold Resource.directories Resource.container?
  refine .bind (.bind (File.reads_namesIn _ _) fun _ => .pure _) fun container => ?_
  cases container with
  | none => exact .pure _
  | some container => exact .bind (File.reads_namesIn _ _) fun _ => .pure _

theorem reads_directoriesWith (suffix : String) : Reads (Resource.directoriesWith subject suffix) := by
  unfold Resource.directoriesWith
  refine .bind (reads_directories _) fun directories => ?_
  exact (Does.compositional _).filterM fun directory _ => reads_isFile _

theorem reads_readText (path : Path) : Reads (Resource.readText path) := by
  unfold Resource.readText
  exact .bind (reads_readFile _) fun _ => .pure _

theorem filesPresent (hP : Suits subject P) : Always P (Resource.filesPresent subject) := by
  unfold Resource.filesPresent
  refine hP.bind (hP.liftReads (reads_directories _)) fun directories => ite (hP.pure _) ?_
  refine hP.bind (hP.mapM fun directory _ => ?_) fun _ => hP.pure _
  refine hP.bind ?_ fun _ => hP.pure _
  refine (Always.compositional hP.compositional).filterM fun suffix _ => ?_
  exact hP.bind (hP.liftReads (reads_isFile _)) fun _ => hP.pure _

theorem schemaValid (hP : Suits subject P) : Always P (Resource.schemaValid subject) := by
  unfold Resource.schemaValid
  refine hP.bind (hP.liftReads (reads_directoriesWith _)) fun directories => ite (hP.pure _) ?_
  refine hP.bind (hP.mapM fun directory _ => ?_) fun _ => hP.pure _
  exact hP.bind (hP.liftReads (reads_readText _)) fun _ => hP.pure _

theorem functions (hP : Suits subject P) : Always P (Resource.functions subject) := by
  unfold Resource.functions
  refine hP.bind (hP.liftReads (reads_directoriesWith _)) fun directories => ite (hP.pure _) ?_
  refine hP.bind (hP.mapM fun directory _ => ?_) fun _ => hP.pure _
  exact hP.bind (hP.liftReads (reads_readText _)) fun _ => hP.pure _

theorem relativeLength (hP : Suits subject P) : Always P (PathLength.relative subject) :=
  hP.bind (hP.liftReads (File.reads_all _ _)) fun _ => hP.pure _

/-! ## Checks that run scripts -/

theorem reads_reading {result : Except Defect α} : Reads (Tool.Pwsh.reading result) := by
  cases result with
  | ok a => exact .pure a
  | error error => exact does_defect error

theorem reads_find (config : Config) : Reads (Tool.Pwsh.find config) := by
  unfold Tool.Pwsh.find
  refine .ite (fun _ => ?_) fun _ => reads_findTool _
  exact .bind (reads_isFile _) fun _ => .ite (fun _ => .pure _) fun _ => .pure _

theorem reads_byPath (entries : List (String × α)) : Reads (Parsing.byPath entries) := by
  unfold Parsing.byPath
  refine .bind ?_ fun _ => .pure _
  exact (Does.compositional _).mapM fun entry _ => .bind (reads_resolve _) fun _ => .pure _

theorem analyze (hP : Suits subject P) : P _ (Analyzer.analyze subject) := by
  have hfindings : ∀ session, P _ (Tool.Pwsh.analyze? session) := fun session =>
    hP.compositional.bind (hP.script session _ _) fun _ => hP.reads reads_reading
  unfold Analyzer.analyze
  refine hP.compositional.bind (hP.reads (reads_find _)) fun found => ?_
  cases found with
  | none => exact hP.compositional.pure _
  | some executable =>
    refine hP.compositional.bind (hfindings _) fun findings => ?_
    cases findings with
    | none => exact hP.compositional.pure _
    | some findings => exact hP.compositional.bind (hP.reads .get) fun _ => hP.compositional.pure _

theorem findings (hP : Suits subject P) : Always P (Analyzer.findings subject) := by
  unfold Analyzer.findings
  refine hP.bind (.get hP.compositional) fun known => ?_
  split
  · exact hP.pure _
  · refine hP.bind (hP.lift hP.analyze) fun findings => ?_
    exact hP.bind (.set hP.compositional _) fun _ => hP.pure _

theorem select (hP : Suits subject P) (isWanted : Tool.Pwsh.Finding → Bool) :
    Always P (Analyzer.select subject isWanted) := by
  unfold Analyzer.select
  refine hP.bind hP.findings fun findings => ?_
  cases findings with
  | error reason => exact hP.pure _
  | ok findings => exact hP.bind (hP.liftReads .get) fun _ => hP.pure _

theorem parameterRules (hP : Suits subject P) : Always P (Analyzer.parameterRules subject) := by
  unfold Analyzer.parameterRules
  refine hP.bind (hP.liftReads (File.reads_withSuffix _ _ _)) fun files => ?_
  refine hP.bind (hP.mapM fun file _ => ?_) fun _ => hP.pure _
  exact hP.bind (hP.liftReads (reads_readFile _)) fun _ => hP.pure _

theorem parse (hP : Suits subject P) (files : List Path) (kind : String) :
    Always P (Parsing.parse subject files kind) := by
  have hparse : ∀ session files, P _ (Tool.Pwsh.parse session files) := fun session files =>
    hP.compositional.bind (hP.script session _ _) fun _ => hP.reads reads_reading
  unfold Parsing.parse
  refine ite (hP.pure _) (hP.bind (hP.liftReads (reads_find _)) fun found => ?_)
  cases found with
  | none => exact hP.pure _
  | some executable =>
    refine hP.bind (hP.lift (hparse _ _)) fun found => ?_
    refine hP.bind (hP.liftReads (reads_byPath _)) fun faults => ?_
    refine hP.bind (hP.mapM fun file _ => ?_) fun _ => hP.pure _
    exact hP.bind (hP.liftReads (reads_resolve _)) fun _ => hP.pure _

theorem modules (hP : Suits subject P) : Always P (Parsing.modules subject) :=
  hP.bind (hP.liftReads (File.reads_withSuffix _ _ _)) fun _ => hP.parse _ _

theorem scripts (hP : Suits subject P) : Always P (Parsing.scripts subject) :=
  hP.bind (hP.liftReads (File.reads_withSuffix _ _ _)) fun _ => hP.parse _ _

theorem reads_exampleFiles (subject : Subject) : Reads (Examples.files subject) := by
  unfold Examples.files
  refine .bind (reads_isDirectory _) fun _ => .ite (fun _ => ?_) fun _ => .pure _
  exact .bind (File.reads_withSuffix _ _ _) fun _ => .pure _

theorem reads_relative (subject : Subject) (file : Path) : Reads (Examples.relative subject file) := by
  unfold Examples.relative
  split
  · exact .pure _
  · exact does_defect _

theorem compile (hP : Suits subject P) : Always P (Examples.compile subject) := by
  have hcompile : ∀ session files,
      P _ (Tool.Pwsh.compile session files (subject.evidence.child "examples")) :=
    fun session files => hP.compositional.bind hP.directory fun _ =>
      hP.compositional.bind (hP.script session _ _) fun _ => hP.reads reads_reading
  unfold Examples.compile
  refine hP.bind (hP.liftReads (reads_exampleFiles _)) fun files => ite (hP.pure _) ?_
  refine hP.bind (hP.liftReads (reads_find _)) fun found => ?_
  cases found with
  | none => exact hP.pure _
  | some executable =>
    refine hP.bind (hP.lift (hcompile _ _)) fun found => ?_
    refine hP.bind (hP.liftReads (reads_byPath _)) fun compilations => ?_
    refine hP.bind (hP.mapM fun file _ => ?_) fun _ => hP.pure _
    refine hP.bind (hP.liftReads (reads_relative _ _)) fun path => ?_
    exact hP.bind (hP.liftReads (reads_resolve _)) fun _ => hP.pure _

/-- Every check of the catalogue is the one that runs the lint task, or has the property. -/
theorem lint_or_always (hP : Suits subject P) {check : Check} (hcheck : check ∈ all) :
    check.run = Markdown.lint ∨ Always P (check.run subject) := by
  simp only [all, formattingChecks, manifestChecks, resourceChecks, analyzerChecks, scriptChecks,
    otherChecks, List.mem_append, List.mem_cons, List.not_mem_nil, or_false] at hcheck
  -- one case for each check, in the order of the catalogue
  rcases hcheck with (((((rfl | rfl | rfl | rfl) | rfl | rfl | rfl) | rfl | rfl | rfl) | rfl | rfl |
    rfl | rfl) | rfl | rfl | rfl) | rfl | rfl
  · exact .inr hP.encoding
  · exact .inr hP.tabCharacters
  · exact .inr hP.finalNewline
  · exact .inr hP.markdownMark
  · exact .inr hP.present
  · exact .inr hP.valid
  · exact .inr hP.powerShellVersion
  · exact .inr hP.filesPresent
  · exact .inr hP.schemaValid
  · exact .inr hP.functions
  · exact .inr (hP.select _)
  · exact .inr (hP.select _)
  · exact .inr (hP.select _)
  · exact .inr hP.parameterRules
  · exact .inr hP.modules
  · exact .inr hP.scripts
  · exact .inr hP.compile
  · exact .inl rfl
  · exact .inr hP.relativeLength

end Suits

end Check

end DscAudit

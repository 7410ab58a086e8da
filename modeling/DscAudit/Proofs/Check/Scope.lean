import DscAudit.Proofs.Check.Work
import DscAudit.Proofs.File.Directory
import DscAudit.Proofs.File.Path
import Mathlib.Data.List.TakeDrop

/-!
# Excluded directories in the findings of checks

A check that walks through the module leaves excluded directories out, and so does the one that takes
the findings of the script analyzer.  But the checks of resources look into the directory of the
resources and those in it whatever they are called, the check of the examples begins with the directory
that is configured, and the check of markdown files repeats what the lint task prints.
-/

namespace DscAudit

open DscAudit.Action

/-! ## Paths and their texts -/

namespace Path

/-- A relative path of names that files can have, with no blanks at the ends of its text. -/
structure IsPlain (file : Path) : Prop where
  relative : file.root = .relative
  ne_nil : file.parts ≠ []
  names : ∀ part ∈ file.parts, part ≠ "" ∧ part ≠ "." ∧ '/' ∉ part.toList
  trimmed : Violation.trimmed file.toString = file.toString

theorem toString_of_relative {file : Path} (hrelative : file.root = .relative)
    (hne : file.parts ≠ []) : file.toString = "/".intercalate file.parts := by
  rw [toString_of_ne_nil hne, hrelative]
  exact String.empty_append

/-- A plain path is what its text writes. -/
theorem IsPlain.ofString_toString {file : Path} (hfile : file.IsPlain) :
    ofString file.toString = file :=
  Path.ofString_toString hfile.names

end Path

/-! ## What a violation is about -/

/-- The violation shows the path, without blanks at the ends of its text. -/
def Violation.IsAt (violation : Violation) (file : Path) : Prop :=
  violation.path = trimmed file.toString

theorem Violation.isAt_ofFile (code message : String) (file : Path) :
    (ofFile code message file.toString).IsAt file := rfl

/-- The violation is about the module as a whole, or shows a path of a kind. -/
def Violation.Shows (shown : Path → Prop) (violation : Violation) : Prop :=
  violation.path = "" ∨ ∃ file, violation.IsAt file ∧ shown file

def Outcome.ShowsOnly (shown : Path → Prop) (outcome : Outcome) : Prop :=
  ∀ violation ∈ outcome.violations, violation.Shows shown

theorem Outcome.showsOnly_nil (shown : Path → Prop) (warnings : List String) (reason : String)
    (metrics : Table) : ShowsOnly shown ⟨[], warnings, reason, metrics⟩ := by
  intro violation hviolation
  cases hviolation

theorem Outcome.ShowsOnly.mono {shown other : Path → Prop} {outcome : Outcome}
    (houtcome : outcome.ShowsOnly shown) (hshown : ∀ file, shown file → other file) :
    outcome.ShowsOnly other := by
  intro violation hviolation
  cases houtcome violation hviolation with
  | inl hnone => exact .inl hnone
  | inr hsome =>
    obtain ⟨file, hat, hfile⟩ := hsome
    exact .inr ⟨file, hat, hshown file hfile⟩

/-! ## Files that are found -/

namespace File

variable {excluded : List String}

/-- A file that a walk finds: its path is relative, and none of its directories is excluded. -/
structure IsIncluded (excluded : List String) (file : Path) : Prop where
  relative : file.root = .relative
  ne_nil : file.parts ≠ []
  included : file.isExcluded excluded = false

theorem gives_all (root : Path) (excluded : List String) :
    Gives (fun files => ∀ file ∈ files, IsIncluded excluded file) (all root excluded) := by
  have hbelow : Gives (fun entries => ∀ entry ∈ entries, entry.1.root = .relative ∧ entry.1.parts ≠ [])
      (below root) := by
    unfold below
    refine .bind (.always _) fun host _ => ?_
    split
    · apply Gives.of_pure
      intro entry hentry
      obtain ⟨⟨parts, node⟩, hmem, rfl⟩ := List.mem_map.mp hentry
      exact ⟨rfl, (Volume.mem_below.mp hmem).1⟩
    · exact .of_pure (by simp)
  unfold all
  refine hbelow.bind fun entries hentries => .of_pure ?_
  intro file hfile
  rw [List.mem_mergeSort, List.mem_filterMap] at hfile
  obtain ⟨⟨path, node⟩, hmem, hfile⟩ := hfile
  cases node with
  | directory => cases hfile
  | file content =>
    dsimp only at hfile
    split at hfile
    · cases hfile
    · rename_i hexcluded
      cases hfile
      exact ⟨(hentries _ hmem).1, (hentries _ hmem).2, by simpa using hexcluded⟩

theorem gives_withSuffix (root : Path) (excluded suffixes : List String) :
    Gives (fun files => ∀ file ∈ files, IsIncluded excluded file) (withSuffix root excluded suffixes) := by
  unfold withSuffix
  refine (gives_all root excluded).bind fun files hfiles => .of_pure ?_
  intro file hfile
  exact hfiles file (List.mem_of_mem_filter hfile)

theorem gives_withExtension (root : Path) (excluded extensions : List String) :
    Gives (fun files => ∀ file ∈ files, IsIncluded excluded file)
      (withExtension root excluded extensions) := by
  unfold withExtension
  refine (gives_all root excluded).bind fun files hfiles => .of_pure ?_
  intro file hfile
  exact hfiles file (List.mem_of_mem_filter hfile)

end File

namespace Check

open Checking

variable {subject : Subject} {directory : Path} {α : Type}

/-! ## Checks that walk -/

/-- The path is that of a file that is not in an excluded directory. -/
def IsIncluded (subject : Subject) (file : Path) : Prop :=
  file.isExcluded subject.config.excludedDirectories = false

theorem keeps_skip (post : Path → Prop) (reason : String) :
    Keeps subject directory (Outcome.ShowsOnly post) (pure (.skip reason)) :=
  .of_pure (Outcome.showsOnly_nil post [] reason [])

/-- Violations that are found item by item show what is found for each item. -/
theorem keeps_each {β : Type} {shown : Path → Prop} {items : List β}
    {step : β → Checking (List Violation)} {metrics : Table}
    (hstep : ∀ item ∈ items, Keeps subject directory (fun part => ∀ violation ∈ part,
      ∃ file, violation.IsAt file ∧ shown file) (step item)) :
    Keeps subject directory (Outcome.ShowsOnly shown) (do
      let violations ← items.mapM step
      return .found violations.flatten metrics) := by
  refine .bind (.mapM hstep) fun parts hparts => .of_pure ?_
  intro violation hviolation
  obtain ⟨part, hpart, hviolation⟩ := List.mem_flatten.mp hviolation
  exact .inr (hparts part hpart violation hviolation)

theorem keeps_inFiles {files : List Path} {look : String → Text.Octets → List Violation}
    (hfiles : ∀ file ∈ files, File.IsIncluded subject.config.excludedDirectories file)
    (hlook : ∀ path content, ∀ violation ∈ look path content,
      violation.path = Violation.trimmed path) :
    Keeps subject directory (Outcome.ShowsOnly (IsIncluded subject))
      (Formatting.inFiles subject files look) := by
  unfold Formatting.inFiles
  apply keeps_each
  intro file hfile
  refine .bind (.lift_reads (reads_readFile _) (.always _)) fun content _ => .of_pure ?_
  intro violation hviolation
  exact ⟨file, hlook _ _ violation hviolation, (hfiles file hfile).included⟩

theorem keeps_encoding :
    Keeps subject directory (Outcome.ShowsOnly (IsIncluded subject)) (Formatting.encoding subject) := by
  refine .bind (.lift_reads (File.reads_withExtension _ _ _) (File.gives_withExtension _ _ _))
    fun files hfiles => keeps_inFiles hfiles ?_
  intro path content violation hviolation
  rw [List.mem_ite_nil_right, List.mem_singleton] at hviolation
  rw [hviolation.2]
  rfl

theorem keeps_tabCharacters :
    Keeps subject directory (Outcome.ShowsOnly (IsIncluded subject))
      (Formatting.tabCharacters subject) := by
  refine .bind (.lift_reads (File.reads_withExtension _ _ _) (File.gives_withExtension _ _ _))
    fun files hfiles => keeps_inFiles hfiles ?_
  intro path content violation hviolation
  obtain ⟨place, -, rfl⟩ := List.mem_map.mp hviolation
  rfl

theorem keeps_finalNewline :
    Keeps subject directory (Outcome.ShowsOnly (IsIncluded subject))
      (Formatting.finalNewline subject) := by
  refine .bind (.lift_reads (File.reads_withExtension _ _ _) (File.gives_withExtension _ _ _))
    fun files hfiles => keeps_inFiles hfiles ?_
  intro path content violation hviolation
  rw [List.mem_ite_nil_left, List.mem_singleton] at hviolation
  rw [hviolation.2]
  rfl

theorem keeps_markdownMark :
    Keeps subject directory (Outcome.ShowsOnly (IsIncluded subject))
      (Formatting.markdownMark subject) := by
  refine .bind (.lift_reads (File.reads_withSuffix _ _ _) (File.gives_withSuffix _ _ _))
    fun files hfiles => keeps_inFiles hfiles ?_
  intro path content violation hviolation
  rw [List.mem_ite_nil_right, List.mem_singleton] at hviolation
  rw [hviolation.2]
  rfl

theorem keeps_relativeLength :
    Keeps subject directory (Outcome.ShowsOnly (IsIncluded subject)) (PathLength.relative subject) := by
  refine .bind (.lift_reads (File.reads_all _ _) (File.gives_all _ _)) fun files hfiles => .of_pure ?_
  intro violation hviolation
  obtain ⟨file, hfile, hviolation⟩ := List.mem_filterMap.mp hviolation
  right
  use file
  constructor
  · unfold PathLength.violation? at hviolation
    dsimp only at hviolation
    split at hviolation
    · rw [← Option.some.inj hviolation]
      exact Violation.isAt_ofFile _ _ file
    · cases hviolation
  · exact (hfiles file hfile).included

theorem keeps_parameterRules :
    Keeps subject directory (Outcome.ShowsOnly (IsIncluded subject))
      (Analyzer.parameterRules subject) := by
  refine .bind (.lift_reads (File.reads_withSuffix _ _ _) (File.gives_withSuffix _ _ _))
    fun files hfiles => keeps_each ?_
  intro file hfile
  refine .bind (.lift_reads (reads_readFile _) (.always _)) fun content _ => .of_pure ?_
  intro violation hviolation
  obtain ⟨found, -, rfl⟩ := List.mem_map.mp hviolation
  exact ⟨file, rfl, (hfiles file hfile).included⟩

theorem does_parse (session : Tool.Pwsh.Session) (files : List Path) :
    Does (Effect.IsWork []) (Tool.Pwsh.parse session files) :=
  .bind (Tool.Pwsh.work_run _ _ _) fun _ => Suits.reads_reading.does

theorem keeps_parse {files : List Path} (kind : String)
    (hfiles : ∀ file ∈ files, File.IsIncluded subject.config.excludedDirectories file) :
    Keeps subject directory (Outcome.ShowsOnly (IsIncluded subject))
      (Parsing.parse subject files kind) := by
  unfold Parsing.parse
  refine .ite (keeps_skip _ _) (.bind (.lift_reads (Suits.reads_find _) (.always _)) fun found _ => ?_)
  cases found with
  | none => exact keeps_skip _ _
  | some executable =>
    refine .bind (.lift_any (does_parse _ _)) fun found _ => ?_
    refine .bind (.lift_reads (Suits.reads_byPath _) (.always _)) fun faults _ => keeps_each ?_
    intro file hfile
    refine .bind (.lift_reads (reads_resolve _) (.always _)) fun path _ => .of_pure ?_
    intro violation hviolation
    obtain ⟨fault, -, rfl⟩ := List.mem_map.mp hviolation
    exact ⟨file, rfl, (hfiles file hfile).included⟩

theorem keeps_modules :
    Keeps subject directory (Outcome.ShowsOnly (IsIncluded subject)) (Parsing.modules subject) :=
  .bind (.lift_reads (File.reads_withSuffix _ _ _) (File.gives_withSuffix _ _ _))
    fun _ hfiles => keeps_parse _ hfiles

theorem keeps_scripts :
    Keeps subject directory (Outcome.ShowsOnly (IsIncluded subject)) (Parsing.scripts subject) :=
  .bind (.lift_reads (File.reads_withSuffix _ _ _) (File.gives_withSuffix _ _ _))
    fun _ hfiles => keeps_parse _ fun file hfile => hfiles file (List.mem_of_mem_filter hfile)

/-! ## The findings of the script analyzer -/

theorem does_analyze (subject : Subject) : Does (Effect.IsWork []) (Analyzer.analyze subject) := by
  unfold Analyzer.analyze
  refine .bind (Suits.reads_find _).does fun found => ?_
  cases found with
  | none => exact .pure _
  | some executable =>
    have hfindings : Does (Effect.IsWork []) (Tool.Pwsh.analyze? (subject.session executable)) :=
      .bind (Tool.Pwsh.work_run _ _ _) fun _ => Suits.reads_reading.does
    refine .bind hfindings fun findings => ?_
    cases findings with
    | none => exact .pure _
    | some findings => exact .get_bind fun _ => .pure _

/-- The path of a finding that is in scope is that of no excluded directory, if it has one. -/
theorem shows_violation {finding : Tool.Pwsh.Finding}
    (hscope : Analyzer.isInScope subject directory finding = true) :
    (Analyzer.violation subject directory finding).Shows (IsIncluded subject) := by
  unfold Analyzer.isInScope at hscope
  by_cases hempty : finding.script.isEmpty = true
  · left
    simp only [Analyzer.violation, Violation.atPlace, Violation.normalize, if_pos hempty]
    decide
  · right
    rw [Bool.or_eq_true, or_iff_right hempty] at hscope
    cases hfile : Analyzer.relative? subject.root directory finding.script with
    | none =>
      rw [hfile] at hscope
      cases hscope
    | some file =>
      rw [hfile, Option.any_some] at hscope
      use file
      constructor
      · simp [Violation.IsAt, Analyzer.violation, Violation.atPlace, Violation.normalize, hempty,
          hfile]
      · simpa [IsIncluded] using hscope

theorem keeps_select (isWanted : Tool.Pwsh.Finding → Bool) :
    Keeps subject directory (Outcome.ShowsOnly (IsIncluded subject))
      (Analyzer.select subject isWanted) := by
  unfold Analyzer.select
  refine .bind (Analyzer.keeps_findings (does_analyze subject)) fun result hresult => ?_
  cases result with
  | error reason => exact keeps_skip _ _
  | ok findings =>
    refine .bind Keeps.getHost fun host hhost => .of_pure ?_
    intro violation hviolation
    obtain ⟨finding, hfinding, rfl⟩ := List.mem_map.mp hviolation
    rw [hhost]
    exact shows_violation (hresult findings rfl finding (List.mem_of_mem_filter hfinding))

/-! ## The manifest -/

theorem keeps_content :
    Keeps subject directory (fun _ => True) (Manifest.content subject) := by
  intro known host hknown content known' after hend
  unfold Manifest.content at hend
  obtain ⟨shared, _, _, hget, hend⟩ := Checking.exec_bind_eq_ok hend
  cases hget
  cases hmanifest : known.manifest with
  | some found =>
    rw [hmanifest] at hend
    cases hend
    exact ⟨trivial, hknown⟩
  | none =>
    rw [hmanifest] at hend
    obtain ⟨found, _, between, hlifted, hend⟩ := Checking.exec_bind_eq_ok hend
    obtain ⟨hload, hsame⟩ := Checking.exec_lift_eq_ok hlifted
    have hafter := (Suits.reads_loadManifest subject.root).exec_snd host
    rw [hload] at hafter
    cases hend
    have hsame : after = host := hafter
    rw [hsame]
    exact ⟨trivial, hknown.directory_eq, hknown.inScope⟩

/-- A file in the root directory of the module lies in no directory that could be excluded. -/
theorem isAt_name {violation : Violation} {name : String}
    (hpath : violation.path = Violation.trimmed name) :
    ∃ file, violation.IsAt file ∧ IsIncluded subject file := by
  have htext : (⟨.relative, [name]⟩ : Path).toString = name := by
    rw [Path.toString_of_relative rfl (by simp)]
    simp
  use ⟨.relative, [name]⟩
  constructor
  · unfold Violation.IsAt
    rw [hpath, htext]
  · rfl

theorem showsOnly_singleton {shown : Path → Prop} {violation : Violation} {metrics : Table}
    (hviolation : violation.Shows shown) :
    Outcome.ShowsOnly shown (.found [violation] metrics) := by
  intro other hother
  rw [List.mem_singleton.mp hother]
  exact hviolation

theorem keeps_present :
    Keeps subject directory (Outcome.ShowsOnly (IsIncluded subject)) (Manifest.present subject) := by
  have hmissing : ∀ message, Outcome.ShowsOnly (IsIncluded subject)
      (.found [.ofModule "MANIFEST_MISSING" message] []) := by
    intro message
    have hpath : Violation.trimmed "" = "" := by decide
    exact showsOnly_singleton (.inl hpath)
  refine .bind (.lift_reads (Suits.reads_candidates _) (.always _)) fun candidates _ => ?_
  dsimp only
  split
  · exact .of_pure (Outcome.showsOnly_nil _ _ _ _)
  · exact .ite (.of_pure (hmissing _)) (.of_pure (hmissing _))

theorem keeps_valid :
    Keeps subject directory (Outcome.ShowsOnly (IsIncluded subject)) (Manifest.valid subject) := by
  refine .bind keeps_content fun content _ => ?_
  cases content with
  | absent => exact keeps_skip _ _
  | unreadable name reason => exact .of_pure (showsOnly_singleton (.inr (isAt_name rfl)))
  | entries name table =>
    apply Keeps.of_pure
    intro violation hviolation
    obtain ⟨fault, -, rfl⟩ := List.mem_map.mp hviolation
    exact .inr (isAt_name rfl)

theorem showsOnly_versionOutcome (name minimum : String) (wanted : Option Value) :
    Outcome.ShowsOnly (IsIncluded subject) (Manifest.versionOutcome name minimum wanted) := by
  unfold Manifest.versionOutcome
  split
  · exact showsOnly_singleton (.inr (isAt_name rfl))
  split
  · exact showsOnly_singleton (.inr (isAt_name rfl))
  split
  · exact showsOnly_singleton (.inr (isAt_name rfl))
  · exact Outcome.showsOnly_nil _ _ _ _

theorem keeps_powerShellVersion :
    Keeps subject directory (Outcome.ShowsOnly (IsIncluded subject))
      (Manifest.powerShellVersion subject) := by
  refine .bind keeps_content fun content _ => ?_
  cases content with
  | absent => exact keeps_skip _ _
  | unreadable name reason => exact keeps_skip _ _
  | entries name table => exact .of_pure (showsOnly_versionOutcome _ _ _)

/-! ## Resources -/

/-- The directory of a resource, in the directory that holds the resources. -/
def IsResource (path : Path) : Prop :=
  ∃ container resource, Text.lowerString container = "dscresources" ∧
    path = ⟨.relative, [container, resource]⟩

/-- The directory of a resource, or something in it. -/
def IsOfResource (path : Path) : Prop :=
  ∃ directory, IsResource directory ∧ (path = directory ∨ ∃ name, path = directory.child name)

theorem gives_directories (root : Path) :
    Action.Gives (fun directories => ∀ directory ∈ directories, IsResource directory)
      (Resource.directories root) := by
  have hcontainer : Action.Gives (fun found => ∀ container, found = some container →
      Text.lowerString container = "dscresources") (Resource.container? root) := by
    unfold Resource.container?
    refine .bind (.always _) fun names _ => .of_pure fun container hfound => ?_
    simpa using List.find?_some hfound
  unfold Resource.directories
  refine hcontainer.bind fun found hfound => ?_
  cases found with
  | none => exact .of_pure (by simp)
  | some container =>
    refine .bind (.always _) fun names _ => .of_pure ?_
    intro directory hdirectory
    obtain ⟨resource, -, rfl⟩ := List.mem_map.mp hdirectory
    exact ⟨container, resource, hfound container rfl, rfl⟩

theorem gives_directoriesWith (subject : Subject) (suffix : String) :
    Action.Gives (fun directories => ∀ directory ∈ directories, IsResource directory)
      (Resource.directoriesWith subject suffix) := by
  unfold Resource.directoriesWith
  refine (gives_directories subject.root).bind fun directories hdirectories => ?_
  intro host kept after hend directory hdirectory
  exact hdirectories directory (gives_filterM _ directories host kept after hend directory hdirectory)

/-- What is found in the directories of resources shows them or files in them. -/
theorem keeps_resources {directories : List Path} {step : Path → Checking (List Violation)}
    {metrics : Table} (hdirectories : ∀ directory ∈ directories, IsResource directory)
    (hstep : ∀ resource, Keeps subject directory (fun part => ∀ violation ∈ part,
      ∃ path, violation.IsAt path ∧ (path = resource ∨ ∃ name, path = resource.child name))
      (step resource)) :
    Keeps subject directory (Outcome.ShowsOnly IsOfResource) (do
      let violations ← directories.mapM step
      return .found violations.flatten metrics) := by
  apply keeps_each
  intro resource hresource
  apply (hstep resource).mono
  intro part hpart violation hviolation
  obtain ⟨path, hat, hpath⟩ := hpart violation hviolation
  exact ⟨path, hat, resource, hdirectories resource hresource, hpath⟩

theorem keeps_filesPresent :
    Keeps subject directory (Outcome.ShowsOnly IsOfResource) (Resource.filesPresent subject) := by
  unfold Resource.filesPresent
  refine .bind (.lift_reads (Suits.reads_directories _) (gives_directories _))
    fun directories hdirectories => .ite (keeps_skip _ _) (keeps_resources hdirectories ?_)
  intro resource
  refine .bind (Keeps.compositional.filterM fun suffix _ => ?_) fun missing _ => .of_pure ?_
  · exact .bind (.lift_reads (reads_isFile _) (.always _)) fun _ _ => .of_pure trivial
  · intro violation hviolation
    obtain ⟨suffix, -, rfl⟩ := List.mem_map.mp hviolation
    exact ⟨resource, rfl, .inl rfl⟩

theorem keeps_schemaValid :
    Keeps subject directory (Outcome.ShowsOnly IsOfResource) (Resource.schemaValid subject) := by
  unfold Resource.schemaValid
  refine .bind (.lift_reads (Suits.reads_directoriesWith _) (gives_directoriesWith _ _))
    fun directories hdirectories => .ite (keeps_skip _ _) (keeps_resources hdirectories ?_)
  intro resource
  refine .bind (.lift_reads (Suits.reads_readText _) (.always _)) fun text _ => .of_pure ?_
  intro violation hviolation
  obtain ⟨problem, -, rfl⟩ := List.mem_map.mp hviolation
  exact ⟨Resource.file resource Resource.schemaSuffix, rfl, .inr ⟨_, rfl⟩⟩

theorem keeps_functions :
    Keeps subject directory (Outcome.ShowsOnly IsOfResource) (Resource.functions subject) := by
  unfold Resource.functions
  refine .bind (.lift_reads (Suits.reads_directoriesWith _) (gives_directoriesWith _ _))
    fun directories hdirectories => .ite (keeps_skip _ _) (keeps_resources hdirectories ?_)
  intro resource
  refine .bind (.lift_reads (Suits.reads_readText _) (.always _)) fun text _ => .of_pure ?_
  intro violation hviolation
  obtain ⟨name, -, hviolation⟩ := List.mem_filterMap.mp hviolation
  use Resource.file resource Resource.moduleSuffix
  constructor
  · unfold Resource.functionViolation? at hviolation
    dsimp only at hviolation
    split at hviolation
    · rw [← Option.some.inj hviolation]
      exact Violation.isAt_ofFile _ _ _
    split at hviolation
    · rw [← Option.some.inj hviolation]
      exact Violation.isAt_ofFile _ _ _
    · cases hviolation
  · exact .inr ⟨_, rfl⟩

/-! ## Examples -/

/-- The path from the root directory of the module to a file that a walk through the directory of the
examples finds. -/
def IsOfExample (subject : Subject) (path : Path) : Prop :=
  ∃ found, File.IsIncluded subject.config.excludedDirectories found ∧
    ((Examples.directory subject).join found).relativeTo? subject.root = some path

theorem gives_exampleFiles (subject : Subject) :
    Action.Gives (fun files => ∀ file ∈ files, ∃ found,
      File.IsIncluded subject.config.excludedDirectories found ∧
        file = (Examples.directory subject).join found) (Examples.files subject) := by
  unfold Examples.files
  refine .bind (.always _) fun found _ => .ite (fun _ => ?_) fun _ => .of_pure (by simp)
  refine .bind (File.gives_withSuffix _ _ _) fun files hfiles => .of_pure ?_
  intro file hfile
  obtain ⟨found, hfound, rfl⟩ := List.mem_map.mp hfile
  exact ⟨found, hfiles found hfound, rfl⟩

theorem gives_relative (subject : Subject) (file : Path) :
    Action.Gives (fun path => file.relativeTo? subject.root = some path)
      (Examples.relative subject file) := by
  unfold Examples.relative
  cases hrelative : file.relativeTo? subject.root with
  | none => exact .of_throw _
  | some path => exact .of_pure rfl

theorem isAt_of_violation? {path : Path} {compilation : Option Tool.Pwsh.Compilation}
    {violation : Violation} (hviolation : Examples.violation? path.toString compilation = some violation) :
    violation.IsAt path := by
  cases compilation with
  | none =>
    rw [← Option.some.inj hviolation]
    exact Violation.isAt_ofFile _ _ path
  | some compilation =>
    unfold Examples.violation? at hviolation
    dsimp only at hviolation
    by_cases hpassed : compilation.passed = true
    · rw [if_pos hpassed] at hviolation
      cases hviolation
    · rw [if_neg hpassed] at hviolation
      rw [← Option.some.inj hviolation]
      exact Violation.isAt_ofFile _ _ path

theorem does_compile (hsubject : subject.evidence.IsNormal) (session : Tool.Pwsh.Session)
    (files : List Path) :
    Does (Effect.IsWork subject.evidence.parts)
      (Tool.Pwsh.compile session files (subject.evidence.child "examples")) := by
  unfold Tool.Pwsh.compile
  apply Does.bind (suits_work hsubject).directory
  intro made
  apply Does.bind (Tool.Pwsh.work_run _ _ _)
  intro result
  exact Suits.reads_reading.does

theorem keeps_compile (hsubject : subject.evidence.IsNormal) :
    Keeps subject directory (Outcome.ShowsOnly (IsOfExample subject)) (Examples.compile subject) := by
  unfold Examples.compile
  refine .bind (.lift_reads (Suits.reads_exampleFiles _) (gives_exampleFiles _)) fun files hfiles => ?_
  refine .ite (keeps_skip _ _) (.bind (.lift_reads (Suits.reads_find _) (.always _)) fun found _ => ?_)
  cases found with
  | none => exact keeps_skip _ _
  | some executable =>
    refine .bind (.lift_any (does_compile hsubject _ _)) fun found _ => ?_
    refine .bind (.lift_reads (Suits.reads_byPath _) (.always _)) fun compilations _ => ?_
    have hloop : ∀ {step : Path → Checking (String × Option Tool.Pwsh.Compilation)},
        (∀ file ∈ files, Keeps subject directory (fun result => ∃ path : Path,
          result.1 = path.toString ∧ IsOfExample subject path) (step file)) → _ := Keeps.mapM
    refine .bind (hloop fun file hfile => ?_) fun results hresults => .of_pure ?_
    · refine .bind (.lift_reads (Suits.reads_relative _ _) (gives_relative _ _)) fun path hpath => ?_
      refine .bind (.lift_reads (reads_resolve _) (.always _)) fun place _ => .of_pure ?_
      obtain ⟨found, hfound, rfl⟩ := hfiles file hfile
      exact ⟨path, rfl, found, hfound, hpath⟩
    · intro violation hviolation
      obtain ⟨result, hresult, hviolation⟩ := List.mem_filterMap.mp hviolation
      obtain ⟨path, hpath, hexample⟩ := hresults result hresult
      rw [hpath] at hviolation
      exact .inr ⟨path, isAt_of_violation? hviolation, hexample⟩

theorem isExcluded_iff {excluded : List String} {path : Path} :
    path.isExcluded excluded = true ↔ ∃ part ∈ path.components.dropLast, part ∈ excluded := by
  simp [Path.isExcluded]

/-- A directory on the path of an example is on the path of the directory of the examples or on the way
from there to the example. -/
theorem mem_dropLast_of_isOfExample {path found : Path} (hfound : found.root = .relative)
    (hne : found.parts ≠ [])
    (hpath : ((Examples.directory subject).join found).relativeTo? subject.root = some path)
    {part : String} (hpart : part ∈ path.components.dropLast) :
    part ∈ (Path.ofString subject.config.examplesDirectory).components ∨
      part ∈ found.parts.dropLast := by
  let examples := Path.ofString subject.config.examplesDirectory
  have hcomponents := Path.components_join (Examples.directory subject) hfound
  unfold Path.relativeTo? at hpath
  split at hpath
  · cases hpath
    have hdropped : part ∈ (((Examples.directory subject).join found).components.drop
        subject.root.components.length).dropLast := hpart
    rw [hcomponents] at hdropped
    by_cases hrelative : examples.root = .relative
    · have hdirectory : (Examples.directory subject).components =
          subject.root.components ++ examples.parts := Path.components_join subject.root hrelative
      have hexamples : examples.components = examples.parts := by
        unfold Path.components
        rw [hrelative]
      rw [hdirectory, List.append_assoc, List.drop_left, List.dropLast_append_of_ne_nil hne,
        List.mem_append] at hdropped
      rwa [hexamples]
    · have hdirectory : Examples.directory subject = examples := by
        unfold Examples.directory Path.join
        exact if_pos (by simpa [Path.isAbsolute] using hrelative)
      rw [hdirectory, List.dropLast_drop_eq_drop_dropLast] at hdropped
      have hmem := (List.drop_sublist _ _).subset hdropped
      rwa [List.dropLast_append_of_ne_nil hne, List.mem_append] at hmem
  · cases hpath

/-- An example lies in an excluded directory only if the directory of the examples does or is one. -/
theorem excluded_of_isOfExample {path : Path} (hpath : IsOfExample subject path)
    (hexcluded : path.isExcluded subject.config.excludedDirectories = true) :
    ∃ part ∈ (Path.ofString subject.config.examplesDirectory).components,
      part ∈ subject.config.excludedDirectories := by
  obtain ⟨found, hfound, hrelative⟩ := hpath
  obtain ⟨part, hpart, hlisted⟩ := isExcluded_iff.mp hexcluded
  cases mem_dropLast_of_isOfExample hfound.relative hfound.ne_nil hrelative hpart with
  | inl hexamples => exact ⟨part, hexamples, hlisted⟩
  | inr hbelow =>
    have hincluded := hfound.included
    have hcomponents : found.components = found.parts := by
      unfold Path.components
      rw [hfound.relative]
    rw [← hcomponents] at hbelow
    rw [isExcluded_iff.mpr ⟨part, hbelow, hlisted⟩] at hincluded
    cases hincluded

/-! ## The lint task -/

theorem exists_shownPath_eq (root directory : Path) (raw : String) :
    ∃ path : Path, Tool.MarkdownIssue.shownPath root directory raw = path.toString := by
  unfold Tool.MarkdownIssue.shownPath
  dsimp only
  split
  · split <;> exact ⟨_, rfl⟩
  · exact ⟨_, rfl⟩

theorem exists_path_of_mem_readAll {root directory : Path} {output : List Char}
    {issue : Tool.MarkdownIssue} (hissue : issue ∈ Tool.MarkdownIssue.readAll root directory output) :
    ∃ path : Path, issue.path = path.toString := by
  obtain ⟨found, -, hfound⟩ := List.mem_map.mp hissue
  have hpath : issue.path = Tool.MarkdownIssue.shownPath root directory found.path := by
    rw [← hfound]
  rw [hpath]
  exact exists_shownPath_eq root directory found.path

theorem gives_issues (session : Tool.MarkdownLint.Session) :
    Action.Gives (fun found => ∀ issue ∈ found.2, ∃ path : Path, issue.path = path.toString)
      (Tool.MarkdownLint.run session) := by
  have hnever : ∀ code kind message,
      Action.Gives (fun _ => False) (fail message code kind : Action PUnit) :=
    fun code kind message => .of_throw _
  unfold Tool.MarkdownLint.run
  refine .bind (.always _) fun _ _ => .bind (.always _) fun _ _ => .bind (.always _) fun result _ => ?_
  refine .ite (fun _ => .of_fails (hnever _ _ _)) fun _ => ?_
  refine .bind (.always _) fun host _ => .of_pure ?_
  intro issue hissue
  dsimp only at hissue
  exact exists_path_of_mem_readAll hissue

/-- What the lint task prints is repeated, whatever it is about. -/
theorem keeps_lint (hsubject : subject.evidence.IsNormal) :
    Keeps subject directory (Outcome.ShowsOnly fun _ => True) (Markdown.lint subject) := by
  unfold Markdown.lint
  refine .bind (.lift_reads (File.reads_withSuffix _ _ _) (.always _)) fun files _ => ?_
  refine .ite (keeps_skip _ _) (.bind (.lift_reads (reads_findTool _) (.always _)) fun found _ => ?_)
  cases found with
  | none => exact keeps_skip _ _
  | some npm =>
    have hdoes : ∀ {session : Tool.MarkdownLint.Session}, session.directory.IsNormal →
        Does (Effect.IsWork []) (Tool.MarkdownLint.run session) :=
      fun hdirectory => Tool.MarkdownLint.work_run hdirectory List.nil_prefix
    have hnormal : (subject.evidence.child "markdown").IsNormal := hsubject.child (by decide)
    refine .bind (.lift (hdoes hnormal) (gives_issues _)) fun found hissues => .of_pure ?_
    intro violation hviolation
    unfold Markdown.violations at hviolation
    split at hviolation
    · have hpath : Violation.trimmed "" = "" := by decide
      rw [List.mem_singleton.mp hviolation]
      exact .inl hpath
    · obtain ⟨issue, hissue, rfl⟩ := List.mem_map.mp hviolation
      obtain ⟨path, hpath⟩ := hissues issue hissue
      right
      use path
      constructor
      · unfold Violation.IsAt
        rw [← hpath]
        rfl
      · trivial

/-! ## All checks -/

/-- Why a path that a check shows can lie in an excluded directory: the check looks into the directory
of the resources and those in it, or begins with the directory of the examples, or repeats what the lint
task prints, and does not ask whether the directory is excluded. -/
inductive Strays (subject : Subject) (check : Check) (path : Path) : Prop where
  | resource (hdomain : check.domain = "resources") {container resource : String}
      (hcontainer : Text.lowerString container = "dscresources")
      (hpath : [container, resource] <+: path.parts)
      (hlisted : container ∈ subject.config.excludedDirectories ∨
        resource ∈ subject.config.excludedDirectories)
  | examples (hdomain : check.domain = "examples") {part : String}
      (hpart : part ∈ (Path.ofString subject.config.examplesDirectory).components)
      (hlisted : part ∈ subject.config.excludedDirectories)
  | issue (hdomain : check.domain = "markdown")

/-- The path lies in no excluded directory, or the check does not ask. -/
def MayShow (subject : Subject) (check : Check) (path : Path) : Prop :=
  path.isExcluded subject.config.excludedDirectories = true → Strays subject check path

theorem mayShow_of_isIncluded {check : Check} {path : Path} (hpath : IsIncluded subject path) :
    MayShow subject check path := by
  intro hexcluded
  rw [hpath] at hexcluded
  cases hexcluded

theorem mayShow_of_isOfResource {check : Check} (hdomain : check.domain = "resources") {path : Path}
    (hpath : IsOfResource path) : MayShow subject check path := by
  intro hexcluded
  obtain ⟨part, hpart, hlisted⟩ := isExcluded_iff.mp hexcluded
  obtain ⟨directory, ⟨container, resource, hcontainer, rfl⟩, hpath⟩ := hpath
  have hstarts : [container, resource] <+: path.parts ∧ (part = container ∨ part = resource) := by
    cases hpath with
    | inl hsame =>
      rw [hsame] at hpart ⊢
      simp_all [Path.components]
    | inr hchild =>
      obtain ⟨name, hchild⟩ := hchild
      rw [hchild] at hpart ⊢
      simp_all [Path.components, Path.child]
  obtain ⟨hstarts, hpart⟩ := hstarts
  refine .resource hdomain hcontainer hstarts ?_
  cases hpart with
  | inl hfirst => exact .inl (hfirst ▸ hlisted)
  | inr hsecond => exact .inr (hsecond ▸ hlisted)

theorem mayShow_of_isOfExample {check : Check} (hdomain : check.domain = "examples") {path : Path}
    (hpath : IsOfExample subject path) : MayShow subject check path := by
  intro hexcluded
  obtain ⟨part, hpart, hlisted⟩ := excluded_of_isOfExample hpath hexcluded
  exact .examples hdomain hpart hlisted

theorem keeps_of_mem_all (hsubject : subject.evidence.IsNormal) {check : Check}
    (hcheck : check ∈ all) :
    Keeps subject directory (Outcome.ShowsOnly (MayShow subject check)) (check.run subject) := by
  have hwalk : ∀ (check : Check) {step : Checking Outcome},
      Keeps subject directory (Outcome.ShowsOnly (IsIncluded subject)) step →
      Keeps subject directory (Outcome.ShowsOnly (MayShow subject check)) step := by
    intro check step hstep
    apply hstep.mono
    intro outcome houtcome
    exact houtcome.mono fun path => mayShow_of_isIncluded
  have hresource : ∀ {check : Check} {step : Checking Outcome}, check.domain = "resources" →
      Keeps subject directory (Outcome.ShowsOnly IsOfResource) step →
      Keeps subject directory (Outcome.ShowsOnly (MayShow subject check)) step := by
    intro check step hdomain hstep
    apply hstep.mono
    intro outcome houtcome
    exact houtcome.mono fun path => mayShow_of_isOfResource hdomain
  simp only [all, formattingChecks, manifestChecks, resourceChecks, analyzerChecks, scriptChecks,
    otherChecks, List.mem_append, List.mem_cons, List.not_mem_nil, or_false] at hcheck
  -- one case for each check, in the order of the catalogue
  rcases hcheck with (((((rfl | rfl | rfl | rfl) | rfl | rfl | rfl) | rfl | rfl | rfl) | rfl | rfl |
    rfl | rfl) | rfl | rfl | rfl) | rfl | rfl
  · exact hwalk _ keeps_encoding
  · exact hwalk _ keeps_tabCharacters
  · exact hwalk _ keeps_finalNewline
  · exact hwalk _ keeps_markdownMark
  · exact hwalk _ keeps_present
  · exact hwalk _ keeps_valid
  · exact hwalk _ keeps_powerShellVersion
  · exact hresource rfl keeps_filesPresent
  · exact hresource rfl keeps_schemaValid
  · exact hresource rfl keeps_functions
  · exact hwalk _ (keeps_select _)
  · exact hwalk _ (keeps_select _)
  · exact hwalk _ (keeps_select _)
  · exact hwalk _ keeps_parameterRules
  · exact hwalk _ keeps_modules
  · exact hwalk _ keeps_scripts
  · apply (keeps_compile hsubject).mono
    intro outcome houtcome
    exact houtcome.mono fun path => mayShow_of_isOfExample rfl
  · apply (keeps_lint hsubject).mono
    intro outcome houtcome
    exact houtcome.mono fun path _ _ => .issue rfl
  · exact hwalk _ keeps_relativeLength

/-! ## Runs -/

/-- An attempt that fails leaves what is shared as it was. -/
theorem keeps_attempt {allowed : Effect → Prop} {step : Checking α} {post : α → Prop}
    (hdoes : Always (fun _ => Does allowed) step) (hstep : Keeps subject directory post step) :
    Keeps subject directory (fun ending => ∀ a, ending = .ok a → post a) (attempt step) := by
  intro known host hknown ending known' after hend
  rw [exec_attempt] at hend
  have hafter := (hdoes known).directory_eq host
  rcases hrun : (step.run known).exec host with ⟨failure | ⟨a, known''⟩, last⟩
  · rw [hrun] at hend hafter
    cases hend
    exact ⟨nofun, hafter.trans hknown.directory_eq, hknown.inScope⟩
  · rw [hrun] at hend
    have hstep := hstep known host hknown a known'' last hrun
    cases hend
    exact ⟨fun b hb => by cases hb; exact hstep.1, hstep.2⟩

theorem violations_resultOf_subset (check : Check) (optedIn : Bool) (milliseconds : Nat)
    (outcome : Outcome) :
    (resultOf check optedIn milliseconds outcome).violations ⊆ outcome.violations := by
  intro violation hviolation
  unfold resultOf at hviolation
  dsimp only at hviolation
  split at hviolation
  · exact List.mem_mergeSort.mp (List.mem_of_mem_filter hviolation)
  · exact List.mem_mergeSort.mp hviolation

theorem check_resultOf (check : Check) (optedIn : Bool) (milliseconds : Nat) (outcome : Outcome) :
    (resultOf check optedIn milliseconds outcome).check = check := by
  unfold resultOf
  dsimp only
  split <;> rfl

/-- The violations in a result show what the check may show. -/
def Result.ShowsOnly (subject : Subject) (result : Result) : Prop :=
  ∀ violation ∈ result.violations, violation.Shows (MayShow subject result.check)

theorem keeps_runOne (hsubject : subject.evidence.IsNormal) (optIn : OptIn) {check : Check}
    (hcheck : check ∈ all) :
    Keeps subject directory (Result.ShowsOnly subject) (runOne subject optIn check) := by
  have hrun : Keeps subject directory (Outcome.ShowsOnly (MayShow subject check))
      (check.run subject) := keeps_of_mem_all hsubject hcheck
  have hattempt := keeps_attempt (work_of_mem_all hsubject hcheck) hrun
  unfold runOne
  refine .bind .getHost fun started _ => .bind hattempt fun ending hending => ?_
  refine .bind .getHost fun ended _ => ?_
  cases ending with
  | error failure => exact .of_pure (by simp [Result.ShowsOnly, brokenResult])
  | ok outcome =>
    apply Keeps.of_pure
    intro violation hviolation
    rw [check_resultOf]
    exact hending outcome rfl violation (violations_resultOf_subset _ _ _ _ hviolation)

theorem keeps_log? (settings : Option LogSettings) (event : Event) :
    Keeps subject directory (fun _ => True) (liftM (Action.log? settings event) : Checking Unit) := by
  have hdoes : Does (fun _ => True) (Action.log? settings event) := does_log? _ _ fun _ => trivial
  exact .lift_any hdoes

/-- The results of a whole run, each check of which finds what is shared as the others left it. -/
theorem keeps_runAll (hsubject : subject.evidence.IsNormal) (optIn : OptIn) (failFast : Bool)
    {checks : List Check} (hchecks : ∀ check ∈ checks, check ∈ all) :
    Keeps subject directory (fun results => ∀ result ∈ results, result.ShowsOnly subject)
      (runAll subject optIn failFast checks) := by
  induction checks with
  | nil => exact .of_pure (by simp)
  | cons check checks ih =>
    have hrest := ih fun other hother => hchecks other (List.mem_cons_of_mem _ hother)
    unfold runAll
    refine .bind (keeps_log? _ _) fun _ _ => ?_
    refine .bind (keeps_runOne hsubject optIn (hchecks check List.mem_cons_self))
      fun result hresult => ?_
    refine .bind (keeps_log? _ _) fun _ _ => .ite (.of_pure (by simpa using hresult)) ?_
    refine .bind hrest fun results hresults => .of_pure ?_
    intro other hother
    cases List.mem_cons.mp hother with
    | inl hhead => rwa [hhead]
    | inr htail => exact hresults other htail

/-- The path of a violation is that of no excluded directory, unless the check does not ask; and a plain
path is just what the violation shows. -/
def Avoids (subject : Subject) (check : Check) (violation : Violation) : Prop :=
  violation.path = "" ∨ ∃ path, violation.IsAt path ∧
    (path.IsPlain → Path.ofString violation.path = path) ∧
    (path.isExcluded subject.config.excludedDirectories = true → Strays subject check path)

theorem avoids_of_shows {check : Check} {violation : Violation}
    (hshows : violation.Shows (MayShow subject check)) : Avoids subject check violation := by
  cases hshows with
  | inl hnone => exact .inl hnone
  | inr hsome =>
    obtain ⟨path, hat, hpath⟩ := hsome
    right
    use path, hat
    constructor
    · intro hplain
      have hshown : violation.path = path.toString := by rw [hat, hplain.trimmed]
      rw [hshown, hplain.ofString_toString]
    · exact hpath

theorem showsOnly_of_exec_runChecks (hsubject : subject.evidence.IsNormal) {optIn : OptIn}
    {failFast : Bool} {checks : List Check} (hchecks : ∀ check ∈ checks, check ∈ all)
    {host after : Host} {summary : Summary}
    (hend : (runChecks subject checks optIn failFast).exec host = (.ok summary, after)) :
    ∀ result ∈ summary.results, result.ShowsOnly subject := by
  unfold runChecks at hend
  obtain ⟨started, _, hget, hend⟩ := exec_bind_eq_ok hend
  cases hget
  obtain ⟨⟨results, known⟩, between, hrun, hend⟩ := exec_bind_eq_ok hend
  obtain ⟨ended, _, hget, hend⟩ := exec_bind_eq_ok hend
  cases hget
  cases hend
  exact (keeps_runAll hsubject optIn failFast hchecks _ _ (Findings.isSound_none subject _) results
    known _ hrun).1

/-- A module with a resource that has no files. -/
def strayHost : Host :=
  .holding ⟨[(["m"], .directory), (["m", "DSCResources"], .directory),
    (["m", "DSCResources", "A"], .directory)]⟩ ⟨.slash, ["m"]⟩

/-- The configuration of the module excludes the directory of its resources. -/
def straySubject : Subject :=
  { Subject.ofModule "m" with
    config := { Config.default with excludedDirectories := ["DSCResources"] } }

theorem filesPresent_strays :
    ∃ outcome known after, ((Resource.filesPresent straySubject).run Findings.none).exec strayHost =
        (.ok (outcome, known), after) ∧
      ∃ violation ∈ outcome.violations, violation.path = "DSCResources/A" := by
  have hpaths : (match (((Resource.filesPresent straySubject).run Findings.none).exec strayHost).1 with
      | .ok found => found.1.violations.map Violation.path
      | .error _ => []) = ["DSCResources/A", "DSCResources/A"] := by
    decide +kernel
  rcases hend : ((Resource.filesPresent straySubject).run Findings.none).exec strayHost with
    ⟨failure | ⟨outcome, known⟩, after⟩
  · rw [hend] at hpaths
    cases hpaths
  · rw [hend] at hpaths
    dsimp only at hpaths
    have hmem : "DSCResources/A" ∈ outcome.violations.map Violation.path := by
      rw [hpaths]
      exact List.mem_cons_self
    obtain ⟨violation, hviolation, hpath⟩ := List.mem_map.mp hmem
    exact ⟨outcome, known, after, rfl, violation, hviolation, hpath⟩

theorem filesPresent_mem_all : ∃ check ∈ all, check.run = Resource.filesPresent := by
  refine ⟨resourceChecks.head (by decide), ?_, rfl⟩
  simp [all, resourceChecks]

end Check

end DscAudit

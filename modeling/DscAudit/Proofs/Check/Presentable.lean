import DscAudit.Proofs.Check.Invariant
import DscAudit.Proofs.Check.Scope
import DscAudit.Proofs.Report.Shape
import DscAudit.Proofs.Tool.Pwsh

/-!
# What checks find can be shown

Every violation has a code, since those without one get a generic one.  Its place is counted by the
check itself, or it is one that a tool reports; so it is not negative if no tool reports such a place.
-/

namespace DscAudit

open DscAudit.Action

namespace Entries

variable {α : Type} {P : α → Prop}

theorem forall_insert {key : String} {value : α} {entries : Entries α} (hvalue : P value)
    (hentries : ∀ entry ∈ entries, P entry.2) : ∀ entry ∈ entries.insert key value, P entry.2 := by
  induction entries with
  | nil => exact List.forall_mem_singleton.mpr hvalue
  | cons first entries ih =>
    rw [List.forall_mem_cons] at hentries
    unfold insert
    split
    · exact List.forall_mem_cons.mpr ⟨hvalue, hentries.2⟩
    · exact List.forall_mem_cons.mpr ⟨hentries.1, ih hentries.2⟩

/-- The last values under keys are values of the list. -/
theorem forall_ofList {entries : List (String × α)} (hentries : ∀ entry ∈ entries, P entry.2) :
    ∀ entry ∈ ofList entries, P entry.2 := by
  have hfold : ∀ (rest : List (String × α)) (table : Entries α), (∀ entry ∈ rest, P entry.2) →
      (∀ entry ∈ table, P entry.2) →
      ∀ entry ∈ rest.foldl (fun table entry => table.insert entry.1 entry.2) table, P entry.2 := by
    intro rest
    induction rest with
    | nil => exact fun _ _ htable => htable
    | cons entry rest ih =>
      intro table hrest htable
      rw [List.forall_mem_cons] at hrest
      exact ih _ hrest.2 (forall_insert hrest.1 htable)
  exact hfold entries [] hentries nofun

theorem of_get? {key : String} {value : α} {entries : Entries α}
    (hentries : ∀ entry ∈ entries, P entry.2) (hget : entries.get? key = some value) : P value := by
  induction entries with
  | nil => cases hget
  | cons entry entries ih =>
    rw [List.forall_mem_cons] at hentries
    rw [get?] at hget
    split at hget
    · exact Option.some.inj hget ▸ hentries.1
    · exact ih hentries.2 hget

end Entries

theorem Action.does_of_work {α : Type} {step : Action α}
    (hwork : ∀ evidence, Does (Effect.IsWork evidence) step) : Does (fun _ => True) step :=
  (hwork []).mono fun _ _ => trivial

namespace Tool.Pwsh

/-- No line and no column that is read from the value is negative. -/
structure HasPlaces (value : Value) : Prop where
  findings : ∀ findings, findings? value = .ok (some findings) →
    ∀ finding ∈ findings, 0 ≤ finding.line ∧ 0 ≤ finding.column
  faults : ∀ rows scripts, value.parts = .ok rows → rows.mapM parsed = .ok scripts →
    ∀ script ∈ scripts, ∀ fault ∈ script.2, 0 ≤ fault.line ∧ 0 ≤ fault.column

/-- No line and no column that the process reports is negative. -/
def ReportsPlaces (result : ProcessResult) : Prop :=
  ∀ value, answer? result = some value → HasPlaces value

theorem maintains_run (session : Session) (script : String) (overrides : List (String × String)) :
    Maintains ReportsPlaces HasPlaces (run session script overrides) := by
  intro host hhost
  constructor
  · have hdoes : Does (fun _ => True) (run session script overrides) :=
      does_of_work fun evidence => work_run session script overrides
    exact (Maintains.any hdoes host hhost).1
  · intro value hend
    obtain ⟨ending, after, hrun, hanswer, -⟩ := exec_run session script overrides host
    rw [hrun] at hend
    obtain rfl : ending = .ok value := hend
    cases hresults : host.results with
    | nil =>
      rw [hresults] at hanswer
      cases hanswer
    | cons result results =>
      rw [hresults] at hanswer
      have hmem : result ∈ host.results := by
        rw [hresults]
        exact List.mem_cons_self
      exact hhost result hmem value hanswer.symm

theorem gives_reading {α : Type} (result : Except Defect α) :
    Gives (fun a => result = .ok a) (reading result) := by
  cases result with
  | ok a => exact .of_pure rfl
  | error defect => exact .of_throw _

theorem maintains_analyze? (session : Session) :
    Maintains ReportsPlaces (fun found => ∀ findings, found = some findings →
      ∀ finding ∈ findings, 0 ≤ finding.line ∧ 0 ≤ finding.column) (analyze? session) := by
  unfold analyze?
  apply (maintains_run _ _ _).bind
  intro value hvalue
  apply (Maintains.of_reads Check.Suits.reads_reading (gives_reading _)).mono
  rintro found hfound findings rfl
  exact hvalue.findings findings hfound

theorem maintains_parse (session : Session) (files : List Path) :
    Maintains ReportsPlaces (fun scripts => ∀ script ∈ scripts, ∀ fault ∈ script.2,
      0 ≤ fault.line ∧ 0 ≤ fault.column) (parse session files) := by
  unfold parse
  apply (maintains_run _ _ _).bind
  intro value hvalue
  apply (Maintains.of_reads Check.Suits.reads_reading (gives_reading _)).mono
  intro scripts hscripts
  rcases hparts : value.parts with defect | rows
  · rw [hparts] at hscripts
    cases hscripts
  rw [hparts] at hscripts
  change (rows.mapM parsed >>= fun read => .ok (Entries.ofList read)) = .ok scripts at hscripts
  rcases hread : rows.mapM parsed with defect | read
  · rw [hread] at hscripts
    cases hscripts
  rw [hread] at hscripts
  cases hscripts
  exact Entries.forall_ofList (P := fun faults : List SyntaxFault =>
    ∀ fault ∈ faults, 0 ≤ fault.line ∧ 0 ≤ fault.column) (hvalue.faults rows read hparts hread)

end Tool.Pwsh

namespace Check

open Checking
open Tool.Pwsh (Finding ReportsPlaces)

variable {subject : Subject}

/-- All violations of the outcome can be shown. -/
def ArePresentable (outcome : Outcome) : Prop :=
  ∀ violation ∈ outcome.violations, violation.IsPresentable

/-- No line and no column of the findings that are known is negative. -/
def HasPlaces (known : Findings) : Prop :=
  ∀ findings, known.analyzer = some (.ok findings) →
    ∀ finding ∈ findings, 0 ≤ finding.line ∧ 0 ≤ finding.column

/-- If no tool reports a negative place, then what the step finds can be shown. -/
abbrev Presents (step : Checking Outcome) : Prop :=
  Maintains ReportsPlaces HasPlaces ArePresentable step

abbrev PresentsPart (step : Checking (List Violation)) : Prop :=
  Maintains ReportsPlaces HasPlaces (fun part => ∀ violation ∈ part, violation.IsPresentable) step

theorem presentable_ofFile (code message path : String) :
    (Violation.ofFile code message path).IsPresentable :=
  ⟨Violation.code_normalize_ne_empty _, Int.le_refl 0, Int.le_refl 0⟩

theorem presentable_ofModule (code message : String) : (Violation.ofModule code message).IsPresentable :=
  ⟨Violation.code_normalize_ne_empty _, Int.le_refl 0, Int.le_refl 0⟩

theorem presentable_atPlace (code message path : String) {line column : Int} (hline : 0 ≤ line)
    (hcolumn : 0 ≤ column) : (Violation.atPlace code message path line column).IsPresentable :=
  ⟨Violation.code_normalize_ne_empty _, hline, hcolumn⟩

theorem presentable_withSeverity {violation : Violation} (hviolation : violation.IsPresentable)
    (severity : Severity) : { violation with severity }.IsPresentable :=
  ⟨hviolation.code, hviolation.line, hviolation.column⟩

theorem presents_skip (reason : String) : Presents (pure (.skip reason)) := .of_pure nofun

theorem presents_nothing (metrics : Table) : Presents (pure (.found [] metrics)) := .of_pure nofun

theorem presents_one {violation : Violation} (hviolation : violation.IsPresentable) (metrics : Table) :
    Presents (pure (.found [violation] metrics)) :=
  .of_pure (List.forall_mem_singleton.mpr hviolation)

/-- Violations that are found item by item. -/
theorem presents_each {β : Type} {items : List β} {step : β → Checking (List Violation)}
    {metrics : Table} (hstep : ∀ item, PresentsPart (step item)) :
    Presents (do
      let violations ← items.mapM step
      return .found violations.flatten metrics) := by
  apply Maintains.bind (Maintains.mapM fun item _ => hstep item)
  intro parts hparts
  refine .of_pure fun violation hviolation => ?_
  obtain ⟨part, hpart, hmem⟩ := List.mem_flatten.mp hviolation
  exact hparts part hpart violation hmem

/-! ## Checks of files -/

theorem presents_inFiles (files : List Path) {look : String → Text.Octets → List Violation}
    (hlook : ∀ path content, ∀ violation ∈ look path content, violation.IsPresentable) :
    Presents (Formatting.inFiles subject files look) := by
  apply presents_each
  intro file
  apply Maintains.bind_reads (reads_readFile _)
  intro content
  exact .of_pure (hlook _ content)

theorem presents_encoding : Presents (Formatting.encoding subject) := by
  apply Maintains.bind_reads (File.reads_withExtension _ _ _)
  intro files
  apply presents_inFiles
  intro path content violation hviolation
  rw [List.mem_ite_nil_right, List.mem_singleton] at hviolation
  exact hviolation.2 ▸ presentable_ofFile _ _ _

theorem presents_tabCharacters : Presents (Formatting.tabCharacters subject) := by
  apply Maintains.bind_reads (File.reads_withExtension _ _ _)
  intro files
  apply presents_inFiles
  intro path content violation hviolation
  obtain ⟨place, -, rfl⟩ := List.mem_map.mp hviolation
  exact presentable_atPlace _ _ _ (Int.natCast_nonneg _) (Int.natCast_nonneg _)

theorem presents_finalNewline : Presents (Formatting.finalNewline subject) := by
  apply Maintains.bind_reads (File.reads_withExtension _ _ _)
  intro files
  apply presents_inFiles
  intro path content violation hviolation
  rw [List.mem_ite_nil_left, List.mem_singleton] at hviolation
  exact hviolation.2 ▸ presentable_ofFile _ _ _

theorem presents_markdownMark : Presents (Formatting.markdownMark subject) := by
  apply Maintains.bind_reads (File.reads_withSuffix _ _ _)
  intro files
  apply presents_inFiles
  intro path content violation hviolation
  rw [List.mem_ite_nil_right, List.mem_singleton] at hviolation
  exact hviolation.2 ▸ presentable_ofFile _ _ _

theorem presents_relativeLength : Presents (PathLength.relative subject) := by
  apply Maintains.bind_reads (File.reads_all _ _)
  intro files
  refine .of_pure fun violation hviolation => ?_
  obtain ⟨file, -, hfile⟩ := List.mem_filterMap.mp hviolation
  unfold PathLength.violation? at hfile
  dsimp only at hfile
  split at hfile
  · exact Option.some.inj hfile ▸ presentable_ofFile _ _ _
  · cases hfile

/-! ## Checks of the manifest and of resources -/

theorem maintains_content :
    Maintains ReportsPlaces HasPlaces (fun _ => True) (Manifest.content subject) := by
  unfold Manifest.content
  refine .bind .get fun known hknown => ?_
  split
  · exact .of_pure trivial
  · apply Maintains.bind_reads (Suits.reads_loadManifest _)
    intro content
    exact .bind (.set hknown) fun _ _ => .of_pure trivial

theorem presents_present : Presents (Manifest.present subject) := by
  apply Maintains.bind_reads (Suits.reads_candidates _)
  intro candidates
  dsimp only
  split
  · exact presents_nothing _
  · exact .ite (presents_one (presentable_ofModule _ _) _) (presents_one (presentable_ofModule _ _) _)

theorem presents_valid : Presents (Manifest.valid subject) := by
  apply Maintains.bind maintains_content
  intro content _
  cases content with
  | absent => exact presents_skip _
  | unreadable name reason => exact presents_one (presentable_ofFile _ _ _) _
  | entries name table =>
    exact .of_pure (List.forall_mem_map.mpr fun fault _ => presentable_ofFile _ _ _)

theorem presents_powerShellVersion : Presents (Manifest.powerShellVersion subject) := by
  apply Maintains.bind maintains_content
  intro content _
  cases content with
  | absent => exact presents_skip _
  | unreadable name reason => exact presents_skip _
  | entries name table =>
    show Presents (pure (Manifest.versionOutcome _ _ _))
    unfold Manifest.versionOutcome
    split
    · exact presents_one (presentable_ofFile _ _ _) _
    split
    · exact presents_one (presentable_ofFile _ _ _) _
    split
    · exact presents_one (presentable_ofFile _ _ _) _
    · exact presents_nothing _

theorem presents_filesPresent : Presents (Resource.filesPresent subject) := by
  apply Maintains.bind_reads (Suits.reads_directories _)
  intro directories
  apply Maintains.ite (presents_skip _)
  apply presents_each
  intro directory
  refine .bind (Maintains.compositional.filterM fun suffix _ => ?_) fun missing _ => ?_
  · exact .bind_reads (reads_isFile _) fun _ => .of_pure trivial
  · exact .of_pure (List.forall_mem_map.mpr fun suffix _ => presentable_ofFile _ _ _)

theorem presents_schemaValid : Presents (Resource.schemaValid subject) := by
  apply Maintains.bind_reads (Suits.reads_directoriesWith _)
  intro directories
  apply Maintains.ite (presents_skip _)
  apply presents_each
  intro directory
  apply Maintains.bind_reads (Suits.reads_readText _)
  intro text
  exact .of_pure (List.forall_mem_map.mpr fun problem _ => presentable_ofFile _ _ _)

theorem presents_functions : Presents (Resource.functions subject) := by
  apply Maintains.bind_reads (Suits.reads_directoriesWith _)
  intro directories
  apply Maintains.ite (presents_skip _)
  apply presents_each
  intro directory
  apply Maintains.bind_reads (Suits.reads_readText _)
  intro text
  refine .of_pure fun violation hviolation => ?_
  obtain ⟨name, -, hname⟩ := List.mem_filterMap.mp hviolation
  unfold Resource.functionViolation? at hname
  dsimp only at hname
  split at hname
  · exact Option.some.inj hname ▸ presentable_ofFile _ _ _
  split at hname
  · exact Option.some.inj hname ▸ presentable_ofFile _ _ _
  · cases hname

/-! ## Checks of scripts -/

theorem maintains_analyze :
    Action.Maintains ReportsPlaces (fun result => ∀ findings, result = .ok findings →
      ∀ finding ∈ findings, 0 ≤ finding.line ∧ 0 ≤ finding.column) (Analyzer.analyze subject) := by
  unfold Analyzer.analyze
  refine .bind (.any (Suits.reads_find _)) fun found _ => ?_
  cases found with
  | none => exact .of_pure nofun
  | some executable =>
    refine .bind (Tool.Pwsh.maintains_analyze? _) fun found hfound => ?_
    cases found with
    | none => exact .of_pure nofun
    | some all =>
      refine .bind .get fun host _ => .of_pure ?_
      rintro findings ⟨⟩ finding hfinding
      exact hfound all rfl finding (List.mem_of_mem_filter hfinding)

/-- The findings that a check gets have places, whether they were known or not. -/
theorem maintains_findings :
    Maintains ReportsPlaces HasPlaces (fun result => ∀ findings, result = .ok findings →
      ∀ finding ∈ findings, 0 ≤ finding.line ∧ 0 ≤ finding.column) (Analyzer.findings subject) := by
  unfold Analyzer.findings
  refine .bind .get fun known hknown => ?_
  split
  · rename_i found hfound
    refine .of_pure fun findings hfindings => hknown findings ?_
    rw [hfound, hfindings]
  · apply Maintains.bind (.lift maintains_analyze)
    intro found hfound
    refine .bind (.set fun findings hfindings => hfound findings ?_) fun _ _ => .of_pure hfound
    exact Option.some.inj hfindings

theorem presents_select (isWanted : Finding → Bool) : Presents (Analyzer.select subject isWanted) := by
  unfold Analyzer.select
  apply Maintains.bind maintains_findings
  intro result hresult
  cases result with
  | error reason => exact presents_skip _
  | ok findings =>
    apply Maintains.bind_reads .get
    intro host
    refine .of_pure fun violation hviolation => ?_
    obtain ⟨finding, hfinding, rfl⟩ := List.mem_map.mp hviolation
    obtain ⟨hline, hcolumn⟩ := hresult findings rfl finding (List.mem_of_mem_filter hfinding)
    exact presentable_atPlace _ _ _ hline hcolumn

theorem presents_parameterRules : Presents (Analyzer.parameterRules subject) := by
  apply Maintains.bind_reads (File.reads_withSuffix _ _ _)
  intro files
  apply presents_each
  intro file
  apply Maintains.bind_reads (reads_readFile _)
  intro content
  refine .of_pure fun violation hviolation => ?_
  obtain ⟨found, -, rfl⟩ := List.mem_map.mp hviolation
  apply presentable_withSeverity
  exact presentable_atPlace _ _ _ (Int.natCast_nonneg _) (Int.natCast_nonneg _)

theorem gives_byPath {α : Type} {P : α → Prop} {entries : List (String × α)}
    (hentries : ∀ entry ∈ entries, P entry.2) :
    Action.Gives (fun table => ∀ entry ∈ table, P entry.2) (Parsing.byPath entries) := by
  have hresolved : Action.Gives (fun resolved => ∀ entry ∈ resolved, P entry.2)
      (entries.mapM fun entry => do
        return ((← Action.resolve (Path.ofString entry.1)).toString, entry.2)) := by
    induction entries with
    | nil => exact .of_pure nofun
    | cons entry entries ih =>
      rw [List.forall_mem_cons] at hentries
      rw [List.mapM_cons]
      have hfirst : Action.Gives (fun found => P found.2) (do
          return ((← Action.resolve (Path.ofString entry.1)).toString, entry.2)) :=
        .bind (.always _) fun path _ => .of_pure hentries.1
      refine hfirst.bind fun found hfound => ?_
      refine .bind (ih hentries.2) fun resolved hrest => .of_pure ?_
      exact List.forall_mem_cons.mpr ⟨hfound, hrest⟩
  exact hresolved.bind fun resolved hall => .of_pure (Entries.forall_ofList hall)

theorem presents_parse (files : List Path) (kind : String) :
    Presents (Parsing.parse subject files kind) := by
  unfold Parsing.parse
  refine .ite (presents_skip _) (.bind_reads (Suits.reads_find _) fun found => ?_)
  cases found with
  | none => exact presents_skip _
  | some executable =>
    refine .bind (.lift (Tool.Pwsh.maintains_parse _ _)) fun scripts hscripts => ?_
    refine .bind (.lift (.of_reads (Suits.reads_byPath _) (gives_byPath (P := fun faults =>
      ∀ fault ∈ faults, 0 ≤ fault.line ∧ 0 ≤ fault.column) hscripts))) fun faults hfaults => ?_
    apply presents_each
    intro file
    refine .bind_reads (reads_resolve _) fun path => .of_pure ?_
    intro violation hviolation
    obtain ⟨fault, hfault, rfl⟩ := List.mem_map.mp hviolation
    cases hfound : faults.get? path.toString with
    | none =>
      rw [hfound] at hfault
      cases hfault
    | some own =>
      rw [hfound] at hfault
      obtain ⟨hline, hcolumn⟩ := Entries.of_get? (P := fun faults =>
        ∀ fault ∈ faults, 0 ≤ fault.line ∧ 0 ≤ fault.column) hfaults hfound fault hfault
      exact presentable_atPlace _ _ _ hline hcolumn

theorem presentable_of_violation? {path : String} {compilation : Option Tool.Pwsh.Compilation}
    {violation : Violation} (hviolation : Examples.violation? path compilation = some violation) :
    violation.IsPresentable := by
  cases compilation with
  | none => exact Option.some.inj hviolation ▸ presentable_ofFile _ _ _
  | some compilation =>
    unfold Examples.violation? at hviolation
    dsimp only at hviolation
    split at hviolation
    · cases hviolation
    · exact Option.some.inj hviolation ▸ presentable_ofFile _ _ _

/-- Whatever the lint task does, its issues have places that are natural numbers. -/
theorem does_lintTask (session : Tool.MarkdownLint.Session) :
    Action.Does (fun _ => True) (Tool.MarkdownLint.run session) := by
  have hprepare : Action.Does (fun _ => True)
      (Tool.MarkdownLint.prepare session.directory session.root) := by
    apply Tool.MarkdownLint.does_prepare
    · exact does_makeDirectory fun _ _ _ _ _ _ _ => trivial
    · exact fun _ _ content => does_writeFile content fun _ _ _ _ => trivial
    · exact fun source => does_copyFile source fun _ _ _ _ _ => trivial
  unfold Tool.MarkdownLint.run
  refine .bind hprepare fun _ => ?_
  refine .bind (does_of_work fun _ => Tool.MarkdownLint.work_install session) fun _ => ?_
  refine .bind (does_of_work fun _ => work_runOnce _ _) fun result => ?_
  exact .guard (does_fail _ _ _) fun _ => .get_bind fun _ => .pure _

theorem presents_compile : Presents (Examples.compile subject) := by
  have hcompile (session : Tool.Pwsh.Session) (files : List Path) (output : Path) :
      Action.Does (fun _ => True) (Tool.Pwsh.compile session files output) := by
    unfold Tool.Pwsh.compile
    refine .bind (does_makeDirectory fun _ _ _ _ _ _ _ => trivial) fun _ => ?_
    refine .bind (does_of_work fun _ => Tool.Pwsh.work_run _ _ _) fun _ => ?_
    exact Suits.reads_reading.does
  refine .bind_reads (Suits.reads_exampleFiles _) fun files => .ite (presents_skip _) ?_
  refine .bind_reads (Suits.reads_find _) fun found => ?_
  cases found with
  | none => exact presents_skip _
  | some executable =>
    refine .bind (.lift (.any (hcompile _ _ _))) fun found _ => ?_
    refine .bind_reads (Suits.reads_byPath _) fun compilations => ?_
    refine .bind (Maintains.compositional.mapM fun file _ => ?_) fun results _ =>
      .of_pure fun violation hviolation => ?_
    · refine .bind_reads (Suits.reads_relative _ _) fun path => ?_
      exact .bind_reads (reads_resolve _) fun _ => .of_pure trivial
    · obtain ⟨⟨path, compilation⟩, -, hfound⟩ := List.mem_filterMap.mp hviolation
      exact presentable_of_violation? hfound

theorem presents_lint : Presents (Markdown.lint subject) := by
  refine .bind_reads (File.reads_withSuffix _ _ _) fun files => .ite (presents_skip _) ?_
  refine .bind_reads (reads_findTool _) fun found => ?_
  cases found with
  | none => exact presents_skip _
  | some npm =>
    refine .bind (.lift (.any (does_lintTask _))) fun found _ => .of_pure ?_
    unfold Outcome.found ArePresentable Markdown.violations
    split
    · exact List.forall_mem_singleton.mpr (presentable_ofModule _ _)
    · refine List.forall_mem_map.mpr fun issue _ => ?_
      exact presentable_atPlace _ _ _ (Int.natCast_nonneg _) (Int.natCast_nonneg _)

/-! ## The catalogue -/

/-- What a check of the catalogue finds can be shown. -/
theorem presents_of_mem_all {check : Check} (hcheck : check ∈ all) : Presents (check.run subject) := by
  simp only [all, formattingChecks, manifestChecks, resourceChecks, analyzerChecks, scriptChecks,
    otherChecks, List.mem_append, List.mem_cons, List.not_mem_nil, or_false] at hcheck
  rcases hcheck with (((((rfl | rfl | rfl | rfl) | rfl | rfl | rfl) | rfl | rfl | rfl) | rfl | rfl |
    rfl | rfl) | rfl | rfl | rfl) | rfl | rfl
  · exact presents_encoding
  · exact presents_tabCharacters
  · exact presents_finalNewline
  · exact presents_markdownMark
  · exact presents_present
  · exact presents_valid
  · exact presents_powerShellVersion
  · exact presents_filesPresent
  · exact presents_schemaValid
  · exact presents_functions
  · exact presents_select _
  · exact presents_select _
  · exact presents_select _
  · exact presents_parameterRules
  · exact .bind_reads (File.reads_withSuffix _ _ _) fun files => presents_parse files _
  · exact .bind_reads (File.reads_withSuffix _ _ _) fun files => presents_parse _ _
  · exact presents_compile
  · exact presents_lint
  · exact presents_relativeLength

theorem isPresentable_of_mem_all {check : Check} (hcheck : check ∈ all) : check.IsPresentable := by
  have hall : ∀ check ∈ all, Report.isIdentifier check.id.toList = true ∧ 0 ≤ check.budget := by
    decide
  exact ⟨(hall check hcheck).1, (hall check hcheck).2⟩

/-- The results of a run can be shown if no tool reports a negative place. -/
theorem presents_runChecks (optIn : OptIn) (failFast : Bool) {checks : List Check}
    (hchecks : ∀ check ∈ checks, check ∈ all) :
    Action.Maintains ReportsPlaces (fun summary => ∀ result ∈ summary.results, result.IsPresentable)
      (runChecks subject checks optIn failFast) := by
  have hnone : HasPlaces Findings.none := nofun
  refine maintains_runChecks failFast hnone fun check hcheck => ?_
  have hall := hchecks check hcheck
  refine maintains_runOne (presents_of_mem_all hall) (fun optedIn milliseconds outcome houtcome => ?_)
    fun optedIn milliseconds failure => ⟨isPresentable_of_mem_all hall, nofun⟩
  constructor
  · rw [check_resultOf]
    exact isPresentable_of_mem_all hall
  · intro violation hviolation
    exact houtcome violation (violations_resultOf_subset _ _ _ _ hviolation)

end Check

end DscAudit

import DscAudit.Proofs.CommandLine.Reply
import DscAudit.Proofs.File.Directory
import DscAudit.Proofs.Host.Log
import DscAudit.Proofs.Run.Load

/-!
# The rules for parameter blocks by a command and by a check

The command that analyzes the root directory of a module and the check that applies the same rules walk
through the module each in its own way.  Both look at the same scripts and find the same in each of
them, so the command says that something was found exactly if the check has a violation.
-/

namespace DscAudit

open DscAudit.Action
open PowerShell (Extent)
open scoped List
open Text (Octets)

variable {α β : Type} {host : Host}

/-! ## Loops that only read -/

theorem Action.exec_mapM_ok {step : α → Action β} {f : α → β} {items : List α}
    (hstep : ∀ item ∈ items, (step item).exec host = (.ok (f item), host)) :
    (items.mapM step).exec host = (.ok (items.map f), host) := by
  induction items with
  | nil => rfl
  | cons item items ih =>
    have hrest := ih fun other hother => hstep other (List.mem_cons_of_mem _ hother)
    rw [List.mapM_cons, exec_bind_ok (hstep item List.mem_cons_self), exec_bind_ok hrest]
    rfl

theorem Checking.exec_mapM_ok {step : α → Checking β} {f : α → β} {items : List α}
    {known : Findings}
    (hstep : ∀ item ∈ items, ((step item).run known).exec host = (.ok (f item, known), host)) :
    ((items.mapM step).run known).exec host = (.ok (items.map f, known), host) := by
  induction items with
  | nil => rfl
  | cons item items ih =>
    have hrest := ih fun other hother => hstep other (List.mem_cons_of_mem _ hother)
    rw [List.mapM_cons, Checking.exec_bind_ok (hstep item List.mem_cons_self),
      Checking.exec_bind_ok hrest]
    rfl

theorem Action.exec_forM_printLine (lineOf : α → String) (items : List α) (host : Host) :
    (items.forM fun item => printLine (lineOf item)).exec host =
      (.ok (), { host with output := host.output ++ items.map fun item => lineOf item ++ "\n" }) := by
  induction items generalizing host with
  | nil =>
    rw [List.map_nil, List.append_nil]
    rfl
  | cons item items ih =>
    have hfirst : (printLine (lineOf item)).exec host =
        (.ok (), { host with output := host.output ++ [lineOf item ++ "\n"] }) := rfl
    refine (exec_bind_ok hfirst _).trans ?_
    rw [ih, List.map_cons, List.append_assoc]
    rfl

/-! ## What a file holds -/

/-- What the file at a place holds, nothing if no file is there. -/
def Volume.content (volume : Volume) (place : Place) : Octets :=
  match volume.find? place with
  | some (.file content) => content
  | _ => []

/-- Every name on the volume is one that a path can have. -/
def Volume.HasReadableNames (volume : Volume) : Prop :=
  ∀ entry ∈ volume.entries, ∀ part ∈ entry.1, part.toList.contains '\x00' = false

namespace File

variable {root base file : Path} {place : Place} {excluded : List String}

theorem IsBelow.hasNull_join (hfile : IsBelow host.volume place excluded file)
    (hnames : host.volume.HasReadableNames) (hbase : base.hasNull = false) :
    (base.join file).hasNull = false := by
  obtain ⟨content, hfound⟩ := hfile.found
  have hne : place ++ file.parts ≠ [] := by simp [hfile.ne_nil]
  have hparts := hnames _ (Volume.mem_of_find?_eq_some hne hfound)
  have hrelative : file.isAbsolute = false := by simp [Path.isAbsolute, hfile.relative]
  unfold Path.join
  rw [hrelative]
  simp only [Path.hasNull, List.any_eq_false] at hbase ⊢
  intro part hpart
  cases List.mem_append.mp hpart with
  | inl hbefore => exact hbase part hbefore
  | inr hbelow => simpa using hparts part (List.mem_append_right _ hbelow)

/-- A file that was found can be read by its path. -/
theorem IsBelow.exec_readFile (hfile : IsBelow host.volume place excluded file)
    (hvolume : host.volume.IsProper) (hnames : host.volume.HasReadableNames)
    (hnull : base.hasNull = false) (hbase : host.volume.LeadsTo host.directory base place) :
    (readFile (base.join file)).exec host = (.ok (host.volume.content (place ++ file.parts)), host) := by
  have hlocate := hfile.locate hvolume hbase
  have hpath := hfile.hasNull_join hnames hnull
  obtain ⟨content, hfound⟩ := hfile.found
  have hread : host.volume.read host.directory (base.join file) = .ok content := by
    unfold Volume.read Volume.lookup
    rw [hlocate]
    simp [hfound, bind, Except.bind, pure, Except.pure]
  have hcontent : host.volume.content (place ++ file.parts) = content := by
    unfold Volume.content
    rw [hfound]
  unfold readFile
  rw [hpath, hcontent]
  simp only [Bool.false_eq_true, if_false]
  rw [exec_get_bind, hread]
  rfl

theorem exec_isDirectory (hnull : base.hasNull = false)
    (hbase : host.volume.LeadsTo host.directory base place) :
    (isDirectory base).exec host = (.ok true, host) := by
  have hfound := Volume.isDirectory_iff_leadsTo.mpr ⟨hnull, place, hbase⟩
  rw [isDirectory, exec_askVolume, hfound]
  simp [Volume.refuses, hbase.locate]

theorem exec_isPresent (hnull : base.hasNull = false)
    (hbase : host.volume.LeadsTo host.directory base place) :
    (isPresent base).exec host = (.ok true, host) := by
  rw [isPresent, exec_askVolume]
  simp [Volume.refuses, Volume.isPresent, hbase.locate, hbase.lookup, hnull, Except.isOk,
    Except.toBool]

/-- A file that is not excluded, among what a walk finds. -/
def included? (excluded : List String) (entry : Path × Node) : Option Path :=
  match entry.2 with
  | .file _ => if entry.1.isExcluded excluded then none else some entry.1
  | .directory => none

/-- A script that is not excluded, among what a walk finds. -/
def includedScript? (excluded : List String) (entry : Path × Node) : Option Path :=
  match entry.2 with
  | .file _ =>
    if hasSuffix scriptSuffixes entry.1 && !entry.1.isExcluded excluded then some entry.1 else none
  | .directory => none

theorem includedScript?_eq (excluded : List String) (entry : Path × Node) :
    includedScript? excluded entry = (included? excluded entry).filter (hasSuffix scriptSuffixes) := by
  obtain ⟨path, node⟩ := entry
  cases node with
  | directory => rfl
  | file content =>
    by_cases hexcluded : path.isExcluded excluded = true
    · simp [includedScript?, included?, hexcluded]
    · by_cases hsuffix : hasSuffix scriptSuffixes path = true
      · simp [includedScript?, included?, hexcluded, hsuffix, Option.filter_some]
      · simp [includedScript?, included?, hexcluded, hsuffix, Option.filter_some]

/-- What a walk finds below a place. -/
def entriesBelow (volume : Volume) (place : Place) : List (Path × Node) :=
  (volume.below place).map fun entry => (⟨.relative, entry.1⟩, entry.2)

/-- The scripts below a place in the order of the texts of their paths. -/
def scriptsByText (volume : Volume) (place : Place) (excluded : List String) : List Path :=
  (((entriesBelow volume place).filterMap (included? excluded)).mergeSort fun a b =>
    decide (a.toString ≤ b.toString)).filter (hasSuffix scriptSuffixes)

/-- The scripts below a place in the order of their paths, part by part. -/
def scriptsByPart (volume : Volume) (place : Place) (excluded : List String) : List Path :=
  ((entriesBelow volume place).filterMap (includedScript? excluded)).mergeSort Path.precedes

/-- The two walks find the same scripts. -/
theorem scriptsByPart_perm (volume : Volume) (place : Place) (excluded : List String) :
    scriptsByPart volume place excluded ~ scriptsByText volume place excluded := by
  let files := (entriesBelow volume place).filterMap (included? excluded)
  have hscripts : (entriesBelow volume place).filterMap (includedScript? excluded) =
      files.filter (hasSuffix scriptSuffixes) := by
    rw [List.filter_filterMap]
    exact List.filterMap_congr fun entry _ => includedScript?_eq excluded entry
  calc
    _ ~ (entriesBelow volume place).filterMap (includedScript? excluded) := List.mergeSort_perm _ _
    _ = files.filter (hasSuffix scriptSuffixes) := hscripts
    _ ~ scriptsByText volume place excluded := (List.mergeSort_perm _ _).symm.filter _

theorem lower_scriptSuffixes : scriptSuffixes.map Text.lowerString = scriptSuffixes := by decide

theorem exec_withScriptSuffix (hroot : host.volume.LeadsTo host.directory root place)
    (excluded : List String) :
    (withSuffix root excluded scriptSuffixes).exec host =
      (.ok (scriptsByText host.volume place excluded), host) := by
  have hall : (all root excluded).exec host =
      (.ok (((entriesBelow host.volume place).filterMap (included? excluded)).mergeSort fun a b =>
        decide (a.toString ≤ b.toString)), host) := by
    unfold all
    rw [exec_bind_ok (exec_below hroot)]
    rfl
  unfold withSuffix
  dsimp only
  rw [exec_bind_ok hall, lower_scriptSuffixes]
  rfl

theorem exec_scriptsAt (hnull : base.hasNull = false)
    (hbase : host.volume.LeadsTo host.directory base place) (excluded : List String) :
    (scriptsAt excluded base).exec host =
      (.ok ((scriptsByPart host.volume place excluded).map base.join), host) := by
  unfold scriptsAt
  rw [exec_bind_ok (exec_isDirectory hnull hbase), if_pos rfl, exec_bind_ok (exec_below hbase)]
  rfl

/-- The scripts that a walk finds are those that lie below the place and are not excluded. -/
theorem mem_scriptsByText (hvolume : host.volume.IsProper)
    (hroot : host.volume.LeadsTo host.directory root place) :
    file ∈ scriptsByText host.volume place excluded ↔
      IsBelow host.volume place excluded file ∧ hasSuffix scriptSuffixes file = true := by
  obtain ⟨files, hfiles, hmem⟩ := exec_withSuffix hvolume hroot excluded scriptSuffixes
  rw [exec_withScriptSuffix hroot] at hfiles
  cases hfiles
  rw [hmem, lower_scriptSuffixes]

end File

/-! ## What is found -/

namespace Rule

theorem severity_of_mem_diagnostics {ρ : Type} {parameter : PowerShell.Parameter ρ}
    {found : Diagnostic ρ} (hfound : found ∈ diagnostics parameter) : found.severity = .warning := by
  simp only [diagnostics, List.mem_append, Option.mem_toList, Option.map_eq_some_iff,
    List.mem_filterMap] at hfound
  cases hfound with
  | inl hplacement =>
    obtain ⟨rule, -, hwarning⟩ := hplacement
    rw [← hwarning]
    rfl
  | inr hargument =>
    obtain ⟨argument, -, hwarning⟩ := hargument
    split at hwarning
    · cases hwarning
      rfl
    · cases hwarning

/-- The rules never find mere information. -/
theorem severity_of_mem_analyze {text : List Char} {found : Diagnostic Extent}
    (hfound : found ∈ analyze text) : found.severity ≠ .information := by
  unfold analyze at hfound
  split at hfound
  · rw [List.mem_singleton] at hfound
    rw [hfound]
    exact nofun
  · rw [List.mem_mergeSort, List.mem_flatMap] at hfound
    obtain ⟨parameter, -, hfound⟩ := hfound
    rw [severity_of_mem_diagnostics hfound]
    exact nofun

/-- What the rules find in the file at a place. -/
def findingsAt (volume : Volume) (place : Place) : List (Diagnostic Extent) :=
  analyze (Text.readTextFile (volume.content place))

/-- What the rules find in the files below a place, each with the path by which it is shown. -/
def findingsBelow (volume : Volume) (place : Place) (files : List Path) (shown : Path → String) :
    List (String × Diagnostic Extent) :=
  files.flatMap fun file => (findingsAt volume (place ++ file.parts)).map fun found => (shown file, found)

theorem findingsBelow_eq_nil_iff {volume : Volume} {place : Place} {files : List Path}
    {shown : Path → String} :
    findingsBelow volume place files shown = [] ↔
      ∀ file ∈ files, findingsAt volume (place ++ file.parts) = [] := by
  simp [findingsBelow]

end Rule

namespace Check.Analyzer

open Rule (findingsAt findingsBelow)

variable {place : Place}

/-- A violation has the rule and the place of what was found. -/
theorem ruleViolation_place (path : String) (found : Rule.Diagnostic Extent) :
    (ruleViolation path found).code = found.rule.text ∧
      (ruleViolation path found).line = found.location.first.line ∧
      (ruleViolation path found).column = found.location.first.column := by
  have hplain : ∀ rule : Rule.Name, Violation.trimmed rule.text = rule.text ∧
      rule.text.isEmpty = false := by
    intro rule
    cases rule <;> decide
  refine ⟨?_, rfl, rfl⟩
  unfold ruleViolation Violation.atPlace Violation.normalize
  simp only [(hplain found.rule).1, (hplain found.rule).2, Bool.false_eq_true, if_false]

/-- The check finds what the rules find in the scripts of the module. -/
theorem exec_parameterRules (subject : Subject) (hvolume : host.volume.IsProper)
    (hnames : host.volume.HasReadableNames) (hnull : subject.root.hasNull = false)
    (hroot : host.volume.LeadsTo host.directory subject.root place) (known : Findings) :
    let files := File.scriptsByText host.volume place subject.config.excludedDirectories
    ((parameterRules subject).run known).exec host =
      (.ok (.found ((findingsBelow host.volume place files Path.toString).map fun found =>
        ruleViolation found.1 found.2) [("files", .int files.length)], known), host) := by
  intro files
  have hloop : ∀ file ∈ files, ((do
      let text := Text.readTextFile (← readFile (subject.path file))
      return (Rule.analyze text).map (ruleViolation file.toString) : Checking (List Violation)).run
        known).exec host =
      (.ok ((findingsAt host.volume (place ++ file.parts)).map (ruleViolation file.toString), known),
        host) := by
    intro file hfile
    have hbelow := ((File.mem_scriptsByText hvolume hroot).mp hfile).1
    have hread : (readFile (subject.path file)).exec host = _ :=
      hbelow.exec_readFile hvolume hnames hnull hroot
    rw [Checking.exec_bind_ok (Checking.exec_lift_ok hread known)]
    rfl
  have hviolations : (files.map fun file =>
      (findingsAt host.volume (place ++ file.parts)).map (ruleViolation file.toString)).flatten =
      (findingsBelow host.volume place files Path.toString).map fun found =>
        ruleViolation found.1 found.2 := by
    simp [findingsBelow, List.flatMap_def, List.map_flatten, List.map_map, Function.comp_def]
  unfold parameterRules
  rw [Checking.exec_bind_ok (Checking.exec_lift_ok (File.exec_withScriptSuffix hroot _) known),
    Checking.exec_bind_ok (Checking.exec_mapM_ok hloop), hviolations]
  rfl

theorem mem_all_parameterRules :
    ∃ check ∈ Check.all, check.id = "analyzer/custom-rules" ∧ check.run = parameterRules := by
  refine ⟨analyzerChecks[3], ?_, rfl, rfl⟩
  have hmem : analyzerChecks[3] ∈ analyzerChecks := List.getElem_mem _
  unfold all
  simp only [List.mem_append, hmem, or_true, true_or]

end Check.Analyzer

namespace RunContext

theorem isDirectory_of_load {settings : RunSettings} {context : RunContext}
    (hload : (load settings).exec host = (.ok context, host)) :
    host.volume.isDirectory host.directory context.root = true := by
  unfold load at hload
  obtain ⟨root, hroot, hload⟩ := (reads_moduleRoot _).exec_bind_eq_ok hload
  obtain ⟨runId, -, hload⟩ := (reads_runIdentifier _).exec_bind_eq_ok hload
  obtain ⟨evidence, -, hload⟩ := (reads_evidenceRoot _ _).exec_bind_eq_ok hload
  obtain ⟨config, -, hload⟩ := (reads_loadConfig _).exec_bind_eq_ok hload
  obtain ⟨optIn, -, hload⟩ := (reads_loadOptIn _ _).exec_bind_eq_ok hload
  cases hload
  exact isDirectory_of_moduleRoot hroot

end RunContext

namespace CommandLine

open Rule (findingsBelow)

variable {context : RunContext} {raw : String} {place : Place}

/-- The lines that the command prints for what it found. -/
def analysisLines (format : OutputFormat) (found : List (String × Rule.Diagnostic Extent)) :
    List String :=
  match format with
  | .json =>
    [Json.write .oneLine <| .table <| head (if found.isEmpty then "ok" else "fail") ++
      [("rules", .ofTexts (Rule.all.map Rule.Name.text)),
       ("diagnostics", .list (found.map fun found => found.2.toValue found.1))]]
  | .text => found.map fun found => found.2.render found.1

/-- What the command finds below the directory that a path leads to. -/
def analysis (volume : Volume) (place : Place) (excluded : List String) (base : Path) :
    List (String × Rule.Diagnostic Extent) :=
  findingsBelow volume place (File.scriptsByPart volume place excluded) fun file =>
    (base.join file).toString

/-- The command looks into every script below a directory and prints what it finds. -/
theorem exec_answerAnalyze (context : RunContext) (host : Host) (hvolume : host.volume.IsProper)
    (hnames : host.volume.HasReadableNames) (hnull : (Path.ofString raw).hasNull = false)
    (hbase : host.volume.LeadsTo host.directory (Path.ofString raw) place) :
    let found := analysis host.volume place context.config.excludedDirectories (.ofString raw)
    ∃ logs, (answerAnalyze context [raw]).exec host =
      (.ok (if found.isEmpty then .ok else .checks),
        { host with
          errors := host.errors ++ logs
          output := host.output ++ (analysisLines context.format found).map (· ++ "\n") }) := by
  intro found
  let base := Path.ofString raw
  let files := File.scriptsByPart host.volume place context.config.excludedDirectories
  have hmissing : ([base].filterM fun path => do return !(← isPresent path) : Action _).exec host =
      (.ok [], host) := by
    have hpresent : (do return !(← isPresent base) : Action Bool).exec host = (.ok false, host) :=
      exec_bind_ok (File.exec_isPresent hnull hbase) _
    have hkept : ([base].filterAuxM (fun path => do return !(← isPresent path)) [] : Action _).exec
        host = (.ok [], host) := exec_bind_ok hpresent _
    exact exec_bind_ok hkept _
  have hscripts : (File.scripts context.config.excludedDirectories [base]).exec host =
      (.ok (files.map base.join), host) := by
    unfold File.scripts
    have hone : ([base].mapM (File.scriptsAt context.config.excludedDirectories)).exec host =
        (.ok ([base].map fun _ => files.map base.join), host) :=
      exec_mapM_ok (List.forall_mem_singleton.mpr (File.exec_scriptsAt hnull hbase _))
    rw [exec_bind_ok hone, List.map_singleton, List.flatten_singleton]
    rfl
  have hloop : ((files.map base.join).mapM fun file => do
      return (← analyzeFile file).map fun diagnostic => (file.toString, diagnostic) :
        Action (List (List (String × Rule.Diagnostic Extent)))).exec host =
      (.ok (files.map fun file => (Rule.findingsAt host.volume (place ++ file.parts)).map fun found =>
        ((base.join file).toString, found)), host) := by
    rw [List.mapM_map]
    apply exec_mapM_ok
    intro file hfile
    have hbelow := ((File.mem_scriptsByText hvolume hbase).mp
      ((File.scriptsByPart_perm _ _ _).mem_iff.mp hfile)).1
    have hanalyzed : (analyzeFile (base.join file)).exec host =
        (.ok (Rule.findingsAt host.volume (place ++ file.parts)), host) :=
      exec_bind_ok (hbelow.exec_readFile hvolume hnames hnull hbase) _
    exact exec_bind_ok hanalyzed _
  have hfound : (files.map fun file => (Rule.findingsAt host.volume (place ++ file.parts)).map
      fun found => ((base.join file).toString, found)).flatten = found := rfl
  let event : Event :=
    ⟨"debug", "analyze", "finish", [("diagnostics", .int found.length)]⟩
  use logged context.logSettings host.now event
  unfold answerAnalyze
  refine (exec_bind_ok hmissing _).trans ?_
  refine (exec_bind_ok hscripts _).trans ((exec_bind_ok hloop _).trans ?_)
  rw [hfound]
  refine (exec_bind_ok (exec_log context.logSettings event host) _).trans ?_
  cases context.format with
  | json => rfl
  | text =>
    refine (exec_bind_ok (exec_forM_printLine _ _ _) _).trans ?_
    simp only [analysisLines, List.map_map]
    rfl

/-- A whole run of the command. -/
theorem exec_analyze {request : Request} {format : OutputFormat}
    (hcommand : request.command = .analyze [raw])
    (hformat : (formatOf request).exec host = (.ok format, host))
    (hload : (RunContext.load (request.runSettings format)).exec host = (.ok context, host))
    (hvolume : host.volume.IsProper) (hnames : host.volume.HasReadableNames)
    (hnull : (Path.ofString raw).hasNull = false)
    (hbase : host.volume.LeadsTo host.directory (Path.ofString raw) place) :
    let found := analysis host.volume place context.config.excludedDirectories (.ofString raw)
    ∃ logs, (run request).exec host =
      (.ok (if found.isEmpty then .ok else .checks),
        { host with
          errors := host.errors ++ logs
          output := host.output ++ (analysisLines context.format found).map (· ++ "\n") }) := by
  intro found
  let first : Event :=
    ⟨"info", "cli", "start",
      [("cmd", .text (Command.analyze [raw]).word), ("fmt", .text context.format.name),
        ("module", .text context.moduleName)]⟩
  let second : Event :=
    ⟨"debug", "config", "load",
      [("source", .text (source context)), ("opt_in", .int context.optIn.names.length)]⟩
  let started : Host :=
    { host with errors := host.errors ++ logged context.logSettings host.now first }
  let loaded : Host :=
    { started with errors := started.errors ++ logged context.logSettings started.now second }
  obtain ⟨logs, hanswer⟩ :=
    exec_answerAnalyze context loaded hvolume hnames hnull hbase
  have hrun : (answerInRun context (.analyze [raw])).exec host =
      (answerAnalyze context [raw]).exec loaded := by
    unfold answerInRun
    refine (exec_bind_ok (exec_log context.logSettings first host) _).trans ?_
    exact exec_bind_ok (exec_log context.logSettings second started) _
  have hanswered : (answer request format).exec host = (answerAnalyze context [raw]).exec loaded := by
    unfold answer
    rw [hcommand]
    exact (exec_bind_ok hload _).trans hrun
  use logged context.logSettings host.now first ++ logged context.logSettings started.now second ++ logs
  rw [exec_run hformat, hanswered, hanswer]
  simp only [loaded, started, List.append_assoc]
  rfl

/-- The rule and the place of a violation. -/
def violationRow (violation : Violation) : String × Int × Int :=
  (violation.code, violation.line, violation.column)

/-- The rule and the place of what the command found. -/
def findingRow (found : Rule.Diagnostic Extent) : String × Int × Int :=
  (found.rule.text, found.location.first.line, found.location.first.column)

/-- The command, run on the root directory of a module, and the check look at the same scripts, which
are all that are not excluded, and find the same rules broken at the same places of each.  So the
command says that something was found exactly if the check has violations, and all of these are
errors. -/
theorem analyze_agrees_with_check {request : Request} {format : OutputFormat}
    (hcommand : request.command = .analyze [raw])
    (hformat : (formatOf request).exec host = (.ok format, host))
    (hload : (RunContext.load (request.runSettings format)).exec host = (.ok context, host))
    (hvolume : host.volume.IsProper) (hnames : host.volume.HasReadableNames)
    (hnull : (Path.ofString raw).hasNull = false)
    (hbase : host.volume.LeadsTo host.directory (Path.ofString raw) place)
    (hroot : host.volume.LeadsTo host.directory context.root place) :
    ∃ files analyzed outcome code after,
      (∃ check ∈ Check.all, check.id = "analyzer/custom-rules" ∧
        ∀ known, ((check.run context.subject).run known).exec host =
          (.ok (outcome, known), host)) ∧
      (run request).exec host = (.ok code, after) ∧
      analyzed ~ files ∧
      (∀ file, file ∈ files ↔
        File.IsBelow host.volume place context.config.excludedDirectories file ∧
          File.hasSuffix File.scriptSuffixes file = true) ∧
      outcome.violations = (files.flatMap fun file =>
        (Rule.findingsAt host.volume (place ++ file.parts)).map
          (Check.Analyzer.ruleViolation file.toString)) ∧
      after.output = host.output ++ (analysisLines format (analyzed.flatMap fun file =>
        (Rule.findingsAt host.volume (place ++ file.parts)).map fun found =>
          (((Path.ofString raw).join file).toString, found))).map (· ++ "\n") ∧
      (∀ file ∈ files,
        ((Rule.findingsAt host.volume (place ++ file.parts)).map
          (Check.Analyzer.ruleViolation file.toString)).map violationRow =
        (Rule.findingsAt host.volume (place ++ file.parts)).map findingRow) ∧
      (code = .checks ↔ outcome.violations ≠ []) ∧ (code = .ok ↔ outcome.violations = []) ∧
      ∀ violation ∈ outcome.violations, violation.severity = .error := by
  let excluded := context.config.excludedDirectories
  let files := File.scriptsByText host.volume place excluded
  let analyzed := File.scriptsByPart host.volume place excluded
  have hperm : analyzed ~ files := File.scriptsByPart_perm host.volume place excluded
  have hdirectory := RunContext.isDirectory_of_load hload
  have houtcome := Check.Analyzer.exec_parameterRules context.subject hvolume hnames
    (Volume.isDirectory_iff_leadsTo.mp hdirectory).1 hroot
  obtain ⟨check, hcheck, hid, hcheckRun⟩ := Check.Analyzer.mem_all_parameterRules
  obtain ⟨logs, hrun⟩ := exec_analyze hcommand hformat hload hvolume hnames hnull hbase
  rw [(RunContext.gives_load _ _ _ _ hload).format] at hrun
  let found := analysis host.volume place excluded (.ofString raw)
  obtain ⟨after, hrun, houtput⟩ : ∃ after,
      (run request).exec host = (.ok (if found.isEmpty then .ok else .checks), after) ∧
      after.output = host.output ++ (analysisLines format found).map (· ++ "\n") := ⟨_, hrun, rfl⟩
  let violations := files.flatMap fun file =>
    (Rule.findingsAt host.volume (place ++ file.parts)).map
      (Check.Analyzer.ruleViolation file.toString)
  have hviolations : (findingsBelow host.volume place files Path.toString).map
      (fun found => Check.Analyzer.ruleViolation found.1 found.2) = violations := by
    simp [violations, findingsBelow, List.map_flatMap, Function.comp_def]
  -- both find nothing exactly if there is nothing to be found in any of the files
  have hnothing : found = [] ↔ violations = [] := by
    show findingsBelow _ _ _ _ = [] ↔ _
    rw [← hviolations, List.map_eq_nil_iff, Rule.findingsBelow_eq_nil_iff,
      Rule.findingsBelow_eq_nil_iff]
    exact forall_congr' fun file => by rw [hperm.mem_iff]
  use files, analyzed, .found violations [("files", .int files.length)]
  use if found.isEmpty then .ok else .checks, after
  constructor
  · use check, hcheck, hid
    intro known
    rw [hcheckRun, ← hviolations]
    exact houtcome known
  use hrun, hperm
  constructor
  · intro file
    exact File.mem_scriptsByText hvolume hroot
  use rfl, houtput
  constructor
  · intro file hfile
    rw [List.map_map]
    apply List.map_congr_left
    intro found hfound
    obtain ⟨hcode, hline, hcolumn⟩ := Check.Analyzer.ruleViolation_place file.toString found
    simp only [Function.comp_apply, violationRow, findingRow, hcode, hline, hcolumn]
  have hempty : found.isEmpty = true ↔ violations = [] := List.isEmpty_iff.trans hnothing
  constructor
  · show _ ↔ violations ≠ []
    rw [ne_eq, ← hempty]
    split <;> simp_all
  constructor
  · show _ ↔ violations = []
    rw [← hempty]
    split <;> simp_all
  · intro violation hviolation
    obtain ⟨file, -, hviolation⟩ := List.mem_flatMap.mp hviolation
    obtain ⟨found, hfound, rfl⟩ := List.mem_map.mp hviolation
    exact if_neg (Rule.severity_of_mem_analyze hfound)

/-- A host whose current directory is a module with one script, where a parameter has no attribute. -/
def parameterHost : Host :=
  .holding ⟨[(["m"], .directory), (["m", "a.ps1"], .file (Text.Utf8.encode "param($x)".toList))]⟩
    ⟨.slash, ["m"]⟩

def analyzeRequest : Request :=
  ⟨none, some "run", none, none, false, false, false, false, .analyze ["/m"]⟩

def parameterContext : RunContext where
  runId := "run"
  root := ⟨.slash, ["m"]⟩
  evidence := ⟨.slash, ["m", "output", "dscmeta"]⟩
  format := .text
  verbose := false
  quiet := false
  logJson := false
  config := .default
  optIn := .ofNames []

theorem load_parameterHost :
    (RunContext.load (analyzeRequest.runSettings .text)).exec parameterHost =
      (.ok parameterContext, parameterHost) := by
  have hroot : (RunContext.moduleRoot none).exec parameterHost =
      (.ok ⟨.slash, ["m"]⟩, parameterHost) := rfl
  have hid : (RunContext.runIdentifier (some "run")).exec parameterHost = (.ok "run", parameterHost) := rfl
  have hevidence : (RunContext.evidenceRoot ⟨.slash, ["m"]⟩ none).exec parameterHost =
      (.ok ⟨.slash, ["m", "output", "dscmeta"]⟩, parameterHost) := by
    have hpath : Path.ofString RunContext.defaultEvidence = ⟨.relative, ["output", "dscmeta"]⟩ := by
      decide
    have hfound : (environment? "DSCMETA_EVIDENCE_ROOT").exec parameterHost =
        (.ok none, parameterHost) := rfl
    unfold RunContext.evidenceRoot
    refine (exec_bind_ok hfound _).trans ((exec_bind_ok (exec_pure _ _) _).trans ?_)
    dsimp only [Option.getD_none]
    rw [hpath]
    rfl
  have hdirectory : parameterHost.volume.isDirectory parameterHost.directory ⟨.slash, ["m"]⟩ = true := rfl
  unfold RunContext.load
  refine (exec_bind_ok hroot _).trans ((exec_bind_ok hid _).trans ((exec_bind_ok hevidence _).trans ?_))
  refine (exec_bind_ok (Config.exec_load hdirectory) _).trans ?_
  exact exec_bind_ok (OptIn.exec_load hdirectory _) _

theorem isProper_parameterHost : parameterHost.volume.IsProper where
  distinct := by decide
  tree := Volume.isTree_of_entries (by decide)
  names := by decide

theorem hasReadableNames_parameterHost : parameterHost.volume.HasReadableNames := by
  unfold Volume.HasReadableNames
  decide

theorem isBelow_parameterHost :
    File.IsBelow parameterHost.volume ["m"] parameterContext.config.excludedDirectories
      ⟨.relative, ["a.ps1"]⟩ where
  relative := rfl
  ne_nil := by simp
  found := ⟨_, rfl⟩
  included := by decide

/-- In a module whose script has a parameter without an attribute both find that. -/
theorem analyze_agrees_with_check_missing :
    ((formatOf analyzeRequest).exec parameterHost = (.ok .text, parameterHost) ∧
      parameterHost.volume.IsProper ∧ parameterHost.volume.HasReadableNames) ∧
    ∃ outcome after,
      (∃ check ∈ Check.all, check.id = "analyzer/custom-rules" ∧
        ((check.run parameterContext.subject).run .none).exec parameterHost =
          (.ok (outcome, .none), parameterHost)) ∧
      (run analyzeRequest).exec parameterHost = (.ok .checks, after) ∧
      outcome.violations ≠ [] := by
  have hformat : (formatOf analyzeRequest).exec parameterHost = (.ok .text, parameterHost) := rfl
  have hcommand : analyzeRequest.command = .analyze ["/m"] := rfl
  have hraw : Path.ofString "/m" = ⟨.slash, ["m"]⟩ := by decide
  have hnull : (Path.ofString "/m").hasNull = false := by decide
  have hleads : parameterHost.volume.LeadsTo parameterHost.directory ⟨.slash, ["m"]⟩ ["m"] := ⟨rfl, rfl⟩
  have hbase : parameterHost.volume.LeadsTo parameterHost.directory (Path.ofString "/m") ["m"] := by
    rw [hraw]
    exact hleads
  have hfound : (Rule.findingsAt parameterHost.volume ["m", "a.ps1"]).length = 1 := by
    decide +kernel
  obtain ⟨files, analyzed, outcome, code, after, ⟨check, hcheck, hid, houtcome⟩, hrun, -, hfiles,
      hviolations, -, -, hchecks, -⟩ :=
    analyze_agrees_with_check hcommand hformat load_parameterHost isProper_parameterHost
      hasReadableNames_parameterHost hnull hbase hleads
  have hscript : (⟨.relative, ["a.ps1"]⟩ : Path) ∈ files := (hfiles _).mpr
    ⟨isBelow_parameterHost, by decide⟩
  have hne : outcome.violations ≠ [] := by
    intro hnone
    rw [hviolations, List.flatMap_eq_nil_iff] at hnone
    have hempty := congrArg List.length (hnone _ hscript)
    rw [List.length_map] at hempty
    exact absurd (hfound.symm.trans hempty) (by decide)
  refine ⟨⟨hformat, isProper_parameterHost, hasReadableNames_parameterHost⟩, outcome, after,
    ⟨check, hcheck, hid, houtcome .none⟩, ?_, hne⟩
  rw [hrun, hchecks.mpr hne]

end CommandLine

end DscAudit

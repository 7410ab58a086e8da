import DscAudit.Proofs.Check.Parsing
import DscAudit.Proofs.Check.ResourceFiles
import DscAudit.Proofs.File.Path
import DscAudit.Proofs.Host.Files

/-!
# Examples and their results

PowerShell answers with a list of results, each with a path.  They are put into a table by where their
paths lead, so for each example the last result that leads to it counts, wherever it stands in the answer
and whatever else is there.  Each example then is a violation, or its configurations are counted.
-/

namespace DscAudit

open DscAudit.Action

/-! ## Tables of what has paths -/

theorem Check.Parsing.exec_byPath {α : Type} {rows : List (String × α)} (host : Host)
    (hrows : ∀ row ∈ rows, (Path.ofString row.1).hasNull = false) :
    (byPath rows).exec host =
      (.ok (Entries.ofList (rows.map fun row => (target host.directory row.1, row.2))), host) := by
  have hloop : ∀ row ∈ rows, ((do
      return ((← resolve (Path.ofString row.1)).toString, row.2) : Action (String × α)).exec host) =
      (.ok (target host.directory row.1, row.2), host) := by
    intro row hrow
    rw [exec_bind_ok (exec_resolve (hrows row hrow) host)]
    rfl
  unfold byPath
  rw [exec_bind_ok (exec_mapM_ok hloop)]
  rfl

namespace Check.Examples

open Tool.Pwsh (Compilation Session answer?)
open Parsing (LeadsTo target)

variable {subject : Subject} {host : Host} {results : List Compilation} {directory file : Path}

/-! ## The result that counts -/

/-- The last of the results that lead to a file. -/
def lastResult? (directory : Path) (results : List Compilation) (file : Path) : Option Compilation :=
  (results.filter fun result => LeadsTo directory file result.path).getLast?

theorem lastResult?_eq_none_iff :
    lastResult? directory results file = none ↔
      ∀ result ∈ results, ¬ LeadsTo directory file result.path := by
  simp only [lastResult?, List.getLast?_eq_none_iff, List.filter_eq_nil_iff, decide_eq_true_eq]

/-- Results that lead elsewhere do not matter. -/
theorem lastResult?_filter {keep : Compilation → Bool}
    (hkeep : ∀ result, LeadsTo directory file result.path → keep result = true) :
    lastResult? directory (results.filter keep) file = lastResult? directory results file := by
  unfold lastResult?
  rw [List.filter_filter]
  congr 1
  refine List.filter_congr fun result _ => ?_
  by_cases hleads : LeadsTo directory file result.path
  · simp [hkeep result hleads]
  · simp [hleads]

/-- The results by where their paths lead. -/
def byTarget (directory : Path) (results : List Compilation) : Entries Compilation :=
  Entries.ofList (results.map fun result => (target directory result.path, result))

theorem get?_byTarget (directory : Path) (results : List Compilation) (file : Path) :
    (byTarget directory results).get? (file.resolve directory).toString =
      lastResult? directory results file := by
  rw [byTarget, Entries.get?_ofList_eq, List.filter_map, List.getLast?_map, Option.map_map]
  exact Option.map_id'

/-! ## The check -/

/-- The results of an answer. -/
def results? (answer : Value) : Except Defect (List Compilation) := do
  (← answer.parts).mapM Compilation.ofValue

/-- PowerShell is there and answers with these results. -/
structure IsAnswered (subject : Subject) (host : Host) (results : List Compilation) : Prop where
  found : Tool.Pwsh.IsFound subject.config host
  made : ∃ made, (makeDirectory (subject.evidence.child "examples")).exec host = (.ok (), made)
  answers : ∃ answer, answer? (host.results.headD (.missing none)) = some answer ∧
    results? answer = .ok results
  noNull : ∀ result ∈ results, '\x00' ∉ result.path.toList

/-- Making a directory leaves the results of processes as they are, and the directory of the host. -/
theorem exec_makeDirectory_keeps {path : Path} {made : Host}
    (hmade : (makeDirectory path).exec host = (.ok (), made)) :
    made.results = host.results ∧ made.directory = host.directory := by
  have hlocal : Does Effect.IsLocal (makeDirectory path) :=
    does_makeDirectory fun _ _ _ _ _ _ _ => trivial
  have hdirectory := hlocal.directory_eq host
  obtain ⟨effects, heffects, hafter⟩ := hlocal host
  have hresults := (Effect.afterCalls_onAll heffects host).results_eq
  rw [← hafter] at hresults
  rw [hmade] at hdirectory hresults
  exact ⟨hresults, hdirectory⟩

theorem exec_compileAll (hanswered : IsAnswered subject host results) (session : Session)
    (files : List Path) :
    ∃ after, (Tool.Pwsh.compile session files (subject.evidence.child "examples")).exec host =
        (.ok results, after) ∧ after.directory = host.directory := by
  obtain ⟨made, hmade⟩ := hanswered.made
  obtain ⟨answer, hanswer, hresults⟩ := hanswered.answers
  obtain ⟨hsame, hdirectory⟩ := exec_makeDirectory_keeps hmade
  obtain ⟨ending, after, hrun, hending, hstarts⟩ := Tool.Pwsh.exec_run session Tool.Script.compile
    [("DSCMETA_FILES", Tool.Pwsh.pathList files),
     ("DSCMETA_MODULE_PARENT", session.directory.parent.toString),
     ("DSCMETA_OUTPUT", (subject.evidence.child "examples").toString)] made
  rw [hsame, hanswer] at hending
  cases ending with
  | error failure => cases hending
  | ok value =>
    obtain rfl := Option.some.inj hending
    have hdirectory' : after.directory = made.directory := by
      obtain ⟨logs, rfl⟩ := hstarts
      rfl
    refine ⟨after, ?_, hdirectory'.trans hdirectory⟩
    have hreading : (do return ← (← value.parts).mapM Compilation.ofValue) = results? value := by
      simp [results?]
    unfold Tool.Pwsh.compile
    rw [exec_bind_ok hmade, exec_bind_ok hrun, hreading, hresults]
    rfl

/-- The path of an example as it is shown. -/
def shown (subject : Subject) (file : Path) : String :=
  ((file.relativeTo? subject.root).getD file).toString

/-- What the check comes to with these results. -/
def outcomeOf (subject : Subject) (directory : Path) (results : List Compilation) (files : List Path) :
    Outcome :=
  .found (files.filterMap fun file => violation? (shown subject file) (lastResult? directory results file))
    [("examples", .int files.length),
     ("configurations", .int ((files.map fun file =>
       configurations (lastResult? directory results file)).sum : Nat))]

theorem foldl_add_eq_sum {α : Type} (count : α → Nat) (items : List α) (total : Int) :
    items.foldl (fun (total : Int) item => total + (count item : Int)) total =
      total + ((items.map count).sum : Nat) := by
  induction items generalizing total with
  | nil => simp
  | cons item items ih =>
    rw [List.foldl_cons, ih, List.map_cons, List.sum_cons]
    push_cast
    exact add_assoc _ _ _

/-- An example is shown with its path relative to the module, next to the result that counts for it. -/
theorem exec_resultFor (hwithin : ∃ path, file.relativeTo? subject.root = some path)
    (hnull : file.hasNull = false) (results : List Compilation) (known : Findings) (host : Host) :
    ((do
      let path ← relative subject file
      return (path.toString, (byTarget host.directory results).get? (← Action.resolve file).toString) :
        Checking (String × Option Compilation)).run known).exec host =
      (.ok ((shown subject file, lastResult? host.directory results file), known), host) := by
  obtain ⟨path, hpath⟩ := hwithin
  have hrelative : (relative subject file).exec host = (.ok path, host) := by
    unfold relative
    rw [hpath]
    rfl
  rw [Checking.exec_bind_ok (Checking.exec_lift_ok hrelative known),
    Checking.exec_bind_ok (Checking.exec_lift_ok (exec_resolve hnull host) known), get?_byTarget,
    shown, hpath]
  rfl

theorem exec_compile (hanswered : IsAnswered subject host results) {files : List Path}
    (hfiles : (Examples.files subject).exec host = (.ok files, host)) (hne : files ≠ [])
    (hwithin : ∀ file ∈ files, ∃ path, file.relativeTo? subject.root = some path)
    (hnull : ∀ file ∈ files, file.hasNull = false) (known : Findings) :
    ∃ after, ((compile subject).run known).exec host =
      (.ok (outcomeOf subject host.directory results files, known), after) := by
  obtain ⟨executable, hfind⟩ := exec_find_of_isFound hanswered.found
  obtain ⟨after, hcompile, hdirectory⟩ :=
    exec_compileAll hanswered (subject.session executable) files
  have hpaths : (Parsing.byPath (results.map fun result => (result.path, result))).exec after =
      (.ok (byTarget host.directory results), after) := by
    rw [Parsing.exec_byPath after (List.forall_mem_map.mpr fun result hresult =>
      Path.hasNull_ofString (hanswered.noNull result hresult)), hdirectory, List.map_map]
    rfl
  have hloop := fun file hfile =>
    hdirectory ▸ exec_resultFor (hwithin file hfile) (hnull file hfile) results known after
  refine ⟨after, ?_⟩
  unfold compile
  rw [Checking.exec_bind_ok (Checking.exec_lift_ok hfiles known), if_neg (by simpa using hne),
    Checking.exec_bind_ok (Checking.exec_lift_ok hfind known)]
  dsimp only
  rw [Checking.exec_bind_ok (Checking.exec_lift_ok hcompile known),
    Checking.exec_bind_ok (Checking.exec_lift_ok hpaths known),
    Checking.exec_bind_ok (Checking.exec_mapM_ok hloop), List.filterMap_map,
    foldl_add_eq_sum (fun result : String × Option Compilation => configurations result.2),
    List.map_map, Int.zero_add]
  rfl

/-! ## The account of the examples -/

/-- The violation, if there is one, has the code. -/
def HasCode (code : String) (found : Option Violation) : Prop :=
  ∃ violation, found = some violation ∧ violation.code = code

/-- What is found of an example, which is shown with a path: it was not compiled if no result leads to it,
and otherwise the last result that does tells whether compiling it failed. -/
structure IsVerdict (directory : Path) (results : List Compilation) (file : Path) (path : String)
    (found : Option Violation) : Prop where
  notCompiled : HasCode "EXAMPLE_NOT_COMPILED" found ↔
    ∀ result ∈ results, ¬ LeadsTo directory file result.path
  compileFailed : HasCode "EXAMPLE_COMPILE_FAILED" found ↔
    ∃ last, lastResult? directory results file = some last ∧ last.passed = false
  passed : found = none ↔
    ∃ last, lastResult? directory results file = some last ∧ last.passed = true
  placed : ∀ violation, found = some violation →
    ∃ code message, violation = .ofFile code message path

theorem code_ofFile {code : String} (hcode : Violation.trimmed code = code) (hne : code.isEmpty = false)
    (message path : String) : (Violation.ofFile code message path).code = code := by
  simp only [Violation.ofFile, Violation.normalize, hcode, hne, Bool.false_eq_true, if_false]

theorem code_notCompiled (message path : String) :
    (Violation.ofFile "EXAMPLE_NOT_COMPILED" message path).code = "EXAMPLE_NOT_COMPILED" :=
  code_ofFile (by decide) rfl message path

theorem code_compileFailed (message path : String) :
    (Violation.ofFile "EXAMPLE_COMPILE_FAILED" message path).code = "EXAMPLE_COMPILE_FAILED" :=
  code_ofFile (by decide) rfl message path

theorem hasCode_some {code : String} {violation : Violation} :
    HasCode code (some violation) ↔ violation.code = code := by
  simp only [HasCode, Option.some.injEq, exists_eq_left']

theorem not_hasCode_none (code : String) : ¬ HasCode code none := nofun

section

variable {last : Compilation} (path : String)

theorem isVerdict_notCompiled (hlast : lastResult? directory results file = none) :
    IsVerdict directory results file path
      (some (.ofFile "EXAMPLE_NOT_COMPILED" "example produced no compile result" path)) where
  notCompiled := by
    rw [hasCode_some, code_notCompiled]
    exact iff_of_true rfl (lastResult?_eq_none_iff.mp hlast)
  compileFailed := by
    rw [hasCode_some, code_notCompiled, hlast]
    simp
  passed := by simp [hlast]
  placed _ hviolation := ⟨_, _, (Option.some.inj hviolation).symm⟩

theorem exists_leadsTo_of_lastResult? (hlast : lastResult? directory results file = some last) :
    ¬ ∀ result ∈ results, ¬ LeadsTo directory file result.path := by
  rw [← lastResult?_eq_none_iff, hlast]
  exact Option.some_ne_none last

theorem isVerdict_compileFailed (hlast : lastResult? directory results file = some last)
    (hfailed : last.passed = false) (message : String) :
    IsVerdict directory results file path
      (some (.ofFile "EXAMPLE_COMPILE_FAILED" message path)) where
  notCompiled := by
    rw [hasCode_some, code_compileFailed]
    exact iff_of_false (by decide) (exists_leadsTo_of_lastResult? hlast)
  compileFailed := by
    rw [hasCode_some, code_compileFailed]
    exact iff_of_true rfl ⟨last, hlast, hfailed⟩
  passed := by simp [hlast, hfailed]
  placed _ hviolation := ⟨_, _, (Option.some.inj hviolation).symm⟩

theorem isVerdict_passed (hlast : lastResult? directory results file = some last)
    (hpassed : last.passed = true) : IsVerdict directory results file path none where
  notCompiled := iff_of_false (not_hasCode_none _) (exists_leadsTo_of_lastResult? hlast)
  compileFailed := by simp [not_hasCode_none, hlast, hpassed]
  passed := iff_of_true rfl ⟨last, hlast, hpassed⟩
  placed := nofun

theorem isVerdict_violation? (directory : Path) (results : List Compilation) (file : Path) :
    IsVerdict directory results file path
      (violation? path (lastResult? directory results file)) := by
  cases hlast : lastResult? directory results file with
  | none => exact isVerdict_notCompiled path hlast
  | some last =>
    unfold violation?
    dsimp only
    split
    · exact isVerdict_passed path hlast ‹_›
    · exact isVerdict_compileFailed path hlast (Bool.of_not_eq_true ‹_›) _

end

/-- The results that count for examples and say that these passed. -/
def passedResults (directory : Path) (results : List Compilation) (files : List Path) :
    List Compilation :=
  (files.filterMap (lastResult? directory results)).filter (·.passed)

theorem sum_configurations (directory : Path) (results : List Compilation) (files : List Path) :
    (files.map fun file => configurations (lastResult? directory results file)).sum =
      ((passedResults directory results files).map fun result => result.configurations.length).sum := by
  induction files with
  | nil => rfl
  | cons file files ih =>
    rw [List.map_cons, List.sum_cons, ih, passedResults, passedResults, List.filterMap_cons]
    cases lastResult? directory results file with
    | none => simp [configurations]
    | some last =>
      cases hpassed : last.passed <;> simp [configurations, hpassed]

theorem length_eq_violations_add_passed (pathOf : Path → String) (directory : Path)
    (results : List Compilation) (files : List Path) :
    files.length =
      (files.filterMap fun file => violation? (pathOf file) (lastResult? directory results file)).length +
        (passedResults directory results files).length := by
  induction files with
  | nil => rfl
  | cons file files ih =>
    rw [List.length_cons, ih, passedResults, passedResults, List.filterMap_cons, List.filterMap_cons]
    cases lastResult? directory results file with
    | none =>
      simp only [violation?, List.length_cons]
      omega
    | some last =>
      cases hpassed : last.passed <;>
        simp only [violation?, hpassed, Bool.false_eq_true, if_false, if_true, List.filter_cons,
          List.length_cons] <;> omega

/-- Each example is accounted for, in order, and what passed is counted. -/
structure Accounts (subject : Subject) (directory : Path) (results : List Compilation)
    (files : List Path) (outcome : Outcome) : Prop where
  made : outcome.skipped = ""
  verdicts : ∃ found : Path → Option Violation, outcome.violations = files.filterMap found ∧
    ∀ file ∈ files, ∃ path, file.relativeTo? subject.root = some path ∧
      IsVerdict directory results file path.toString (found file)
  metrics : outcome.metrics = [("examples", .int files.length),
    ("configurations", .int (((passedResults directory results files).map fun result =>
      result.configurations.length).sum : Nat))]
  complete : files.length =
    outcome.violations.length + (passedResults directory results files).length

theorem accounts_outcomeOf (directory : Path) (results : List Compilation) {files : List Path}
    (hwithin : ∀ file ∈ files, ∃ path, file.relativeTo? subject.root = some path) :
    Accounts subject directory results files (outcomeOf subject directory results files) where
  made := rfl
  verdicts := by
    refine ⟨_, rfl, fun file hfile => ?_⟩
    obtain ⟨path, hpath⟩ := hwithin file hfile
    refine ⟨path, hpath, ?_⟩
    have hshown : shown subject file = path.toString := by
      rw [shown, hpath]
      rfl
    rw [hshown]
    exact isVerdict_violation? path.toString directory results file
  metrics := by
    rw [← sum_configurations]
    rfl
  complete := length_eq_violations_add_passed (shown subject) directory results files

/-- The results that lead to examples. -/
def ownResults (directory : Path) (files : List Path) (results : List Compilation) : List Compilation :=
  results.filter fun result => ∃ file ∈ files, LeadsTo directory file result.path

theorem lastResult?_ownResults {files : List Path} (hfile : file ∈ files) :
    lastResult? directory (ownResults directory files results) file =
      lastResult? directory results file :=
  lastResult?_filter fun _ hleads => decide_eq_true ⟨file, hfile, hleads⟩

/-- What the check comes to depends on the results that lead to examples alone. -/
theorem outcomeOf_congr {results' : List Compilation} {files : List Path}
    (hown : ownResults directory files results' = ownResults directory files results) :
    outcomeOf subject directory results' files = outcomeOf subject directory results files := by
  have hlast : ∀ file ∈ files,
      lastResult? directory results' file = lastResult? directory results file := by
    intro file hfile
    rw [← lastResult?_ownResults hfile, hown, lastResult?_ownResults hfile]
  have hviolations : (files.filterMap fun file =>
        violation? (shown subject file) (lastResult? directory results' file)) =
      files.filterMap fun file =>
        violation? (shown subject file) (lastResult? directory results file) :=
    List.filterMap_congr fun file hfile => by rw [hlast file hfile]
  have hcounts : (files.map fun file => configurations (lastResult? directory results' file)) =
      files.map fun file => configurations (lastResult? directory results file) :=
    List.map_congr_left fun file hfile => by rw [hlast file hfile]
  rw [outcomeOf, outcomeOf, hviolations, hcounts]

/-! ## Modules with examples -/

/-- A module with examples: the directory for them is in the module, and a script that is not excluded is
below it. -/
structure HasExamples (subject : Subject) (host : Host) (root : Place) : Prop where
  tree : Resource.IsModuleTree subject host root
  within : (Examples.directory subject).isWithin subject.root = true
  noNull : (Examples.directory subject).hasNull = false
  present : ∃ place file, host.volume.LeadsTo host.directory (Examples.directory subject) place ∧
    File.IsBelow host.volume place subject.config.excludedDirectories file ∧
    File.hasSuffix [".ps1"] file = true

/-- A directory that is configured by a relative path is in the module. -/
theorem isWithin_directory
    (hrelative : (Path.ofString subject.config.examplesDirectory).root = .relative) :
    (Examples.directory subject).isWithin subject.root = true := by
  rw [Path.isWithin, Examples.directory, Path.components_join subject.root hrelative,
    List.isPrefixOf_iff_prefix]
  exact List.prefix_append _ _

/-- The files are the examples: the scripts below the directory for them that are not excluded. -/
def AreExamples (subject : Subject) (host : Host) (files : List Path) : Prop :=
  ∃ (place : Place) (walk : List Path),
    host.volume.LeadsTo host.directory (Examples.directory subject) place ∧
    files = walk.map (Examples.directory subject).join ∧
    ∀ file, file ∈ walk ↔
      File.IsBelow host.volume place subject.config.excludedDirectories file ∧
        File.hasSuffix [".ps1"] file = true

theorem HasExamples.exec_files {root : Place} (hexamples : HasExamples subject host root) :
    ∃ files, (Examples.files subject).exec host = (.ok files, host) ∧ files ≠ [] ∧
      AreExamples subject host files := by
  obtain ⟨place, file, hleads, hscript⟩ := hexamples.present
  have hdirectory := Volume.isDirectory_iff_leadsTo.mpr ⟨hexamples.noNull, place, hleads⟩
  obtain ⟨walk, hfiles, hmem⟩ := exec_exampleFiles hexamples.tree.proper hdirectory hleads
  exact ⟨_, hfiles, List.ne_nil_of_mem (List.mem_map_of_mem ((hmem file).mpr hscript)),
    place, walk, hleads, rfl, hmem⟩

/-- An example has a path relative to the module, and one that can be followed. -/
theorem AreExamples.forall_mem {root : Place} {files : List Path}
    (hfiles : AreExamples subject host files) (hexamples : HasExamples subject host root) :
    ∀ file ∈ files, (∃ path, file.relativeTo? subject.root = some path) ∧ file.hasNull = false := by
  obtain ⟨place, walk, -, rfl, hmem⟩ := hfiles
  refine List.forall_mem_map.mpr fun file hfile => ?_
  have hbelow := ((hmem file).mp hfile).1
  exact ⟨Path.exists_relativeTo?_join hexamples.within hbelow.relative,
    hbelow.hasNull_join hexamples.tree.readable hexamples.noNull⟩

theorem looks_exampleFiles (subject : Subject) : LooksAtFiles (Examples.files subject) := by
  have hasks : LooksAtFiles (isDirectory (Examples.directory subject)) := by
    apply LooksAtFiles.of_reads (reads_isDirectory _)
    intro host other hsame
    rw [isDirectory, exec_askVolume, exec_askVolume, hsame.volume, hsame.directory]
    split <;> rfl
  unfold Examples.files
  refine .bind hasks fun found => ?_
  split
  · exact .bind (File.looks_withSuffix _ _ _) fun _ => .pure _
  · exact .pure _

/-- Every example is accounted for, whatever results PowerShell answers with: it is a violation if no
result leads to it or the last one that does says that it did not pass, and otherwise its configurations are
counted.  Results that lead elsewhere change nothing. -/
theorem examples_are_accounted_for {root : Place} (hexamples : HasExamples subject host root)
    (hanswered : IsAnswered subject host results) (known : Findings) :
    ∃ files outcome after, (Examples.files subject).exec host = (.ok files, host) ∧
      AreExamples subject host files ∧
      ((compile subject).run known).exec host = (.ok (outcome, known), after) ∧
      Accounts subject host.directory results files outcome ∧
      ∀ {other results' known'}, host.SameFiles other → IsAnswered subject other results' →
        ownResults host.directory files results' = ownResults host.directory files results →
        ∃ after', ((compile subject).run known').exec other = (.ok (outcome, known'), after') := by
  obtain ⟨files, hfiles, hne, hscripts⟩ := hexamples.exec_files
  have hwithin := fun file hfile => (hscripts.forall_mem hexamples file hfile).1
  have hnull := fun file hfile => (hscripts.forall_mem hexamples file hfile).2
  obtain ⟨after, hend⟩ := exec_compile hanswered hfiles hne hwithin hnull known
  refine ⟨files, _, after, hfiles, hscripts, hend, accounts_outcomeOf _ _ hwithin, ?_⟩
  intro other results' known' hsame hanswered' hown
  have hother : (Examples.files subject).exec other = (.ok files, other) := by
    obtain ⟨ending, hending⟩ := looks_exampleFiles subject host
    obtain rfl : ending = .ok files :=
      congrArg Prod.fst ((hending host (.refl host)).symm.trans hfiles)
    exact hending other hsame
  obtain ⟨after', hend'⟩ := exec_compile hanswered' hother hne hwithin hnull known'
  rw [hsame.directory, outcomeOf_congr hown] at hend'
  exact ⟨after', hend'⟩

/-- The module with a directory for examples, on a host where PowerShell answers with this text. -/
def compilingHost (answer : String) : Host :=
  { plainHost with results := [.finished 0 (Tool.ResultLine.mark ++ answer) ""] }

/-- An answer with a row for the example and one for another file. -/
def twoRows : String :=
  "[\x7b\"path\":\"/m/Examples/x.ps1\",\"status\":\"pass\",\"configurations\":[\"A\"]\x7d," ++
    "\x7b\"path\":\"/m/y.ps1\",\"status\":\"fail\"\x7d]"

def twoResults : List Compilation :=
  [⟨"/m/Examples/x.ps1", true, ["A"], ""⟩, ⟨"/m/y.ps1", false, [], ""⟩]

theorem isAnswered_twoRows :
    IsAnswered (subjectWith "Examples") (compilingHost twoRows) twoResults where
  found := ⟨"/bin/pwsh", congrArg Prod.fst (Tool.Pwsh.exec_find_of_name (by decide) _)⟩
  made := ⟨_, rfl⟩
  answers := ⟨_, Tool.Pwsh.answer?_of_line (by decide +kernel) (by cbv), rfl⟩
  noNull := by decide

theorem hasExamples_compilingHost (answer : String) :
    HasExamples (subjectWith "Examples") (compilingHost answer) ["m"] where
  tree := {
    proper := isProper_plainHost
    readable := by
      show Volume.HasReadableNames plainHost.volume
      unfold Volume.HasReadableNames
      decide
    leads := ⟨rfl, rfl⟩
    noNull := by decide }
  within := isWithin_directory rfl
  noNull := by decide
  present := ⟨["m", "Examples"], ⟨.relative, ["x.ps1"]⟩, ⟨rfl, rfl⟩,
    ⟨rfl, by decide, ⟨[], rfl⟩, by decide⟩, by decide⟩

theorem examples_are_accounted_for_twoRows :
    ∃ files outcome after,
      (Examples.files (subjectWith "Examples")).exec (compilingHost twoRows) =
        (.ok files, compilingHost twoRows) ∧
      ((compile (subjectWith "Examples")).run .none).exec (compilingHost twoRows) =
        (.ok (outcome, .none), after) ∧
      Accounts (subjectWith "Examples") ⟨.slash, ["m"]⟩ twoResults files outcome := by
  obtain ⟨files, outcome, after, hfiles, -, hend, haccounts, -⟩ :=
    examples_are_accounted_for (hasExamples_compilingHost twoRows) isAnswered_twoRows .none
  exact ⟨files, outcome, after, hfiles, hend, haccounts⟩

end Check.Examples

end DscAudit

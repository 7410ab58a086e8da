import DscAudit.Proofs.Check.Offline
import DscAudit.Proofs.Check.Order
import DscAudit.Proofs.Check.ResourceFiles

/-!
# What the checks of the manifest and of resources cover

Each of these checks decides on its own whether there is something to look at, and skips what is not
there.  Together they leave nothing out: where a check of the manifest skips, another one reports why,
and each of the two files that a resource needs is reported missing or judged.  The one thing that keeps
a missing file from being reported is a resource whose name is too long for a name of its files; then
the check that looks for the files breaks off, which fails the run as well.
-/

namespace DscAudit

open DscAudit.Action

namespace Check

/-! ## The manifest -/

theorem statusOf_eq_skip_iff {outcome : Outcome} : statusOf outcome = .skip ↔ outcome.skipped ≠ "" := by
  unfold statusOf
  by_cases hskipped : outcome.skipped = ""
  · have hmade : ¬ (!outcome.skipped.isEmpty) = true := by simp [hskipped]
    rw [if_neg hmade]
    simp only [hskipped, ne_eq, not_true_eq_false, iff_false]
    split <;> simp
  · simp [hskipped]

theorem statusOf_eq_fail {outcome : Outcome} (hskipped : outcome.skipped = "")
    (herror : ∃ violation ∈ outcome.violations, violation.severity = .error) :
    statusOf outcome = .fail := by
  unfold statusOf
  simpa [hskipped] using herror

namespace Manifest

open DscAudit.Manifest (Content candidates choose?)

variable {subject : Subject} {host : Host} {root : Place}

theorem exec_candidates (htree : Resource.IsModuleTree subject host root) :
    ∃ names, (candidates subject.root).exec host = (.ok names, host) ∧
      ∀ name ∈ names, ∃ content, host.volume.find? (root ++ [name]) = some (.file content) := by
  obtain ⟨names, hnames, -, hmem⟩ := File.exec_namesIn htree.proper htree.leads File.isFileNode
  unfold candidates
  rw [exec_bind_ok hnames]
  refine ⟨_, rfl, fun name hname => ?_⟩
  obtain ⟨node, hnode, hkind⟩ := (hmem name).mp (List.mem_of_mem_filter hname)
  cases node with
  | directory => cases hkind
  | file content => exact ⟨content, hnode⟩

theorem mem_of_choose? {moduleName name : String} {names : List String}
    (hchosen : choose? moduleName names = some name) : name ∈ names := by
  unfold choose? at hchosen
  rcases Option.or_eq_some_iff.mp hchosen with hnamed | ⟨-, hsingle⟩
  · exact List.mem_of_find?_eq_some hnamed
  · split at hsingle
    · obtain rfl := Option.some.inj hsingle
      exact List.mem_singleton_self _
    · cases hsingle

/-- The manifest can be read, and nothing is there exactly if none can be chosen. -/
theorem exec_load (htree : Resource.IsModuleTree subject host root) :
    ∃ names content, (candidates subject.root).exec host = (.ok names, host) ∧
      (Content.load subject.root).exec host = (.ok content, host) ∧
      (content = .absent ↔ choose? subject.root.name names = none) := by
  obtain ⟨names, hnames, hfiles⟩ := exec_candidates htree
  refine ⟨names, ?_⟩
  unfold Content.load
  rw [hnames, exec_bind_ok hnames]
  cases hchosen : choose? subject.root.name names with
  | none => exact ⟨.absent, rfl, rfl, by simp⟩
  | some name =>
    obtain ⟨content, hcontent⟩ := hfiles name (mem_of_choose? hchosen)
    have hlocate : host.volume.locate host.directory (subject.root.child name) = .ok (root ++ [name]) := by
      rw [Volume.locate_child, htree.leads.locate]
      exact htree.proper.walk_eq_ok hcontent (by simp)
    have hnull : (subject.root.child name).hasNull = false := by
      have hroot := htree.noNull
      have hname := htree.readable _ (Volume.mem_of_find?_eq_some (by simp) hcontent) name (by simp)
      unfold Path.hasNull at hroot ⊢
      simp only [Path.child, List.any_append, hroot, List.any_cons, hname, List.any_nil, Bool.or_false]
    have hread := exec_readFile_of_locate hnull hlocate hcontent
    refine ⟨.ofFile name content, rfl, ?_, ?_⟩
    · dsimp only
      rw [exec_bind_ok hread]
      rfl
    · simp only [reduceCtorEq, iff_false]
      unfold Content.ofFile
      split
      · simp
      · split <;> simp

theorem ending_present {names : List String}
    (hnames : (candidates subject.root).exec host = (.ok names, host)) :
    ∃ outcome, (((present subject).run Findings.none).exec host).1.map (·.1) = .ok outcome ∧
      outcome.skipped = "" ∧
      (choose? subject.root.name names = none →
        ∃ violation ∈ outcome.violations, violation.severity = .error) := by
  unfold present
  rw [Checking.exec_bind_ok (Checking.exec_lift_ok hnames _)]
  dsimp only
  cases choose? subject.root.name names with
  | some name => exact ⟨_, rfl, rfl, by simp⟩
  | none =>
    dsimp only
    split
    · exact ⟨_, rfl, rfl, fun _ => ⟨_, List.mem_singleton_self _, rfl⟩⟩
    · exact ⟨_, rfl, rfl, fun _ => ⟨_, List.mem_singleton_self _, rfl⟩⟩

theorem exec_content {content : Content}
    (hload : (Content.load subject.root).exec host = (.ok content, host)) :
    ((Manifest.content subject).run Findings.none).exec host =
      (.ok (content, { Findings.none with manifest := some content }), host) := by
  rw [run_content]
  exact exec_bind_ok hload _

theorem ending_valid {content : Content}
    (hload : (Content.load subject.root).exec host = (.ok content, host)) :
    ∃ outcome, (((valid subject).run Findings.none).exec host).1.map (·.1) = .ok outcome ∧
      (content ≠ .absent → outcome.skipped = "") ∧
      (∀ name reason, content = .unreadable name reason →
        ∃ violation ∈ outcome.violations, violation.severity = .error) := by
  unfold valid
  rw [Checking.exec_bind_ok (exec_content hload)]
  cases content with
  | absent => exact ⟨_, rfl, fun hsome => absurd rfl hsome, nofun⟩
  | unreadable name reason =>
    exact ⟨_, rfl, fun _ => rfl, fun _ _ _ => ⟨_, List.mem_singleton_self _, rfl⟩⟩
  | entries name table => exact ⟨_, rfl, fun _ => rfl, nofun⟩

theorem skipped_versionOutcome (name minimum : String) (wanted : Option Value) :
    (versionOutcome name minimum wanted).skipped = "" := by
  unfold versionOutcome
  split
  · rfl
  split
  · rfl
  split <;> rfl

theorem ending_powerShellVersion {content : Content}
    (hload : (Content.load subject.root).exec host = (.ok content, host)) :
    ∃ outcome, (((powerShellVersion subject).run Findings.none).exec host).1.map (·.1) = .ok outcome ∧
      (∀ name table, content = .entries name table → outcome.skipped = "") := by
  unfold powerShellVersion
  rw [Checking.exec_bind_ok (exec_content hload)]
  cases content with
  | absent => exact ⟨_, rfl, nofun⟩
  | unreadable name reason => exact ⟨_, rfl, nofun⟩
  | entries name table => exact ⟨_, rfl, fun _ _ _ => skipped_versionOutcome _ _ _⟩

end Manifest

/-! ## Runs -/

theorem nodup_ids : (all.map fun check => check.id).Nodup := by decide

section Runs

variable {subject : Subject} {optIn : OptIn} {host : Host} {checks : List Check}
  {results : List Result} {check : Check} {result : Result}

/-- The checks of the manifest and of resources. -/
def covering : List Check := manifestChecks ++ resourceChecks

theorem mem_all_of_mem_covering (hcheck : check ∈ covering) : check ∈ all := by
  simp only [covering, List.mem_append] at hcheck
  rcases hcheck with hcheck | hcheck <;> simp [all, hcheck]

theorem optIn_of_mem_covering (hcheck : check ∈ covering) : check.optIn = false := by
  have hall : ∀ check ∈ covering, check.optIn = false := by decide
  exact hall check hcheck

theorem forall_tellsAlone (hresults : List.Forall₂ (TellsAlone subject optIn host) checks results) :
    results.map (·.check) = checks ∧
      ∀ result ∈ results, TellsAlone subject optIn host result.check result := by
  induction hresults with
  | nil => simp
  | @cons check result checks results hresult _ ih =>
    have hcheck : result.check = check := by
      obtain ⟨milliseconds, rfl⟩ := hresult
      exact check_resultOfEnding _ _ _ _
    refine ⟨by rw [List.map_cons, ih.1, hcheck], ?_⟩
    rw [List.forall_mem_cons, hcheck]
    exact ⟨hresult, ih.2⟩

theorem TellsAlone.of_ok (htells : TellsAlone subject optIn host check result)
    (hcheck : check ∈ covering) {outcome : Outcome}
    (hend : endingAlone subject host check = .ok outcome) :
    result.status = statusOf outcome ∧ result.violations.Perm outcome.violations := by
  obtain ⟨milliseconds, rfl⟩ := htells
  have hkept : ¬ check.IsDowngraded (isOptedIn check optIn) outcome := by
    rintro ⟨-, hneeds, -⟩
    rw [optIn_of_mem_covering hcheck] at hneeds
    cases hneeds
  rw [hend]
  rw [resultOfEnding, resultOf_of_not_isDowngraded hkept]
  exact ⟨rfl, Violation.sort_perm _⟩

theorem TellsAlone.of_error (htells : TellsAlone subject optIn host check result) {failure : Failure}
    (hend : endingAlone subject host check = .error failure) :
    result.status = .error ∧ result.violations = [] := by
  obtain ⟨milliseconds, rfl⟩ := htells
  rw [hend]
  exact ⟨rfl, rfl⟩

/-- How a check that settles ends by itself. -/
theorem endingAlone_of_settles (check : Check) {reason : Prop} {outcome : Outcome}
    (hsettles : Checking.Settles Findings.none host _ reason (check.run subject) outcome) :
    (reason ∧ ∃ failure, endingAlone subject host check = .error failure) ∨
      (¬ reason ∧ endingAlone subject host check = .ok outcome) := by
  unfold endingAlone
  rcases hsettles with ⟨hreason, failure, hexec⟩ | ⟨hnone, hexec⟩
  · exact .inl ⟨hreason, failure, by rw [hexec]; rfl⟩
  · exact .inr ⟨hnone, by rw [hexec]; rfl⟩

/-- The results are those of checks that each end as by themselves, those of the manifest and of
resources among them. -/
structure Covers (subject : Subject) (optIn : OptIn) (host : Host) (results : List Result) : Prop where
  tells : ∀ result ∈ results, result.check ∈ all ∧
    TellsAlone subject optIn host result.check result
  every : ∀ check ∈ covering, ∃ result ∈ results, result.check = check

theorem Covers.tells_of_id (hcovers : Covers subject optIn host results) (hcheck : check ∈ covering)
    (hresult : result ∈ results) (hid : result.check.id = check.id) :
    TellsAlone subject optIn host check result := by
  obtain ⟨hall, htells⟩ := hcovers.tells result hresult
  rwa [List.inj_on_of_nodup_map nodup_ids hall (mem_all_of_mem_covering hcheck) hid] at htells

theorem Covers.exists_tells (hcovers : Covers subject optIn host results)
    (hcheck : check ∈ covering) :
    ∃ result ∈ results, result.check = check ∧ TellsAlone subject optIn host check result := by
  obtain ⟨result, hresult, rfl⟩ := hcovers.every check hcheck
  exact ⟨result, hresult, rfl, (hcovers.tells result hresult).2⟩

variable {root : Place}

/-- The manifest of the module can be chosen and read. -/
def HasManifest (subject : Subject) (host : Host) : Prop :=
  ∃ name table, (DscAudit.Manifest.Content.load subject.root).exec host =
    (.ok (.entries name table), host)

/-- A manifest that cannot be chosen or read is reported with an error. -/
theorem Covers.reports_manifest (hcovers : Covers subject optIn host results)
    (htree : Resource.IsModuleTree subject host root) (hnone : ¬ HasManifest subject host) :
    ∃ result ∈ results, result.check.id ∈ ["manifest/present", "manifest/valid"] ∧
      result.status = .fail ∧ ∃ violation ∈ result.violations, violation.severity = .error := by
  obtain ⟨names, content, hnames, hload, habsent⟩ := Manifest.exec_load htree
  -- the check that fails, and how it ends by itself
  have hreports : ∃ check ∈ covering, check.id ∈ ["manifest/present", "manifest/valid"] ∧
      ∃ outcome, endingAlone subject host check = .ok outcome ∧ outcome.skipped = "" ∧
        ∃ violation ∈ outcome.violations, violation.severity = .error := by
    cases content with
    | absent =>
      obtain ⟨outcome, hend, hskipped, hmissing⟩ := Manifest.ending_present hnames
      exact ⟨manifestChecks[0], by simp [covering, manifestChecks], by decide, outcome, hend, hskipped,
        hmissing (habsent.mp rfl)⟩
    | unreadable name reason =>
      obtain ⟨outcome, hend, hskipped, hunreadable⟩ := Manifest.ending_valid hload
      exact ⟨manifestChecks[1], by simp [covering, manifestChecks], by decide, outcome, hend,
        hskipped (fun heq => by cases heq), hunreadable name reason rfl⟩
    | entries name table => exact absurd ⟨name, table, hload⟩ hnone
  obtain ⟨check, hcheck, hid, outcome, hend, hskipped, herror⟩ := hreports
  obtain ⟨result, hresult, rfl, htells⟩ := hcovers.exists_tells hcheck
  obtain ⟨hstatus, hviolations⟩ := htells.of_ok hcheck hend
  refine ⟨result, hresult, hid, hstatus.trans (statusOf_eq_fail hskipped herror), ?_⟩
  obtain ⟨violation, hviolation, hseverity⟩ := herror
  exact ⟨violation, hviolations.mem_iff.mpr hviolation, hseverity⟩

/-- The checks of the manifest skip only where it cannot be chosen or read. -/
theorem Covers.not_hasManifest_of_skip (hcovers : Covers subject optIn host results)
    (hresult : result ∈ results)
    (hid : result.check.id ∈ ["manifest/valid", "manifest/powershell-version"])
    (hskip : result.status = .skip) : ¬ HasManifest subject host := by
  rintro ⟨name, table, hload⟩
  have hends : ∃ check ∈ covering, result.check.id = check.id ∧
      ∃ outcome, endingAlone subject host check = .ok outcome ∧ outcome.skipped = "" := by
    simp only [List.mem_cons, List.not_mem_nil, or_false] at hid
    rcases hid with hid | hid
    · obtain ⟨outcome, hend, hskipped, -⟩ := Manifest.ending_valid hload
      exact ⟨manifestChecks[1], by simp [covering, manifestChecks], hid, outcome, hend, hskipped nofun⟩
    · obtain ⟨outcome, hend, hskipped⟩ := Manifest.ending_powerShellVersion hload
      exact ⟨manifestChecks[2], by simp [covering, manifestChecks], hid, outcome, hend,
        hskipped name table rfl⟩
  obtain ⟨check, hcheck, hid, outcome, hend, hskipped⟩ := hends
  have hstatus := ((hcovers.tells_of_id hcheck hresult hid).of_ok hcheck hend).1
  rw [hskip] at hstatus
  exact statusOf_eq_skip_iff.mp hstatus.symm hskipped

open DscAudit.Check.Resource (IsDirectory HasLongName RequiredFile requiredFiles filePlace textAt missingFile
  moduleSuffix schemaSuffix)

/-- The file of the resource is missing, and reported missing; or it is there, and the check that judges
files of this kind has against them what is wrong with their texts, its text among them. -/
def IsReportedOrJudged (volume : Volume) (root : Place) (results : List Result) (directory : Path)
    (required : RequiredFile) : Prop :=
  (volume.holdsFile (filePlace root directory required.suffix) = false ∧
    ∀ result ∈ results, result.check.id = "resources/schema-present" →
      result.status = .fail ∧ missingFile directory required.suffix ∈ result.violations) ∨
  (volume.holdsFile (filePlace root directory required.suffix) = true ∧
    ∀ result ∈ results, result.check.id = required.judge →
      result.status ≠ .skip ∧ ∃ judged : List Path,
        (∀ other, other ∈ judged ↔ IsDirectory volume root other ∧
          volume.holdsFile (filePlace root other required.suffix) = true) ∧
        result.violations.Perm (judged.flatMap fun other =>
          required.verdict other (textAt volume root other required.suffix)))

/-- The check that judges files of this kind, with how it is skipped and what it counts. -/
theorem exists_judge (subject : Subject) {required : RequiredFile}
    (hrequired : required ∈ requiredFiles) :
    ∃ check ∈ covering, check.id = required.judge ∧ ∃ skipped metric,
      check.run subject = Resource.judging subject required skipped metric := by
  simp only [requiredFiles, List.mem_cons, List.not_mem_nil, or_false] at hrequired
  rcases hrequired with rfl | rfl
  · exact ⟨resourceChecks[2], by simp [covering, resourceChecks], rfl, _, _,
      Resource.functions_eq subject⟩
  · exact ⟨resourceChecks[1], by simp [covering, resourceChecks], rfl, _, _,
      Resource.schemaValid_eq subject⟩

theorem Covers.judges (hcovers : Covers subject optIn host results)
    (htree : Resource.IsModuleTree subject host root) {required : RequiredFile}
    (hrequired : required ∈ requiredFiles)
    (hshort : ∀ directory, IsDirectory host.volume root directory →
      ¬ HasLongName directory required.suffix)
    {directory : Path} (hdirectory : IsDirectory host.volume root directory)
    (hfile : host.volume.holdsFile (filePlace root directory required.suffix) = true)
    (hresult : result ∈ results) (hid : result.check.id = required.judge) :
    result.status ≠ .skip ∧ ∃ judged : List Path,
      (∀ other, other ∈ judged ↔ IsDirectory host.volume root other ∧
        host.volume.holdsFile (filePlace root other required.suffix) = true) ∧
      result.violations.Perm (judged.flatMap fun other =>
        required.verdict other (textAt host.volume root other required.suffix)) := by
  obtain ⟨check, hcheck, hjudge, skipped, metric, hrun⟩ := exists_judge subject hrequired
  obtain ⟨outcome, judged, hsettles, hskipped, hviolations, hjudged⟩ :=
    Resource.settles_judging htree Findings.none hrequired skipped metric
  rw [← hrun] at hsettles
  rcases endingAlone_of_settles check hsettles with ⟨⟨other, hother, hlong⟩, -⟩ | ⟨-, hend⟩
  · exact absurd hlong (hshort other hother)
  have htells := hcovers.tells_of_id hcheck hresult (hid.trans hjudge.symm)
  obtain ⟨hstatus, hperm⟩ := htells.of_ok hcheck hend
  have hsome : judged ≠ [] := List.ne_nil_of_mem ((hjudged directory).mpr ⟨hdirectory, hfile⟩)
  refine ⟨?_, judged, hjudged, hviolations ▸ hperm⟩
  rw [hstatus, Ne, statusOf_eq_skip_iff, not_not]
  exact hskipped hsome

/-- How the check that looks for the files comes out. -/
theorem Covers.reports_files (hcovers : Covers subject optIn host results)
    (htree : Resource.IsModuleTree subject host root) (hresult : result ∈ results)
    (hid : result.check.id = "resources/schema-present") :
    ((∃ directory, IsDirectory host.volume root directory ∧
        ∃ suffix ∈ [moduleSuffix, schemaSuffix], HasLongName directory suffix) ∧
      result.status = .error) ∨
    ((¬ ∃ directory, IsDirectory host.volume root directory ∧
        ∃ suffix ∈ [moduleSuffix, schemaSuffix], HasLongName directory suffix) ∧
      ∀ directory, IsDirectory host.volume root directory →
        ∀ suffix ∈ [moduleSuffix, schemaSuffix],
          host.volume.holdsFile (filePlace root directory suffix) = false →
            result.status = .fail ∧ missingFile directory suffix ∈ result.violations) := by
  have hcheck : resourceChecks[0] ∈ covering := by simp [covering, resourceChecks]
  obtain ⟨outcome, hsettles, hskipped, hviolations⟩ :=
    Resource.settles_filesPresent htree Findings.none
  have htells := hcovers.tells_of_id hcheck hresult hid
  rcases endingAlone_of_settles resourceChecks[0] hsettles with ⟨hlong, failure, hend⟩ | ⟨hshort, hend⟩
  · exact .inl ⟨hlong, (htells.of_error hend).1⟩
  refine .inr ⟨hshort, fun directory hdirectory suffix hsuffix hmissing => ?_⟩
  obtain ⟨hstatus, hperm⟩ := htells.of_ok hcheck hend
  have hfound := (hviolations _).mpr ⟨directory, hdirectory, suffix, hsuffix, hmissing, rfl⟩
  refine ⟨hstatus.trans (statusOf_eq_fail (hskipped directory hdirectory) ⟨_, hfound, rfl⟩), ?_⟩
  exact hperm.mem_iff.mpr hfound

/-- Every file that a resource needs is reported missing or judged, unless the name of a resource is too
long for one of them. -/
theorem Covers.covers_files (hcovers : Covers subject optIn host results)
    (htree : Resource.IsModuleTree subject host root) :
    ((∃ directory, IsDirectory host.volume root directory ∧
        ∃ suffix ∈ [moduleSuffix, schemaSuffix], HasLongName directory suffix) ∧
      ∀ result ∈ results, result.check.id = "resources/schema-present" → result.status = .error) ∨
    ∀ directory, IsDirectory host.volume root directory → ∀ required ∈ requiredFiles,
      IsReportedOrJudged host.volume root results directory required := by
  by_cases hlong : ∃ directory, IsDirectory host.volume root directory ∧
      ∃ suffix ∈ [moduleSuffix, schemaSuffix], HasLongName directory suffix
  · refine .inl ⟨hlong, fun result hresult hid => ?_⟩
    rcases hcovers.reports_files htree hresult hid with ⟨-, herror⟩ | ⟨hshort, -⟩
    · exact herror
    · exact absurd hlong hshort
  refine .inr fun directory hdirectory required hrequired => ?_
  have hsuffix := Resource.suffix_mem hrequired
  by_cases hfile : host.volume.holdsFile (filePlace root directory required.suffix) = true
  · refine .inr ⟨hfile, fun result hresult hid => ?_⟩
    refine hcovers.judges htree hrequired (fun other hother hname => ?_) hdirectory hfile hresult hid
    exact hlong ⟨other, hother, required.suffix, hsuffix, hname⟩
  · rw [Bool.not_eq_true] at hfile
    refine .inl ⟨hfile, fun result hresult hid => ?_⟩
    rcases hcovers.reports_files htree hresult hid with ⟨htoo, -⟩ | ⟨-, hreports⟩
    · exact absurd htoo hlong
    · exact hreports directory hdirectory required.suffix hsuffix hfile

/-- A run without a stop covers what each of its checks covers. -/
theorem exists_covers (subject : Subject) (optIn : OptIn) (host : Host)
    (hoffline : ∀ check ∈ checks, check ∈ offline) (hcovering : ∀ check ∈ covering, check ∈ checks) :
    ∃ summary after, (runChecks subject checks optIn false).exec host = (.ok summary, after) ∧
      summary.results.map (·.check) = checks ∧ Covers subject optIn host summary.results := by
  obtain ⟨ran, left, summary, after, hrun, rfl, hresults, hleft⟩ :=
    (offline_ends_alone subject host hoffline).2 optIn false
  obtain rfl : left = [] := by
    by_contra hsome
    cases (hleft hsome).1
  rw [List.append_nil] at hrun hoffline hcovering ⊢
  obtain ⟨hchecks, htells⟩ := forall_tellsAlone hresults
  refine ⟨summary, after, hrun, hchecks, fun result hresult => ⟨?_, htells result hresult⟩,
    fun check hcheck => ?_⟩
  · have hmem : result.check ∈ ran := hchecks ▸ List.mem_map_of_mem hresult
    exact List.mem_of_mem_filter (hoffline _ hmem)
  · have hmem := hcovering check hcheck
    rw [← hchecks] at hmem
    exact List.mem_map.mp hmem

theorem isFailing_of_pass {summary : Summary} (hpass : summary.status = .pass)
    (hresult : result ∈ summary.results) : result.status.isFailing = false := by
  unfold Summary.status at hpass
  split at hpass
  · cases hpass
  · rename_i hnone
    simpa using fun hfailing => hnone (List.any_eq_true.mpr ⟨result, hresult, hfailing⟩)

/-- A module in a directory, with the entries in its directory of resources. -/
def withResources (entries : List (Place × Node)) : Host :=
  .holding ⟨(["m"], .directory) :: (["m", "DSCResources"], .directory) :: entries⟩ ⟨.slash, []⟩

/-- A resource that has only its module. -/
def halfResource : Host :=
  withResources [(["m", "DSCResources", "A"], .directory),
    (["m", "DSCResources", "A", "A.psm1"], .file [])]

theorem isModuleTree_halfResource : Resource.IsModuleTree (.ofModule "m") halfResource ["m"] where
  proper := ⟨by decide, Volume.isTree_of_entries (by decide), by decide⟩
  readable := by
    unfold Volume.HasReadableNames
    decide
  leads := ⟨by decide, by decide⟩
  noNull := by decide

theorem isContainer_withResources {entries : List (Place × Node)}
    (hentries : ∀ name, (["m", name], Node.directory) ∉ entries) :
    Resource.IsContainer (withResources entries).volume ["m"] "DSCResources" := by
  refine ⟨rfl, by decide, fun other hother _ => ?_⟩
  have hmem := Volume.mem_of_find?_eq_some (by simp) hother
  have hname : other = "DSCResources" := by
    simpa [withResources, Host.holding, hentries other] using hmem
  exact hname.ge

theorem isDirectory_halfResource {directory : Path} :
    IsDirectory halfResource.volume ["m"] directory ↔ directory = ⟨.relative, ["DSCResources", "A"]⟩ := by
  constructor
  · rintro ⟨container, resource, -, hfound, rfl⟩
    have hmem := Volume.mem_of_find?_eq_some (by simp) hfound
    have hnames : container = "DSCResources" ∧ resource = "A" := by
      simpa [halfResource, withResources, Host.holding] using hmem
    rw [hnames.1, hnames.2]
  · rintro rfl
    exact ⟨"DSCResources", "A", isContainer_withResources (by simp), rfl, rfl⟩

theorem mem_offline_of_mem_covering (hcheck : check ∈ covering) : check ∈ offline := by
  have hall : ∀ check ∈ covering, isOffline check = true := by decide
  exact List.mem_filter.mpr ⟨mem_all_of_mem_covering hcheck, hall check hcheck⟩

/-- The name of a resource that is as long as a name can be, or nearly. -/
def longName : String := String.ofList (List.replicate 250 'a')

def longResource : Host := withResources [(["m", "DSCResources", longName], .directory)]

theorem toList_longName : longName.toList = List.replicate 250 'a' := String.toList_ofList

theorem isModuleTree_longResource : Resource.IsModuleTree (.ofModule "m") longResource ["m"] where
  proper := by
    refine ⟨by decide, Volume.isTree_of_entries (by decide), ?_⟩
    have hlong : longName ≠ ".." ∧ isTooLong longName = false := by
      rw [isTooLong, toList_longName]
      decide +kernel
    simpa [longResource, withResources, Host.holding, hlong] using by decide
  readable := by
    have hlong : longName.toList.contains '\x00' = false := by
      rw [toList_longName]
      decide
    unfold Volume.HasReadableNames
    simpa [longResource, withResources, Host.holding] using hlong
  leads := ⟨by decide, by decide⟩
  noNull := by decide

end Runs

end Check

end DscAudit

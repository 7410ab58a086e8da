import DscAudit.Proofs.Check.Work
import DscAudit.Proofs.Config.Merge
import DscAudit.Proofs.Run.Evidence
import DscAudit.Proofs.Yaml.Undecodable

/-!
# The context of a run

A context is found by reading only, its directory for evidence has a path without double points, and
the numbers of its configuration are finite.  Whatever a run writes as evidence lies in that directory.

Two files in the root directory of a module configure a run.  Whatever they hold, a run has a context,
or the user is told of an error in the configuration, with one exception: what keeps the document in the
first file from being read, other than a fault in its form, is passed on as it is.
-/

/-! ## Paths and evidence -/

namespace DscAudit

open DscAudit.Action
open Effect (IsWork)

namespace RunContext

/-- What a path is resolved to depends on the host, but it is a path without double points. -/
theorem gives_resolve (path : Path) :
    Gives (fun found => ∃ directory, found = path.resolve directory) (resolve path) := by
  have hlast : Gives (fun found => ∃ directory, found = path.resolve directory)
      (do return path.resolve (← get).directory) := by
    refine .bind (.always _) fun host _ => ?_
    exact .of_pure ⟨host.directory, rfl⟩
  unfold resolve
  by_cases hnull : path.hasNull = true
  · simp only [if_pos hnull]
    exact .of_fails (.of_throw _)
  · simp only [if_neg hnull]
    exact hlast

theorem gives_isNormal_resolve (path : Path) : Gives Path.IsNormal (resolve path) := by
  intro host found after hend
  obtain ⟨directory, rfl⟩ := gives_resolve path host found after hend
  exact Path.isNormal_resolve path directory

theorem reads_home : Reads home := by
  unfold home
  refine .bind (reads_environment? _) fun found => ?_
  cases found with
  | none => exact does_defect _
  | some home => exact .pure _

theorem reads_expandHome (path : Path) : Reads (expandHome path) := by
  unfold expandHome
  split
  · exact .bind reads_home fun _ => .pure _
  · exact .ite (fun _ => does_defect _) fun _ => .pure _
  · exact .pure _

/-- The directory that a path to a module leads to, which has to be there. -/
def settleRoot (path : Path) : Action Path := do
  let root ← resolve (← expandHome path)
  if !(← isDirectory root) then
    fail ("module root does not exist: " ++ root.toString) .config "module_root_missing"
  return root

theorem moduleRoot_eq (named : Option String) : moduleRoot named = (do
    let fromEnvironment ← environment? "DSCMETA_MODULE_ROOT"
    match (nonEmpty? named).or (nonEmpty? fromEnvironment) with
    | some raw => settleRoot (Path.ofString raw)
    | none => settleRoot (← get).directory) := by
  unfold moduleRoot
  refine bind_congr fun found => ?_
  cases (nonEmpty? named).or (nonEmpty? found) <;> rfl

theorem reads_settleRoot (path : Path) : Reads (settleRoot path) := by
  unfold settleRoot
  refine .bind (reads_expandHome _) fun path => .bind (reads_resolve _) fun root => ?_
  exact .bind (reads_isDirectory _) fun _ => .guard (does_fail _ _ _) fun _ => .pure _

theorem reads_moduleRoot (named : Option String) : Reads (moduleRoot named) := by
  rw [moduleRoot_eq]
  refine .bind (reads_environment? _) fun found => ?_
  split
  · exact reads_settleRoot _
  · exact .get_bind fun _ => reads_settleRoot _

theorem reads_runIdentifier (named : Option String) : Reads (runIdentifier named) := by
  unfold runIdentifier
  split
  · exact .pure _
  · exact .get_bind fun _ => .bind (reads_environment? _) fun _ => .pure _

theorem reads_evidenceRoot (root : Path) (named : Option String) :
    Reads (evidenceRoot root named) := by
  unfold evidenceRoot
  dsimp only
  split
  · exact .bind (.pure _) fun _ => reads_resolve _
  · exact .bind (reads_environment? _) fun _ => .bind (.pure _) fun _ => reads_resolve _

theorem gives_evidenceRoot (root : Path) (named : Option String) :
    Gives Path.IsNormal (evidenceRoot root named) := by
  unfold evidenceRoot
  dsimp only
  split
  · exact .bind (.always _) fun _ _ => gives_isNormal_resolve _
  · exact .bind (.always _) fun _ _ => .bind (.always _) fun _ _ => gives_isNormal_resolve _

theorem reads_loadConfig (root : Path) : Reads (Config.load root) := by
  unfold Config.load
  refine .bind (reads_isFile _) fun found => .ite (fun _ => ?_) fun _ => .pure _
  refine .bind (reads_readFile _) fun content => ?_
  split
  · exact .pure _
  · exact .throw _

theorem reads_loadOptIn (root : Path) (config : Config) : Reads (OptIn.load root config) := by
  unfold OptIn.load
  refine .bind (reads_isFile _) fun found => .ite (fun _ => ?_) fun _ => .pure _
  refine .bind (reads_readFile _) fun content => ?_
  split
  · exact .pure _
  · exact .throw _

theorem reads_load (settings : RunSettings) : Reads (load settings) := by
  unfold load
  refine .bind (reads_moduleRoot _) fun root => .bind (reads_runIdentifier _) fun runId => ?_
  refine .bind (reads_evidenceRoot _ _) fun evidence => .bind (reads_loadConfig _) fun config => ?_
  exact .bind (reads_loadOptIn _ _) fun _ => .pure _

theorem gives_loadConfig (root : Path) : Gives Config.HasFiniteNumbers (Config.load root) := by
  unfold Config.load
  refine .bind (.always _) fun found _ => .ite (fun _ => ?_) fun _ => ?_
  · refine .bind (.always _) fun content _ => ?_
    split
    · exact .of_pure (Config.hasFiniteNumbers_ofFile ‹_›)
    · exact .of_throw _
  · exact .of_pure (Config.hasFiniteNumbers_default "")

/-- What holds of the context of a run. -/
structure IsSound (settings : RunSettings) (context : RunContext) : Prop where
  evidence : context.evidence.IsNormal
  format : context.format = settings.format
  config : context.config.HasFiniteNumbers

theorem gives_load (settings : RunSettings) : Gives (IsSound settings) (load settings) := by
  unfold load
  refine .bind (.always _) fun root _ => .bind (.always _) fun runId _ => ?_
  refine .bind (gives_evidenceRoot _ _) fun evidence hevidence => ?_
  refine .bind (gives_loadConfig _) fun config hconfig => ?_
  exact .bind (.always _) fun optIn _ => .of_pure ⟨hevidence, rfl, hconfig⟩

/-- The context of a run on a module in a directory of that name where nothing is configured. -/
def ofModule (name : String) : RunContext where
  runId := "run"
  root := ⟨.slash, [name]⟩
  evidence := ⟨.slash, [name, "output", "dscmeta"]⟩
  format := .json
  verbose := false
  quiet := false
  logJson := false
  config := .default
  optIn := ⟨[]⟩

variable {context : RunContext}

/-- The file that may be written lies in the directory for evidence. -/
def IsEvidence (context : RunContext) (file : Path) : Prop :=
  file.IsNormal ∧ context.evidence.parts <+: file.parts

theorem work_evidencePath (hcontext : context.evidence.IsNormal) (path : Path) :
    Does (IsWork context.evidence.parts) (context.evidencePath path) := by
  unfold evidencePath
  refine .bind_gives (reads_resolve _).does (gives_resolve _) ?_
  rintro target ⟨directory, rfl⟩
  refine .bind_gives (reads_resolve _).does (gives_resolve _) ?_
  rintro evidence ⟨directory', rfl⟩
  refine .ite (fun hwithin => .bind ?_ fun _ => .pure _) fun _ => does_fail _ _ _
  rw [Path.isWithin_resolve_iff, hcontext.parts_resolve] at hwithin
  exact work_makeDirectory (Path.isNormal_resolve _ _).parent hwithin (List.dropLast_prefix _)

theorem gives_evidencePath (hcontext : context.evidence.IsNormal) (path : Path) :
    Gives context.IsEvidence (context.evidencePath path) := by
  unfold evidencePath
  refine .bind (gives_resolve _) ?_
  rintro target ⟨directory, rfl⟩
  refine .bind (gives_resolve _) ?_
  rintro evidence ⟨directory', rfl⟩
  split
  · rename_i hwithin
    rw [Path.isWithin_resolve_iff, hcontext.parts_resolve] at hwithin
    exact .bind (.always _) fun _ _ => .of_pure ⟨Path.isNormal_resolve _ _, hwithin⟩
  · exact .of_throw _

theorem work_writeJson (hcontext : context.evidence.IsNormal) (path : Path) (payload : Value) :
    Does (IsWork context.evidence.parts) (context.writeJson path payload) := by
  unfold writeJson
  refine .bind_gives (work_evidencePath hcontext path) (gives_evidencePath hcontext path) ?_
  rintro target ⟨htarget, hinside⟩
  exact .bind (work_writeFile htarget hinside _) fun _ => .pure _

end RunContext

end DscAudit

/-! ## Files that configure a run -/

namespace DscAudit

open DscAudit.Action
open Text (Octets)

/-- What the file that a path leads to holds. -/
def Host.content? (host : Host) (path : Path) : Option Octets :=
  (host.volume.read host.directory path).toOption

namespace Volume

variable {volume : Volume} {directory path : Path}

theorem isFile_eq (hnull : path.hasNull = false) :
    volume.isFile directory path = (volume.read directory path).toOption.isSome := by
  unfold isFile read
  rw [hnull]
  rcases volume.lookup directory path with error | ⟨place, - | content⟩
  · rfl
  · rfl
  · rfl

end Volume

namespace Action

variable {α : Type} {host : Host} {root : Path}

/-- A step that depends on whether there is a file in a directory, and on what it holds. -/
theorem exec_isFile_readFile (hroot : host.volume.isDirectory host.directory root = true)
    {name : String} (hshort : isTooLong name = false) (hname : name.toList.contains '\x00' = false)
    (next : Octets → Action α) (otherwise : Action α) :
    (do if ← isFile (root.child name) then next (← readFile (root.child name)) else otherwise :
      Action α).exec host =
      match host.content? (root.child name) with
      | some content => (next content).exec host
      | none => otherwise.exec host := by
  have hnull : (root.child name).hasNull = false := by
    have hroot := (Volume.isDirectory_iff_leadsTo.mp hroot).1
    simp only [Path.hasNull] at hroot
    simp only [Path.hasNull, Path.child, List.any_append, hroot, List.any_cons, hname,
      List.any_nil, Bool.or_false]
  have hrefuses := Volume.not_refuses_child hroot hshort
  generalize root.child name = path at hnull hrefuses ⊢
  have hfile : (isFile path).exec host = (.ok (host.content? path).isSome, host) := by
    rw [isFile, exec_askVolume, hrefuses, Volume.isFile_eq hnull]
    simp [Host.content?]
  rw [exec_bind_ok hfile]
  unfold Host.content?
  cases hread : host.volume.read host.directory path with
  | error error => rfl
  | ok content =>
    have hcontent : (readFile path).exec host = (.ok content, host) := by
      unfold readFile
      simp only [hnull, Bool.false_eq_true, if_false]
      rw [exec_get_bind, hread]
      rfl
    exact exec_bind_ok hcontent next

end Action

/-! ## The configuration -/

namespace Config

theorem code_of_ofDatum {payload : Datum} {source : String} {complaint : Complaint}
    (hrefused : ofDatum payload source = .error complaint) : complaint.code = .config := by
  unfold ofDatum at hrefused
  split at hrefused
  · cases hrefused
  · cases hrefused
    rfl

/-- A configuration is refused as an error of the user, unless the document cannot be read at all. -/
theorem ofFile_error {content : Octets} {source : String} {failure : Failure}
    (hfile : ofFile content source = .error failure) :
    (∃ complaint, failure = .complaint complaint ∧ complaint.code = .config) ∨
      ∃ defect, failure = .defect defect ∧
        Yaml.read shape.depth content = .error (.defect defect) := by
  unfold ofFile at hfile
  split at hfile
  · cases hfile
    exact .inl ⟨_, rfl, rfl⟩
  · rename_i defect hread
    cases hfile
    exact .inr ⟨defect, rfl, hread⟩
  · cases hfile
  · rename_i payload _ _
    split at hfile
    · split at hfile
      · cases hfile
      · rename_i complaint hrefused
        cases hfile
        exact .inl ⟨complaint, rfl, code_of_ofDatum hrefused⟩
    · cases hfile
      exact .inl ⟨_, rfl, rfl⟩

theorem ofFile_defect {content : Octets} (source : String) {defect : Defect}
    (hread : Yaml.read shape.depth content = .error (.defect defect)) :
    ofFile content source = .error (.defect defect) := by
  unfold ofFile
  rw [hread]

theorem exec_load {host : Host} {root : Path}
    (hroot : host.volume.isDirectory host.directory root = true) :
    (load root).exec host =
      (match host.content? (root.child fileName) with
      | none => .ok default
      | some content => ofFile content (root.child fileName).toString, host) := by
  refine (exec_isFile_readFile hroot (by decide) (by decide) _ _).trans ?_
  cases host.content? (root.child fileName) with
  | none => rfl
  | some content =>
    dsimp only
    cases ofFile content (root.child fileName).toString with
    | ok config => rfl
    | error failure => rfl

/-- A defect of the document is all that can keep a configuration from being loaded besides an error of
the user. -/
theorem load_cases {host : Host} {root : Path}
    (hroot : host.volume.isDirectory host.directory root = true) :
    ∃ ending, (load root).exec host = (ending, host) ∧
      (∀ complaint, ending = .error (.complaint complaint) → complaint.code = .config) ∧
      ∀ defect, ending = .error (.defect defect) ↔
        ∃ content, host.content? (root.child fileName) = some content ∧
          Yaml.read shape.depth content = .error (.defect defect) := by
  refine ⟨_, exec_load hroot, ?_⟩
  cases host.content? (root.child fileName) with
  | none => simp
  | some content =>
    dsimp only
    refine ⟨fun complaint hfile => ?_, fun defect => ⟨fun hfile => ?_, ?_⟩⟩
    · rcases ofFile_error hfile with ⟨other, heq, hcode⟩ | ⟨defect, heq, -⟩
      · cases heq
        exact hcode
      · cases heq
    · rcases ofFile_error hfile with ⟨complaint, heq, -⟩ | ⟨other, heq, hread⟩
      · cases heq
      · cases heq
        exact ⟨content, rfl, hread⟩
    · rintro ⟨other, heq, hread⟩
      cases heq
      exact ofFile_defect _ hread

end Config

namespace OptIn

theorem code_of_namesOf {content : Octets} {complaint : Complaint}
    (hnames : namesOf content = .error complaint) : complaint.code = .config := by
  unfold namesOf at hnames
  split at hnames
  · cases hnames
    rfl
  split at hnames
  · cases hnames
    rfl
  split at hnames
  · cases hnames
  · cases hnames
    rfl

theorem exec_load {host : Host} {root : Path}
    (hroot : host.volume.isDirectory host.directory root = true) (config : Config) :
    (load root config).exec host =
      (match host.content? (root.child fileName) with
      | none => .ok (ofNames config.optIn)
      | some content =>
        match namesOf content with
        | .ok names => .ok (ofNames (config.optIn ++ names))
        | .error complaint => .error (.complaint complaint), host) := by
  refine (exec_isFile_readFile hroot (by decide) (by decide) _ _).trans ?_
  cases host.content? (root.child fileName) with
  | none => rfl
  | some content =>
    dsimp only
    cases namesOf content with
    | ok names => rfl
    | error complaint => rfl

/-- The names that a module opts in to are found, or the user is told of an error in the
configuration. -/
theorem load_cases {host : Host} {root : Path}
    (hroot : host.volume.isDirectory host.directory root = true) (config : Config) :
    (∃ optIn, (load root config).exec host = (.ok optIn, host)) ∨
      ∃ complaint, (load root config).exec host = (.error (.complaint complaint), host) ∧
        complaint.code = .config := by
  rw [exec_load hroot]
  cases host.content? (root.child fileName) with
  | none => exact .inl ⟨_, rfl⟩
  | some content =>
    dsimp only
    cases hnames : namesOf content with
    | ok names => exact .inl ⟨_, rfl⟩
    | error complaint => exact .inr ⟨complaint, rfl, code_of_namesOf hnames⟩

end OptIn

/-! ## The context of a run -/

namespace RunContext

theorem isDirectory_of_settleRoot {path root : Path} {host after : Host}
    (hroot : (settleRoot path).exec host = (.ok root, after)) :
    host.volume.isDirectory host.directory root = true := by
  obtain ⟨path, -, hroot⟩ := (reads_expandHome path).exec_bind_eq_ok hroot
  obtain ⟨found, -, hroot⟩ := (reads_resolve path).exec_bind_eq_ok hroot
  obtain ⟨answer, hanswer, hroot⟩ := (reads_isDirectory found).exec_bind_eq_ok hroot
  rw [isDirectory, exec_askVolume] at hanswer
  split at hanswer
  · cases hanswer
  · cases hanswer
    by_cases hfound : host.volume.isDirectory host.directory found = true
    · simp only [hfound] at hroot
      cases hroot
      exact hfound
    · simp only [Bool.not_eq_true] at hfound
      simp only [hfound] at hroot
      cases hroot

theorem isDirectory_of_moduleRoot {named : Option String} {host after : Host} {root : Path}
    (hroot : (moduleRoot named).exec host = (.ok root, after)) :
    host.volume.isDirectory host.directory root = true := by
  rw [moduleRoot_eq] at hroot
  obtain ⟨fromEnvironment, -, hroot⟩ := (reads_environment? _).exec_bind_eq_ok hroot
  split at hroot
  · exact isDirectory_of_settleRoot hroot
  · exact isDirectory_of_settleRoot hroot

theorem exec_runIdentifier (named : Option String) (host : Host) :
    ∃ id, (runIdentifier named).exec host = (.ok id, host) := by
  unfold runIdentifier
  cases nonEmpty? named with
  | none => exact ⟨_, rfl⟩
  | some id => exact ⟨id, rfl⟩

variable {settings : RunSettings} {host : Host} {root evidence : Path}

/-- For a module and a directory for evidence the context of a run is made of the two files. -/
theorem exec_load (hroot : (moduleRoot settings.moduleRoot).exec host = (.ok root, host))
    (hevidence : (evidenceRoot root settings.evidenceRoot).exec host = (.ok evidence, host)) :
    ∃ runId, (load settings).exec host =
      (do
        let config ← Config.load root
        let optIn ← OptIn.load root config
        return ⟨runId, root, evidence, settings.format, settings.verbose, settings.quiet,
          settings.logJson, config, optIn⟩ : Action RunContext).exec host := by
  obtain ⟨runId, hrunId⟩ := exec_runIdentifier settings.runId host
  refine ⟨runId, ?_⟩
  unfold load
  rw [exec_bind_ok hroot, exec_bind_ok hrunId, exec_bind_ok hevidence]

/-- The context of a run fails as its configuration does, or with an error in the opt-in file. -/
theorem load_cases (hroot : (moduleRoot settings.moduleRoot).exec host = (.ok root, host))
    (hevidence : (evidenceRoot root settings.evidenceRoot).exec host = (.ok evidence, host)) :
    ∃ ending, (load settings).exec host = (ending, host) ∧
      (∀ complaint, ending = .error (.complaint complaint) → complaint.code = .config) ∧
      ∀ defect, ending = .error (.defect defect) ↔
        ∃ content, host.content? (root.child Config.fileName) = some content ∧
          Yaml.read Config.shape.depth content = .error (.defect defect) := by
  obtain ⟨runId, hload⟩ := exec_load hroot hevidence
  have hdirectory := isDirectory_of_moduleRoot hroot
  obtain ⟨loaded, hconfig, hcomplaint, hdefect⟩ := Config.load_cases hdirectory
  rw [hload]
  cases loaded with
  | error failure =>
    refine ⟨.error failure, exec_bind_error hconfig _, fun complaint heq => ?_, fun defect => ?_⟩
    · cases heq
      exact hcomplaint _ rfl
    · rw [← hdefect]
      simp
  | ok config =>
    rw [exec_bind_ok hconfig]
    rcases OptIn.load_cases hdirectory config with ⟨optIn, hoptIn⟩ | ⟨complaint, hoptIn, hcode⟩
    · refine ⟨_, (exec_bind_ok hoptIn _).trans rfl, fun complaint heq => ?_, fun defect => ?_⟩
      · cases heq
      · rw [← hdefect]
        simp
    · refine ⟨_, exec_bind_error hoptIn _, fun other heq => ?_, fun defect => ?_⟩
      · cases heq
        exact hcode
      · rw [← hdefect]
        simp

/-- Whatever the two files in the root directory of a module hold, a run has a context or the user is
told of an error in the configuration, unless the document in the file with the configuration cannot be
read for another reason than its form.  That reason is what the run fails with, whatever the other file
holds; and a small file that is no text gives such a reason. -/
theorem load_fails_with_config (hroot : (moduleRoot settings.moduleRoot).exec host = (.ok root, host))
    (hevidence : (evidenceRoot root settings.evidenceRoot).exec host = (.ok evidence, host)) :
    ∃ ending, (load settings).exec host = (ending, host) ∧
      (∀ complaint, ending = .error (.complaint complaint) → complaint.code = .config) ∧
      (∀ defect, ending = .error (.defect defect) ↔
        ∃ content, host.content? (root.child Config.fileName) = some content ∧
          Yaml.read Config.shape.depth content = .error (.defect defect)) ∧
      ∀ content, host.content? (root.child Config.fileName) = some content →
        content.length ≤ Text.chunkSize → Text.Utf8.strict? content = none →
        ending = .error (.defect .undecodable) := by
  obtain ⟨ending, hexec, hcomplaint, hdefect⟩ := load_cases hroot hevidence
  refine ⟨ending, hexec, hcomplaint, hdefect, fun content hcontent hsmall hstrict => ?_⟩
  exact (hdefect _).mpr ⟨content, hcontent, Yaml.read_undecodable _ hsmall hstrict⟩

def bareSettings : RunSettings := ⟨none, none, none, .text, false, false, false⟩

/-- A host whose current directory is a module with these octets as its configuration. -/
def configuredHost (content : Octets) : Host :=
  .holding ⟨[(["m"], .directory), (["m", ".dscmeta.yml"], .file content)]⟩ ⟨.slash, ["m"]⟩

theorem moduleRoot_configuredHost (content : Octets) :
    (moduleRoot bareSettings.moduleRoot).exec (configuredHost content) =
      (.ok ⟨.slash, ["m"]⟩, configuredHost content) := rfl

theorem evidenceRoot_configuredHost (content : Octets) :
    (evidenceRoot ⟨.slash, ["m"]⟩ bareSettings.evidenceRoot).exec (configuredHost content) =
      (.ok ⟨.slash, ["m", "output", "dscmeta"]⟩, configuredHost content) := by
  have hpath : Path.ofString defaultEvidence = ⟨.relative, ["output", "dscmeta"]⟩ := by decide
  have hnamed : nonEmpty? bareSettings.evidenceRoot = none := rfl
  have hfound : (environment? "DSCMETA_EVIDENCE_ROOT").exec (configuredHost content) =
      (.ok none, configuredHost content) := rfl
  unfold evidenceRoot
  rw [hnamed]
  dsimp only
  rw [exec_bind_ok hfound, exec_bind_ok (exec_pure _ _), Option.getD_none, hpath]
  rfl

theorem load_fails_with_config_empty :
    ((moduleRoot bareSettings.moduleRoot).exec (configuredHost []) =
      (.ok ⟨.slash, ["m"]⟩, configuredHost []) ∧
    (evidenceRoot ⟨.slash, ["m"]⟩ bareSettings.evidenceRoot).exec (configuredHost []) =
      (.ok ⟨.slash, ["m", "output", "dscmeta"]⟩, configuredHost [])) ∧
    ∃ ending, (load bareSettings).exec (configuredHost []) = (ending, configuredHost []) ∧
      (∀ complaint, ending = .error (.complaint complaint) → complaint.code = .config) ∧
      ∀ defect, ending ≠ .error (.defect defect) := by
  have hroot := moduleRoot_configuredHost []
  have hevidence := evidenceRoot_configuredHost []
  obtain ⟨ending, hexec, hcomplaint, hdefect, -⟩ := load_fails_with_config hroot hevidence
  refine ⟨⟨hroot, hevidence⟩, ending, hexec, hcomplaint, fun defect heq => ?_⟩
  obtain ⟨content, hcontent, hread⟩ := (hdefect defect).mp heq
  cases hcontent
  cases hread

/-- What is no text is not told to the user as an error in the configuration. -/
theorem undecodable_config_is_defect :
    (load bareSettings).exec (configuredHost [0xFF]) =
      (.error (.defect .undecodable), configuredHost [0xFF]) := by
  obtain ⟨ending, hexec, -, hdefect⟩ :=
    load_cases (moduleRoot_configuredHost [0xFF]) (evidenceRoot_configuredHost [0xFF])
  have hread : Yaml.read Config.shape.depth [0xFF] = .error (.defect .undecodable) :=
    Yaml.read_undecodable _ (by decide) (by decide)
  rw [hexec, (hdefect .undecodable).mpr ⟨[0xFF], rfl, hread⟩]

end RunContext

end DscAudit

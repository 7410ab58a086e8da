import DscAudit.Proofs.CommandLine.Analysis
import DscAudit.Proofs.Host.Settling

/-!
# The checks of the files of resources

A resource is a directory, which needs two files named after it.  One check looks for them, and two
others each read and judge the files of one kind.  All of them break off where a file could not have its
name, and otherwise come to an outcome that the files alone decide.
-/

namespace DscAudit

open DscAudit.Action
open Text (Octets)

namespace Volume

variable {volume : Volume}

/-- Is a file at the place? -/
def holdsFile (volume : Volume) (place : Place) : Bool :=
  match volume.find? place with
  | some (.file _) => true
  | _ => false

theorem holdsFile_iff {place : Place} :
    volume.holdsFile place = true ↔ ∃ content, volume.find? place = some (.file content) := by
  unfold holdsFile
  split <;> simp_all

end Volume

/-- The file that a path leads to can be read. -/
theorem Action.exec_readFile_of_locate {host : Host} {path : Path} {place : Place} {content : Octets}
    (hnull : path.hasNull = false) (hlocate : host.volume.locate host.directory path = .ok place)
    (hcontent : host.volume.find? place = some (.file content)) :
    (readFile path).exec host = (.ok content, host) := by
  have hread : host.volume.read host.directory path = .ok content := by
    unfold Volume.read Volume.lookup
    rw [hlocate]
    simp [hcontent, bind, Except.bind, pure, Except.pure]
  unfold readFile
  rw [hnull]
  simp only [Bool.false_eq_true, if_false]
  rw [exec_get_bind, hread]
  rfl

namespace Check

/-! ## The directories of resources -/

namespace Resource

open DscAudit.Resource

/-- The directory that holds the resources: of the directories in the root directory with that name in
any case, the first one. -/
structure IsContainer (volume : Volume) (root : Place) (container : String) : Prop where
  directory : volume.find? (root ++ [container]) = some .directory
  name : Text.lowerString container = "dscresources"
  first : ∀ other, volume.find? (root ++ [other]) = some .directory →
    Text.lowerString other = "dscresources" → container ≤ other

/-- The path is that of the directory of a resource, relative to the root directory. -/
def IsDirectory (volume : Volume) (root : Place) (directory : Path) : Prop :=
  ∃ container resource, IsContainer volume root container ∧
    volume.find? (root ++ [container, resource]) = some .directory ∧
    directory = ⟨.relative, [container, resource]⟩

/-- The place of a file that a resource needs. -/
def filePlace (root : Place) (directory : Path) (suffix : String) : Place :=
  root ++ (file directory suffix).parts

/-- The name of the file is one that no file can have. -/
abbrev HasLongName (directory : Path) (suffix : String) : Prop :=
  isTooLong (directory.name ++ suffix) = true

/-- A module as a file system has it, in a directory of the host. -/
structure IsModuleTree (subject : Subject) (host : Host) (root : Place) : Prop where
  proper : host.volume.IsProper
  readable : host.volume.HasReadableNames
  leads : host.volume.LeadsTo host.directory subject.root root
  noNull : subject.root.hasNull = false

variable {subject : Subject} {host : Host} {root : Place} {directory : Path}

theorem exec_container? (htree : IsModuleTree subject host root) :
    ∃ found, (container? subject.root).exec host = (.ok found, host) ∧
      ∀ container, found = some container ↔ IsContainer host.volume root container := by
  obtain ⟨names, hnames, hsorted, hmem⟩ :=
    File.exec_namesIn htree.proper htree.leads File.isDirectoryNode
  have hdirectory (name : String) :
      name ∈ names ↔ host.volume.find? (root ++ [name]) = some .directory := by
    rw [hmem]
    constructor
    · rintro ⟨node, hnode, hkind⟩
      cases node with
      | directory => exact hnode
      | file content => cases hkind
    · exact fun hnode => ⟨.directory, hnode, rfl⟩
  have hfirst {container : String}
      (hfound : names.find? (fun name => Text.lowerString name == "dscresources") = some container) :
      IsContainer host.volume root container := by
    obtain ⟨hname, before, behind, rfl, hbefore⟩ := List.find?_eq_some_iff_append.mp hfound
    refine ⟨(hdirectory container).mp (by simp), by simpa using hname, ?_⟩
    intro other hother hlower
    rcases List.mem_append.mp ((hdirectory other).mpr hother) with hmem | hmem
    · simpa [hlower] using hbefore other hmem
    · rcases List.mem_cons.mp hmem with rfl | hmem
      · exact le_refl _
      · exact (List.pairwise_cons.mp (List.pairwise_append.mp hsorted).2.1).1 other hmem
  unfold container?
  rw [exec_bind_ok hnames]
  refine ⟨_, rfl, fun container => ⟨hfirst, fun hcontainer => ?_⟩⟩
  have hsome : (names.find? fun name => Text.lowerString name == "dscresources").isSome := by
    rw [List.find?_isSome]
    exact ⟨container, (hdirectory container).mpr hcontainer.directory, by simp [hcontainer.name]⟩
  obtain ⟨found, hfound⟩ := Option.isSome_iff_exists.mp hsome
  have hother := hfirst hfound
  rw [hfound, le_antisymm (hcontainer.first found hother.directory hother.name)
    (hother.first container hcontainer.directory hcontainer.name)]

theorem exec_directories (htree : IsModuleTree subject host root) :
    ∃ directories, (Resource.directories subject.root).exec host = (.ok directories, host) ∧
      ∀ directory, directory ∈ directories ↔ IsDirectory host.volume root directory := by
  obtain ⟨found, hfound, hcontainer⟩ := exec_container? htree
  unfold Resource.directories
  rw [exec_bind_ok hfound]
  cases found with
  | none =>
    refine ⟨[], rfl, fun directory => ?_⟩
    simp only [List.not_mem_nil, false_iff]
    rintro ⟨container, -, hother, -⟩
    cases (hcontainer container).mpr hother
  | some container =>
    have hthis := (hcontainer container).mp rfl
    have hleads : host.volume.LeadsTo host.directory (subject.root.join ⟨.relative, [container]⟩)
        (root ++ [container]) := by
      refine ⟨?_, hthis.directory⟩
      rw [Volume.locate_join host.volume host.directory subject.root rfl, htree.leads.locate]
      exact htree.proper.walk_eq_ok hthis.directory (by simp)
    obtain ⟨names, hnames, -, hmem⟩ := File.exec_namesIn htree.proper hleads File.isDirectoryNode
    dsimp only
    rw [exec_bind_ok hnames]
    refine ⟨_, rfl, fun directory => ?_⟩
    simp only [List.mem_map, hmem]
    constructor
    · rintro ⟨resource, ⟨node, hnode, hkind⟩, rfl⟩
      cases node with
      | directory => exact ⟨container, resource, hthis, by simpa using hnode, rfl⟩
      | file content => cases hkind
    · rintro ⟨other, resource, hother, hnode, rfl⟩
      obtain rfl : container = other := Option.some.inj ((hcontainer other).mpr hother)
      exact ⟨resource, ⟨.directory, by simpa using hnode, rfl⟩, rfl⟩

/-! ## The files of a resource -/

theorem hasNull_file (htree : IsModuleTree subject host root)
    (hdirectory : IsDirectory host.volume root directory) {suffix : String}
    (hsuffix : suffix ∈ [moduleSuffix, schemaSuffix]) :
    (subject.path (file directory suffix)).hasNull = false := by
  obtain ⟨container, resource, -, hfound, rfl⟩ := hdirectory
  have hnames := htree.readable _ (Volume.mem_of_find?_eq_some (by simp) hfound)
  have hcontainer : '\x00' ∉ container.toList := by simpa using hnames container (by simp)
  have hresource : '\x00' ∉ resource.toList := by simpa using hnames resource (by simp)
  have hnull : '\x00' ∉ suffix.toList := by
    simp only [List.mem_cons, List.not_mem_nil, or_false] at hsuffix
    rcases hsuffix with rfl | rfl <;> decide
  have hroot := htree.noNull
  have hparts : (subject.path (file ⟨.relative, [container, resource]⟩ suffix)).parts =
      subject.root.parts ++ [container, resource, resource ++ suffix] := rfl
  unfold Path.hasNull at hroot ⊢
  rw [hparts, List.any_append, hroot]
  simp [hcontainer, hresource, hnull]

/-- Where the path of a file of a resource leads to, unless its name is too long. -/
theorem locate_file (htree : IsModuleTree subject host root)
    (hdirectory : IsDirectory host.volume root directory) {suffix : String}
    (hsuffix : suffix ∈ [moduleSuffix, schemaSuffix]) :
    host.volume.locate host.directory (subject.path (file directory suffix)) =
      if isTooLong (directory.name ++ suffix) then .error .nameTooLong
      else .ok (filePlace root directory suffix) := by
  obtain ⟨container, resource, -, hfound, rfl⟩ := hdirectory
  have hname : resource ++ suffix ≠ ".." := by
    intro heq
    have hlength := congrArg String.length heq
    rw [String.length_append] at hlength
    simp only [List.mem_cons, List.not_mem_nil, or_false] at hsuffix
    have hlong : 2 < suffix.length := by
      rcases hsuffix with rfl | rfl <;> decide
    have htwo : "..".length = 2 := rfl
    omega
  have hparts : (file ⟨.relative, [container, resource]⟩ suffix).parts =
      [container, resource] ++ [resource ++ suffix] := rfl
  have hwalk := htree.proper.walk_eq_ok hfound (by simp)
  rw [Subject.path, Volume.locate_join host.volume host.directory subject.root rfl,
    htree.leads.locate, filePlace, hparts]
  dsimp only
  rw [Volume.walk_append, hwalk]
  simp only [Volume.walk, hfound, if_neg hname, ← List.append_assoc]
  rfl

theorem settles_isFile (htree : IsModuleTree subject host root)
    (hdirectory : IsDirectory host.volume root directory) {suffix : String}
    (hsuffix : suffix ∈ [moduleSuffix, schemaSuffix]) :
    Action.Settles host Bool (HasLongName directory suffix)
      (isFile (subject.path (file directory suffix)))
      (host.volume.holdsFile (filePlace root directory suffix)) := by
  have hnull := hasNull_file htree hdirectory hsuffix
  have hlocate := locate_file htree hdirectory hsuffix
  unfold isFile
  by_cases hlong : isTooLong (directory.name ++ suffix) = true
  · rw [if_pos hlong] at hlocate
    have hrefuses : (!(subject.path (file directory suffix)).hasNull &&
        host.volume.refuses host.directory (subject.path (file directory suffix))) = true := by
      simp [hnull, Volume.refuses, hlocate]
    exact .inl ⟨hlong, _, (exec_askVolume _ _ _).trans (if_pos hrefuses)⟩
  · rw [if_neg hlong] at hlocate
    refine .inr ⟨hlong, ?_⟩
    rw [exec_askVolume, if_neg (by simp [Volume.refuses, hlocate])]
    have hanswer : host.volume.isFile host.directory (subject.path (file directory suffix)) =
        host.volume.holdsFile (filePlace root directory suffix) := by
      unfold Volume.isFile Volume.holdsFile Volume.lookup
      rw [hnull, hlocate]
      rcases hfind : host.volume.find? (filePlace root directory suffix) with - | - | content <;>
        simp [bind, Except.bind, hfind, throw, throwThe, MonadExceptOf.throw, pure, Except.pure]
    rw [hanswer]

/-- What is written in a file of a resource. -/
def textAt (volume : Volume) (root : Place) (directory : Path) (suffix : String) : List Char :=
  Text.decodeMarked (volume.content (filePlace root directory suffix))

theorem settles_readText (htree : IsModuleTree subject host root)
    (hdirectory : IsDirectory host.volume root directory) {suffix : String}
    (hsuffix : suffix ∈ [moduleSuffix, schemaSuffix])
    (hshort : ¬ HasLongName directory suffix)
    (hfile : host.volume.holdsFile (filePlace root directory suffix) = true) :
    Action.Settles host _ False (readText (subject.path (file directory suffix)))
      (textAt host.volume root directory suffix) := by
  obtain ⟨content, hcontent⟩ := Volume.holdsFile_iff.mp hfile
  have hlocate := locate_file htree hdirectory hsuffix
  rw [if_neg hshort] at hlocate
  have hread := exec_readFile_of_locate (hasNull_file htree hdirectory hsuffix) hlocate hcontent
  refine .inr ⟨not_false, ?_⟩
  unfold readText
  rw [exec_bind_ok hread]
  simp only [textAt, Volume.content, hcontent]
  rfl

/-! ## The checks of resources -/

/-- The form of the checks of resources: they look into directories, or skip if there are none. -/
def inDirectories (listed : Action (List Path)) (step : Path → Checking (List Violation))
    (skipped metric : String) : Checking Outcome := do
  let directories ← listed
  if directories.isEmpty then return .skip skipped
  let violations ← directories.mapM step
  return .found violations.flatten [(metric, .int directories.length)]

theorem settles_inDirectories {known : Findings} {reason : Prop} {listed : Action (List Path)}
    {directories : List Path} (hlisted : Action.Settles host _ reason listed directories)
    {step : Path → Checking (List Violation)} {reasonIn : Path → Prop}
    {found : Path → List Violation}
    (hstep : ¬ reason → ∀ directory ∈ directories,
      Checking.Settles known host _ (reasonIn directory) (step directory) (found directory))
    (skipped metric : String) :
    ∃ outcome, Checking.Settles known host _
        (reason ∨ ∃ directory ∈ directories, reasonIn directory)
        (inDirectories listed step skipped metric) outcome ∧
      outcome.violations = directories.flatMap found ∧
      (directories ≠ [] → outcome.skipped = "") := by
  have hrules := Checking.settling known host
  unfold inDirectories
  cases directories with
  | nil =>
    refine ⟨.skip skipped, ?_, rfl, fun hsome => absurd rfl hsome⟩
    simp only [List.not_mem_nil, false_and, exists_false, or_false]
    exact hrules.map (Checking.settles_lift known hlisted) rfl
  | cons first rest =>
    refine ⟨.found ((first :: rest).map found).flatten [(metric, .int (first :: rest).length)], ?_,
      List.flatMap_def.symm, fun _ => rfl⟩
    refine hrules.bind (Checking.settles_lift known hlisted) fun hnone => ?_
    exact hrules.map (hrules.mapM (hstep hnone)) rfl

/-- The violation of a resource without a file. -/
def missingFile (directory : Path) (suffix : String) : Violation :=
  .ofFile "RESOURCE_FILE_MISSING" ("missing " ++ directory.name ++ suffix) directory.toString

/-- The files that a resource does not have. -/
def missingIn (subject : Subject) (directory : Path) : Checking (List Violation) := do
  let missing ← [moduleSuffix, schemaSuffix].filterM fun suffix => do
    return !(← isFile (subject.path (file directory suffix)))
  return missing.map (missingFile directory)

theorem filesPresent_eq (subject : Subject) : filesPresent subject =
    inDirectories (Resource.directories subject.root) (missingIn subject)
      "no DSCResources directory with resources" "resources" := rfl

/-- The check that looks for the files breaks off if one of them cannot have its name, and otherwise
reports exactly those that are missing. -/
theorem settles_filesPresent (htree : IsModuleTree subject host root) (known : Findings) :
    ∃ outcome, Checking.Settles known host _
        (∃ directory, IsDirectory host.volume root directory ∧
          ∃ suffix ∈ [moduleSuffix, schemaSuffix], HasLongName directory suffix)
        (filesPresent subject) outcome ∧
      (∀ directory, IsDirectory host.volume root directory → outcome.skipped = "") ∧
      ∀ violation, violation ∈ outcome.violations ↔
        ∃ directory, IsDirectory host.volume root directory ∧
          ∃ suffix ∈ [moduleSuffix, schemaSuffix],
            host.volume.holdsFile (filePlace root directory suffix) = false ∧
            missingFile directory suffix = violation := by
  obtain ⟨directories, hdirectories, hmem⟩ := exec_directories htree
  have hrules := Checking.settling known host
  have hmissing : ∀ directory ∈ directories, Checking.Settles known host _
      (∃ suffix ∈ [moduleSuffix, schemaSuffix], HasLongName directory suffix)
      (missingIn subject directory) (([moduleSuffix, schemaSuffix].filter fun suffix =>
        !host.volume.holdsFile (filePlace root directory suffix)).map (missingFile directory)) := by
    intro directory hdirectory
    refine hrules.map (hrules.filterM fun suffix hsuffix => ?_) rfl
    exact hrules.map (Checking.settles_lift known
      (settles_isFile htree ((hmem directory).mp hdirectory) hsuffix)) rfl
  obtain ⟨outcome, hsettles, hviolations, hskipped⟩ := settles_inDirectories
    (.inr ⟨not_false, hdirectories⟩) (fun _ => hmissing)
    "no DSCResources directory with resources" "resources"
  refine ⟨outcome, ?_, fun directory hdirectory => ?_, fun violation => ?_⟩
  · simp only [false_or, hmem] at hsettles
    rw [filesPresent_eq]
    exact hsettles
  · exact hskipped (List.ne_nil_of_mem ((hmem directory).mpr hdirectory))
  · simp only [hviolations, List.mem_flatMap, hmem, List.mem_map, List.mem_filter, Bool.not_eq_true',
      and_assoc]

/-- A file that every resource needs: how its name ends, which check judges it, and what that check has
against a text. -/
structure RequiredFile where
  suffix : String
  judge : String
  verdict : (directory : Path) → List Char → List Violation

def moduleFile : RequiredFile where
  suffix := moduleSuffix
  judge := "resources/target-functions"
  verdict directory text :=
    Module.targetFunctions.filterMap
      (functionViolation? text (file directory moduleSuffix).toString)

def schemaFile : RequiredFile where
  suffix := schemaSuffix
  judge := "resources/schema-valid"
  verdict directory text :=
    (Schema.problems text directory.name).map fun problem =>
      .ofFile "RESOURCE_SCHEMA_INVALID" problem.message (file directory schemaSuffix).toString

def requiredFiles : List RequiredFile := [moduleFile, schemaFile]

theorem suffix_mem {required : RequiredFile} (hrequired : required ∈ requiredFiles) :
    required.suffix ∈ [moduleSuffix, schemaSuffix] := List.mem_map_of_mem hrequired

/-- What is wrong with the file of a resource. -/
def judgedIn (subject : Subject) (required : RequiredFile) (directory : Path) :
    Checking (List Violation) := do
  return required.verdict directory (← readText (subject.path (file directory required.suffix)))

/-- The check that judges files of one kind, with the reason that it gives for skipping and the name of
what it counts. -/
def judging (subject : Subject) (required : RequiredFile) (skipped metric : String) :
    Checking Outcome :=
  inDirectories (directoriesWith subject required.suffix) (judgedIn subject required) skipped metric

theorem functions_eq (subject : Subject) :
    functions subject = judging subject moduleFile "no resource modules" "modules" := rfl

theorem schemaValid_eq (subject : Subject) :
    schemaValid subject = judging subject schemaFile "no resource schema files" "schemas" := rfl

/-- The check judges the text of every file that is there. -/
theorem settles_judging (htree : IsModuleTree subject host root) (known : Findings)
    {required : RequiredFile} (hrequired : required ∈ requiredFiles) (skipped metric : String) :
    ∃ outcome, ∃ judged : List Path, Checking.Settles known host _
        (∃ directory, IsDirectory host.volume root directory ∧
          HasLongName directory required.suffix)
        (judging subject required skipped metric) outcome ∧
      (judged ≠ [] → outcome.skipped = "") ∧
      outcome.violations = judged.flatMap (fun directory =>
        required.verdict directory (textAt host.volume root directory required.suffix)) ∧
      ∀ directory, directory ∈ judged ↔ IsDirectory host.volume root directory ∧
        host.volume.holdsFile (filePlace root directory required.suffix) = true := by
  have hsuffix := suffix_mem hrequired
  obtain ⟨directories, hdirectories, hmem⟩ := exec_directories htree
  have hkept : Action.Settles host _
      (∃ directory ∈ directories, HasLongName directory required.suffix)
      (directoriesWith subject required.suffix)
      (directories.filter fun directory =>
        host.volume.holdsFile (filePlace root directory required.suffix)) := by
    have hlisted : Action.Settles host _ False (Resource.directories subject.root) directories :=
      .inr ⟨not_false, hdirectories⟩
    have hboth := (Action.settling host).bind hlisted fun _ =>
      (Action.settling host).filterM fun directory hdirectory =>
        settles_isFile htree ((hmem directory).mp hdirectory) hsuffix
    rwa [false_or] at hboth
  have hjudged (hshort : ¬ ∃ directory ∈ directories, HasLongName directory required.suffix)
      (directory : Path) (hdirectory : directory ∈ directories.filter fun directory =>
        host.volume.holdsFile (filePlace root directory required.suffix)) :
      Checking.Settles known host _ False (judgedIn subject required directory)
        (required.verdict directory (textAt host.volume root directory required.suffix)) := by
    obtain ⟨hlisted, hfile⟩ := List.mem_filter.mp hdirectory
    have htext := settles_readText htree ((hmem directory).mp hlisted) hsuffix
      (fun hlong => hshort ⟨directory, hlisted, hlong⟩) hfile
    exact (Checking.settling known host).map (Checking.settles_lift known htext) rfl
  obtain ⟨outcome, hsettles, hviolations, hskipped⟩ :=
    settles_inDirectories hkept hjudged skipped metric
  refine ⟨outcome, _, ?_, hskipped, hviolations, fun directory => ?_⟩
  · simp only [hmem, and_false, exists_false, or_false] at hsettles
    exact hsettles
  · rw [List.mem_filter, hmem]

end Resource

end Check

end DscAudit

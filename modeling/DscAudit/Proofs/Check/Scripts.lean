import DscAudit.Proofs.Check.Composition
import DscAudit.Proofs.File.Directory
import DscAudit.Proofs.Tool.Pwsh

/-!
# Scripts and examples

Two checks hand scripts of a module to PowerShell: one lets it parse them, the other lets it compile the
examples.  The first leaves out files by the name of the first directory on their paths, in any case, the
second looks into the directory that is configured.  So a file can be left to both of them, or to none,
unless the configured directory is a plain name and no other name in the module differs from it in case
alone.
-/

namespace DscAudit

open DscAudit.Action

namespace Host.AfterCalls

variable {α β : Type} {host : Host} {calls : List ProcessCall}

theorem lift_bind_reads {step : Action α} {next : α → Checking β} (known : Findings)
    (hstep : host.AfterCalls calls (step.exec host).2)
    (hnext : ∀ a, Checking.Always (fun _ => Reads) (next a)) :
    host.AfterCalls calls (((liftM step >>= next : Checking β).run known).exec host).2 := by
  have hlifted : host.AfterCalls calls (((liftM step : Checking α).run known).exec host).2 :=
    hstep.bind_reads fun a => .pure (a, known)
  exact hlifted.bind_reads fun found => hnext found.1 found.2

end Host.AfterCalls

namespace Check

open Tool.Pwsh (Session scriptCall override pathList)
open Checking (Always)

variable {subject : Subject} {host : Host}

/-- The check runs a script on these files, or starts no process if there are none. -/
def Hands (subject : Subject) (step : Checking Outcome) (script : String) (host : Host)
    (files : List Path) : Prop :=
  ∀ known, ∃ calls, host.AfterCalls calls ((step.run known).exec host).2 ∧
    ((files = [] ∧ calls = []) ∨
      (files ≠ [] ∧ ∃ executable environment others,
        calls = [scriptCall (subject.session executable) script
          (override environment (("DSCMETA_FILES", pathList files) :: others))]))

/-- A script starts its process, and making something of its result starts no other. -/
theorem afterCalls_script {α : Type} (session : Session) (script : String)
    (overrides : List (String × String)) (host : Host) {next : Value → Action α}
    (hnext : ∀ value, Reads (next value)) :
    host.AfterCalls [scriptCall session script (override host.environment overrides)]
      ((Tool.Pwsh.run session script overrides >>= next).exec host).2 := by
  obtain ⟨ending, after, hrun, -, hstarts⟩ := Tool.Pwsh.exec_run session script overrides host
  apply Host.AfterCalls.bind_reads
  · rw [hrun]
    exact hstarts.afterCalls
  · exact hnext

theorem hands_parse {executable : String}
    (hfind : (Tool.Pwsh.find subject.config).exec host = (.ok (some executable), host))
    (files : List Path) (kind : String) :
    Hands subject (Parsing.parse subject files kind) Tool.Script.parse host
      (files.map subject.path) := by
  intro known
  by_cases hnil : files = []
  · subst hnil
    exact ⟨[], .refl host, .inl ⟨rfl, rfl⟩⟩
  have hP : Compositional (m := Action) fun _ => Reads := Does.compositional _
  have hparse : host.AfterCalls _ ((Tool.Pwsh.parse (subject.session executable)
      (files.map subject.path)).exec host).2 :=
    afterCalls_script _ _ _ host fun _ => Suits.reads_reading
  refine ⟨_, ?_, .inr ⟨by simpa using hnil, executable, host.environment, [], rfl⟩⟩
  unfold Parsing.parse
  rw [if_neg (by simpa using hnil),
    Checking.exec_bind_ok (Checking.exec_lift_ok hfind known)]
  refine hparse.lift_bind_reads known fun found => ?_
  refine .bind hP (.lift hP (Suits.reads_byPath _)) fun faults => ?_
  refine .bind hP ((Always.compositional hP).mapM fun file _ => ?_) fun _ => .pure hP _
  exact .bind hP (.lift hP (reads_resolve _)) fun _ => .pure hP _

/-- The directory for what is compiled is made before the script starts. -/
theorem afterCalls_compile (session : Session) (files : List Path) {output : Path} {made : Host}
    (hmade : (makeDirectory output).exec host = (.ok (), made)) :
    ∃ others,
      host.AfterCalls
        [scriptCall session Tool.Script.compile
          (override made.environment (("DSCMETA_FILES", pathList files) :: others))]
        ((Tool.Pwsh.compile session files output).exec host).2 := by
  have hlocal : Does Effect.IsLocal (makeDirectory output) :=
    does_makeDirectory fun _ _ _ _ _ _ _ => trivial
  have hbefore : host.AfterCalls [] made := by
    obtain ⟨effects, heffects, hafter⟩ := hlocal host
    have hstays := Effect.afterCalls_onAll heffects host
    rwa [← hafter, hmade] at hstays
  unfold Tool.Pwsh.compile
  rw [exec_bind_ok hmade]
  exact ⟨_, hbefore.trans (afterCalls_script _ _ _ made fun _ => Suits.reads_reading)⟩

theorem hands_compile {executable : String}
    (hfind : (Tool.Pwsh.find subject.config).exec host = (.ok (some executable), host)) {made : Host}
    (hmade : (makeDirectory (subject.evidence.child "examples")).exec host = (.ok (), made))
    {files : List Path} (hfiles : (Examples.files subject).exec host = (.ok files, host)) :
    Hands subject (Examples.compile subject) Tool.Script.compile host files := by
  intro known
  unfold Examples.compile
  rw [Checking.exec_bind_ok (Checking.exec_lift_ok hfiles known)]
  by_cases hnil : files = []
  · subst hnil
    exact ⟨[], .refl host, .inl ⟨rfl, rfl⟩⟩
  have hP : Compositional (m := Action) fun _ => Reads := Does.compositional _
  obtain ⟨others, hcompile⟩ := afterCalls_compile (subject.session executable) files hmade
  refine ⟨_, ?_, .inr ⟨hnil, executable, made.environment, others, rfl⟩⟩
  rw [if_neg (by simpa using hnil),
    Checking.exec_bind_ok (Checking.exec_lift_ok hfind known)]
  refine hcompile.lift_bind_reads known fun found => ?_
  refine .bind hP (.lift hP (Suits.reads_byPath _)) fun compilations => ?_
  refine .bind hP ((Always.compositional hP).mapM fun file _ => ?_) fun _ => .pure hP _
  refine .bind hP (.lift hP (Suits.reads_relative _ _)) fun path => ?_
  exact .bind hP (.lift hP (reads_resolve _)) fun _ => .pure hP _

/-! ## The files of the two checks -/

/-- One of the paths leads to the place. -/
def Handed (host : Host) (files : List Path) (place : Place) : Prop :=
  ∃ path ∈ files, host.volume.locate host.directory path = .ok place

/-- The place is that of a file below the directory of the examples, and no directory between the two is
excluded. -/
def IsExample (subject : Subject) (host : Host) (place : Place) : Prop :=
  (Examples.directory subject).hasNull = false ∧
    ∃ directory file, host.volume.LeadsTo host.directory (Examples.directory subject) directory ∧
      File.IsBelow host.volume directory subject.config.excludedDirectories file ∧
      directory ++ file.parts = place

/-- A script of the module that is not excluded. -/
structure IsScript (subject : Subject) (host : Host) (root : Place) (file : Path) : Prop where
  below : File.IsBelow host.volume root subject.config.excludedDirectories file
  suffix : File.hasSuffix [".ps1"] file = true

variable {root : Place}

theorem exec_find_of_isFound {config : Config} (hfound : Tool.Pwsh.IsFound config host) :
    ∃ executable, (Tool.Pwsh.find config).exec host = (.ok (some executable), host) := by
  obtain ⟨executable, hend⟩ := hfound
  exact ⟨executable, Prod.ext hend ((Suits.reads_find config).exec_snd host)⟩

/-- The files that one check hands over, whichever of the scripts of the module they are. -/
theorem hands_scripts (hvolume : host.volume.IsProper)
    (hroot : host.volume.LeadsTo host.directory subject.root root)
    (hfound : Tool.Pwsh.IsFound subject.config host) :
    ∃ files, Hands subject (Parsing.scripts subject) Tool.Script.parse host files ∧
      ∀ file, IsScript subject host root file →
        (Handed host files (root ++ file.parts) ↔
          ¬ Parsing.startsWith subject.config.examplesDirectory file = true) := by
  obtain ⟨executable, hfind⟩ := exec_find_of_isFound hfound
  obtain ⟨found, hwalk, hmem⟩ :=
    File.exec_withSuffix hvolume hroot subject.config.excludedDirectories [".ps1"]
  let others := found.filter fun file =>
    !Parsing.startsWith subject.config.examplesDirectory file
  refine ⟨others.map subject.path, ?_, ?_⟩
  · intro known
    unfold Parsing.scripts
    rw [Checking.exec_bind_ok (Checking.exec_lift_ok hwalk known)]
    exact hands_parse hfind others "script" known
  · intro file hfile
    constructor
    · rintro ⟨path, hpath, hlocate⟩
      obtain ⟨other, hother, rfl⟩ := List.mem_map.mp hpath
      obtain ⟨hother, hstarts⟩ := List.mem_filter.mp hother
      have hbelow := ((hmem other).mp hother).1
      -- both files lie below the same root, so the place tells which file it is
      have hplace : root ++ other.parts = root ++ file.parts :=
        Except.ok.inj ((hbelow.locate hvolume hroot).symm.trans hlocate)
      obtain rfl : other = file :=
        hbelow.eq_of_parts hfile.below (List.append_cancel_left hplace)
      simpa using hstarts
    · intro hstarts
      have hmem := (hmem file).mpr ⟨hfile.below, hfile.suffix⟩
      have hother : file ∈ others := List.mem_filter.mpr ⟨hmem, by simp [hstarts]⟩
      exact ⟨_, List.mem_map_of_mem hother, hfile.below.locate hvolume hroot⟩

theorem hands_no_examples
    (hdirectory : host.volume.isDirectory host.directory (Examples.directory subject) = false) :
    Hands subject (Examples.compile subject) Tool.Script.compile host [] := by
  intro known
  refine ⟨[], ?_, .inl ⟨rfl, rfl⟩⟩
  have hnone : (Examples.files subject).exec host = (.ok [], host) ∨
      ∃ failure, (Examples.files subject).exec host = (.error failure, host) := by
    have hasks := exec_askVolume (Examples.directory subject) Volume.isDirectory host
    unfold Examples.files
    dsimp only
    split at hasks
    · exact .inr ⟨_, exec_bind_error hasks _⟩
    · rw [hdirectory] at hasks
      exact .inl ((exec_bind_ok hasks _).trans rfl)
  unfold Examples.compile
  rcases hnone with hfiles | ⟨failure, hfiles⟩
  · rw [Checking.exec_bind_ok (Checking.exec_lift_ok hfiles known)]
    exact .refl host
  · have hlifted : ((liftM (Examples.files subject) : Checking _).run known).exec host =
        (.error failure, host) := exec_bind_error hfiles _
    rw [Checking.exec_bind_error hlifted]
    exact .refl host

/-- The examples are the scripts below the directory that is configured, if there is one. -/
theorem exec_exampleFiles (hvolume : host.volume.IsProper)
    (hdirectory : host.volume.isDirectory host.directory (Examples.directory subject) = true)
    {directory : Place}
    (hleads : host.volume.LeadsTo host.directory (Examples.directory subject) directory) :
    ∃ files : List Path, (Examples.files subject).exec host =
        (.ok (files.map (Examples.directory subject).join), host) ∧
      ∀ file, file ∈ files ↔
        File.IsBelow host.volume directory subject.config.excludedDirectories file ∧
          File.hasSuffix [".ps1"] file = true := by
  have hasks : (isDirectory (Examples.directory subject)).exec host = (.ok true, host) := by
    rw [isDirectory, exec_askVolume, hdirectory, if_neg (by simp [Volume.refuses, hleads.locate])]
  obtain ⟨files, hwalk, hmem⟩ :=
    File.exec_withSuffix hvolume hleads subject.config.excludedDirectories [".ps1"]
  unfold Examples.files
  exact ⟨files, (exec_bind_ok hasks _).trans ((exec_bind_ok hwalk _).trans rfl), hmem⟩

theorem hands_examples (root : Place) (hvolume : host.volume.IsProper)
    (hfound : Tool.Pwsh.IsFound subject.config host) {made : Host}
    (hmade : (makeDirectory (subject.evidence.child "examples")).exec host = (.ok (), made)) :
    ∃ files, Hands subject (Examples.compile subject) Tool.Script.compile host files ∧
      ∀ file, IsScript subject host root file →
        (Handed host files (root ++ file.parts) ↔ IsExample subject host (root ++ file.parts)) := by
  obtain ⟨executable, hfind⟩ := exec_find_of_isFound hfound
  by_cases hdirectory : host.volume.isDirectory host.directory (Examples.directory subject) = true
  · obtain ⟨hnull, directory, hleads⟩ := Volume.isDirectory_iff_leadsTo.mp hdirectory
    obtain ⟨found, hfiles, hmem⟩ := exec_exampleFiles hvolume hdirectory hleads
    refine ⟨_, hands_compile hfind hmade hfiles, ?_⟩
    intro file hfile
    constructor
    · rintro ⟨path, hpath, hlocate⟩
      obtain ⟨other, hother, rfl⟩ := List.mem_map.mp hpath
      have hbelow := ((hmem other).mp hother).1
      have hplace : directory ++ other.parts = root ++ file.parts :=
        Except.ok.inj ((hbelow.locate hvolume hleads).symm.trans hlocate)
      exact ⟨hnull, directory, other, hleads, hbelow, hplace⟩
    · rintro ⟨-, directory', other, hleads', hbelow, hplace⟩
      obtain rfl : directory' = directory :=
        Except.ok.inj (hleads'.locate.symm.trans hleads.locate)
      have hsuffix := File.hasSuffix_eq_of_append [".ps1"] hbelow.ne_nil hfile.below.ne_nil hplace
      have hother := (hmem other).mpr ⟨hbelow, hsuffix.trans hfile.suffix⟩
      refine ⟨_, List.mem_map_of_mem hother, ?_⟩
      rw [hbelow.locate hvolume hleads, hplace]
  · refine ⟨[], hands_no_examples (by simpa using hdirectory), ?_⟩
    intro file hfile
    constructor
    · rintro ⟨path, hpath, -⟩
      cases hpath
    · rintro ⟨hnull, directory, other, hleads, -⟩
      exact absurd (Volume.isDirectory_iff_leadsTo.mpr ⟨hnull, directory, hleads⟩) hdirectory

/-! ## Examples in a directory with a plain name -/

/-- The directory of the examples is configured by a plain name, and what has this name in the root of
the module, in any case, is a directory with just this name. -/
structure HasPlainExamples (subject : Subject) (host : Host) (root : Place) : Prop where
  plain : Path.ofString subject.config.examplesDirectory =
    ⟨.relative, [subject.config.examplesDirectory]⟩
  ne_parent : subject.config.examplesDirectory ≠ ".."
  noNull : (Examples.directory subject).hasNull = false
  alone : ∀ name node, host.volume.find? (root ++ [name]) = some node →
    Text.lowerString name = Text.lowerString subject.config.examplesDirectory →
      name = subject.config.examplesDirectory ∧ node = .directory

theorem isExcluded_tail {excluded : List String} {part : String} {parts : List String}
    (hparts : parts ≠ [])
    (hincluded : (⟨.relative, part :: parts⟩ : Path).isExcluded excluded = false) :
    (⟨.relative, parts⟩ : Path).isExcluded excluded = false := by
  simp only [Path.isExcluded, Path.components, List.dropLast_cons_of_ne_nil hparts, List.any_cons,
    Bool.or_eq_false_iff] at hincluded ⊢
  exact hincluded.2

namespace HasPlainExamples

variable {first : String} {rest : List String} {content : Text.Octets}

/-- A file whose path starts with the name in some case lies in the directory with just this name. -/
theorem eq_of_lower (hplain : HasPlainExamples subject host root) (hvolume : host.volume.IsProper)
    (hfound : host.volume.find? (root ++ first :: rest) = some (.file content))
    (hlower : Text.lowerString first = Text.lowerString subject.config.examplesDirectory) :
    first = subject.config.examplesDirectory ∧ rest ≠ [] ∧
      host.volume.find? (root ++ [subject.config.examplesDirectory]) = some .directory := by
  by_cases hrest : rest = []
  -- a file itself cannot have the name, since what has it is a directory
  · subst hrest
    cases (hplain.alone first _ hfound hlower).2
  · have hdirectory : host.volume.find? (root ++ [first]) = some .directory := by
      have hsome : (host.volume.find? (root ++ first :: rest)).isSome := by simp [hfound]
      apply hvolume.tree.find?_of_prefix hsome
      · exact (List.prefix_append_right_inj root).mpr (by simp)
      · simpa using hrest
    have heq := (hplain.alone first _ hdirectory hlower).1
    exact ⟨heq, hrest, heq ▸ hdirectory⟩

theorem locate_directory (hplain : HasPlainExamples subject host root)
    (hroot : host.volume.LeadsTo host.directory subject.root root) :
    host.volume.locate host.directory (Examples.directory subject) =
      host.volume.walk root [subject.config.examplesDirectory] := by
  unfold Examples.directory
  rw [hplain.plain, Volume.locate_join _ _ _ rfl, hroot.locate]

theorem startsWith_iff (hplain : HasPlainExamples subject host root)
    (hvolume : host.volume.IsProper)
    (hfound : host.volume.find? (root ++ first :: rest) = some (.file content)) :
    Parsing.startsWith subject.config.examplesDirectory ⟨.relative, first :: rest⟩ = true ↔
      first = subject.config.examplesDirectory := by
  simp only [Parsing.startsWith, List.head?_cons, Option.any_some, beq_iff_eq]
  constructor
  · intro hlower
    exact (hplain.eq_of_lower hvolume hfound hlower).1
  · rintro rfl
    rfl

theorem isExample_iff (hplain : HasPlainExamples subject host root)
    (hvolume : host.volume.IsProper)
    (hroot : host.volume.LeadsTo host.directory subject.root root)
    (hfound : host.volume.find? (root ++ first :: rest) = some (.file content))
    (hincluded : (⟨.relative, first :: rest⟩ : Path).isExcluded
      subject.config.excludedDirectories = false) :
    IsExample subject host (root ++ first :: rest) ↔ first = subject.config.examplesDirectory := by
  have hlocate := hplain.locate_directory hroot
  constructor
  · rintro ⟨-, directory, file, hleads, -, hplace⟩
    have hname : ".." ∉ [subject.config.examplesDirectory] := by
      simpa using hplain.ne_parent.symm
    have hdirectory := (Volume.eq_of_walk_eq_ok hname (hlocate.symm.trans hleads.locate)).1
    rw [hdirectory, List.append_assoc] at hplace
    exact (List.cons.inj (List.append_cancel_left hplace)).1.symm
  · rintro rfl
    obtain ⟨-, hrest, hdirectory⟩ := hplain.eq_of_lower hvolume hfound rfl
    have hwalk := hvolume.walk_eq_ok hdirectory (by simp)
    refine ⟨hplain.noNull, _, ⟨.relative, rest⟩, ⟨hlocate.trans hwalk, hdirectory⟩, ?_, by simp⟩
    exact ⟨rfl, hrest, ⟨content, by simpa using hfound⟩, isExcluded_tail hrest hincluded⟩

end HasPlainExamples

/-- A module with these files and directories, on a host with PowerShell. -/
def scriptHost (entries : List (Place × Node)) : Host :=
  { Host.holding ⟨(["m"], .directory) :: entries⟩ ⟨.slash, ["m"]⟩ with
    tools := [("pwsh", "/bin/pwsh")] }

def subjectWith (examples : String) : Subject :=
  { Subject.ofModule "m" with config := { Config.default with examplesDirectory := examples } }

theorem leadsTo_scriptHost (entries : List (Place × Node)) (examples : String) :
    (scriptHost entries).volume.LeadsTo (scriptHost entries).directory (subjectWith examples).root
      ["m"] := ⟨rfl, rfl⟩

theorem isFound_scriptHost (entries : List (Place × Node)) (examples : String) :
    Tool.Pwsh.IsFound (subjectWith examples).config (scriptHost entries) := by
  have hname : ¬ "pwsh".toList.head? = some '/' := by decide
  refine ⟨"/bin/pwsh", ?_⟩
  show ((if "pwsh".toList.head? = some '/' then _ else findTool "pwsh" : Action _).exec _).1 = _
  rw [if_neg hname]
  rfl

/-- A module with a directory for examples. -/
def plainHost : Host :=
  scriptHost [(["m", "Examples"], .directory), (["m", "Examples", "x.ps1"], .file []),
    (["m", "y.ps1"], .file [])]

def nestedHost : Host :=
  scriptHost [(["m", "a"], .directory), (["m", "a", "b"], .directory),
    (["m", "a", "b", "x.ps1"], .file [])]

theorem isProper_plainHost : plainHost.volume.IsProper where
  distinct := by decide
  tree := Volume.isTree_of_entries (by decide)
  names := by decide

theorem isProper_nestedHost : nestedHost.volume.IsProper where
  distinct := by decide
  tree := Volume.isTree_of_entries (by decide)
  names := by decide

theorem isScript_example (examples : String) :
    IsScript (subjectWith examples) plainHost ["m"] ⟨.relative, ["Examples", "x.ps1"]⟩ where
  below := ⟨rfl, by simp, ⟨[], by decide⟩, show Path.isExcluded Config.default.excludedDirectories
    ⟨.relative, ["Examples", "x.ps1"]⟩ = false by decide⟩
  suffix := by decide

theorem hasPlainExamples_plainHost :
    HasPlainExamples (subjectWith "Examples") plainHost ["m"] where
  plain := by decide
  ne_parent := by decide
  noNull := by decide
  alone := by
    intro name node hnode hlower
    have hmem := Volume.mem_of_find?_eq_some (by simp) hnode
    simp only [plainHost, scriptHost, Host.holding, List.cons_append, List.nil_append, List.mem_cons,
      Prod.mk.injEq, List.cons.injEq, List.not_mem_nil, and_true, true_and, or_false, reduceCtorEq,
      and_false, false_and, false_or] at hmem
    rcases hmem with ⟨rfl, rfl⟩ | ⟨rfl, rfl⟩
    · exact ⟨rfl, rfl⟩
    · exact absurd hlower (by decide)

end Check

end DscAudit

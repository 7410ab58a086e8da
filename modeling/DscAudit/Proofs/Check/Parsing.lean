import DscAudit.Proofs.Check.Scripts
import DscAudit.Proofs.Check.Work
import DscAudit.Proofs.Host.Settling
import DscAudit.Proofs.Value.Table
import Mathlib

/-!
# What the rows of a parse answer decide

PowerShell answers with rows, each with a path and the errors under it.  The rows go through two tables,
one by the paths as the answer has them and one by where these lead, so for each file at most one row
counts.  It is the last row with the path that, of those that lead to the file, came up last.  A file
that no row leads to passes, and so does one for which an earlier row lists errors.
-/

namespace DscAudit

open DscAudit.Action

theorem Action.settles_resolve (host : Host) (path : Path) :
    Action.Settles host Path (path.hasNull = true) (resolve path) (path.resolve host.directory) := by
  by_cases hnull : path.hasNull = true
  · unfold resolve
    rw [if_pos hnull]
    exact .inl ⟨hnull, _, rfl⟩
  · exact .inr ⟨hnull, exec_resolve (Bool.of_not_eq_true hnull) host⟩

/-- A step that ended well has not broken off. -/
theorem Checking.Settles.eq_of_ok {α : Type} {known known' : Findings} {host after : Host}
    {reason : Prop} {step : Checking α} {a b : α}
    (hstep : Checking.Settles known host α reason step a)
    (hend : (step.run known).exec host = (.ok (b, known'), after)) : b = a ∧ after = host := by
  rcases hstep with ⟨-, failure, hfails⟩ | ⟨-, hends⟩
  · cases hend.symm.trans hfails
  · cases hend.symm.trans hends
    exact ⟨rfl, rfl⟩

namespace Check.Parsing

open Tool.Pwsh (Session SyntaxFault answer? scriptCall override pathList)

/-- The errors of a script and the path under which the answer has them. -/
abbrev Row := String × List SyntaxFault

/-- The rows of an answer. -/
def rows? (answer : Value) : Except Defect (List Row) := do
  (← answer.parts).mapM Tool.Pwsh.parsed

/-- Where the path in a text leads to. -/
def target (directory : Path) (text : String) : String :=
  ((Path.ofString text).resolve directory).toString

/-- The text leads to the file. -/
abbrev LeadsTo (directory file : Path) (text : String) : Prop :=
  target directory text = (file.resolve directory).toString

/-- Of the rows under texts with a property, the one that counts: the last row under the text that
came up last. -/
def Decides (leads : String → Prop) (rows : List Row) (row : Row) : Prop :=
  Entries.IsNewest leads (rows.map (·.1)) row.1 ∧
    ∃ front behind, rows = front ++ row :: behind ∧ row.1 ∉ behind.map (·.1)

/-! ## The row that counts -/

section

variable {directory file : Path} {rows : List Row}

/-- Rows by where their paths lead, as the check looks them up. -/
def byTarget (directory : Path) (rows : List Row) : Entries (List SyntaxFault) :=
  Entries.ofList ((Entries.ofList rows).map fun row => (target directory row.1, row.2))

theorem get?_byTarget_eq_some_iff {key : String} {faults : List SyntaxFault} :
    (byTarget directory rows).get? key = some faults ↔
      ∃ text, Decides (fun text => target directory text = key) rows (text, faults) := by
  have hnodup := Entries.nodup_ofList rows
  unfold byTarget Decides
  simp only [Entries.isNewest_iff, ← Entries.get?_ofList_eq_some_iff]
  rw [Entries.get?_ofList_eq_some_iff]
  constructor
  · rintro ⟨front, behind, heq, hbehind⟩
    obtain ⟨front, rest, hrows, rfl, hrest⟩ := List.map_eq_append_iff.mp heq
    obtain ⟨⟨text, faults'⟩, behind, rfl, hrow, rfl⟩ := List.map_eq_cons_iff.mp hrest
    obtain ⟨rfl, rfl⟩ := Prod.mk.inj hrow
    refine ⟨text, ⟨rfl, front.map (·.1), behind.map (·.1), by simp [hrows], ?_⟩, ?_⟩
    · intro other hother hsame
      obtain ⟨row, hrow, rfl⟩ := List.mem_map.mp hother
      exact hbehind (List.mem_map.mpr ⟨_, List.mem_map_of_mem hrow, hsame⟩)
    · exact Entries.get?_of_mem hnodup (hrows ▸ by simp)
  · rintro ⟨text, ⟨rfl, keys, keys', hkeys, hbehind⟩, hfaults⟩
    obtain ⟨front, rest, hrows, rfl, hrest⟩ := List.map_eq_append_iff.mp hkeys
    obtain ⟨⟨text', faults'⟩, behind, rfl, rfl, rfl⟩ := List.map_eq_cons_iff.mp hrest
    have hfaults' : (Entries.ofList rows).get? text' = some faults' :=
      Entries.get?_of_mem hnodup (hrows ▸ by simp)
    obtain rfl := Option.some.inj (hfaults'.symm.trans hfaults)
    refine ⟨_, _, by rw [hrows, List.map_append, List.map_cons], ?_⟩
    rw [List.map_map]
    intro hmem
    obtain ⟨row, hrow, hsame⟩ := List.mem_map.mp hmem
    exact hbehind row.1 (List.mem_map_of_mem hrow) hsame

/-- What the check reports about a file: the errors of the row that counts, if there is one. -/
def faultsOf (directory : Path) (rows : List Row) (file : Path) : List SyntaxFault :=
  ((byTarget directory rows).get? (file.resolve directory).toString).getD []

theorem mem_faultsOf_iff {fault : SyntaxFault} :
    fault ∈ faultsOf directory rows file ↔
      ∃ row, Decides (LeadsTo directory file) rows row ∧ fault ∈ row.2 := by
  have hfound : ∀ faults,
      (byTarget directory rows).get? (file.resolve directory).toString = some faults ↔
        ∃ text, Decides (LeadsTo directory file) rows (text, faults) :=
    fun faults => get?_byTarget_eq_some_iff
  unfold faultsOf
  cases hget : (byTarget directory rows).get? (file.resolve directory).toString with
  | none =>
    simp only [Option.getD_none, List.not_mem_nil, false_iff, not_exists, not_and]
    rintro ⟨text, faults⟩ hdecides
    cases hget.symm.trans ((hfound faults).mpr ⟨text, hdecides⟩)
  | some faults =>
    obtain ⟨text, hdecides⟩ := (hfound faults).mp hget
    constructor
    · exact fun hfault => ⟨(text, faults), hdecides, hfault⟩
    · rintro ⟨⟨text', faults'⟩, hdecides', hfault⟩
      obtain rfl := Option.some.inj (hget.symm.trans ((hfound faults').mpr ⟨text', hdecides'⟩))
      exact hfault

variable {leads : String → Prop} {row : Row}

theorem Decides.mem (hdecides : Decides leads rows row) : row ∈ rows := by
  obtain ⟨-, front, behind, rfl, -⟩ := hdecides
  simp

/-- A row counts for every file that some row leads to. -/
theorem exists_decides_iff :
    (∃ row, Decides (LeadsTo directory file) rows row) ↔
      ∃ row ∈ rows, LeadsTo directory file row.1 := by
  constructor
  · rintro ⟨row, hdecides⟩
    exact ⟨row, hdecides.mem, hdecides.1.1⟩
  · rintro ⟨row, hrow, hleads⟩
    have hkey : (file.resolve directory).toString ∈ (byTarget directory rows).map (·.1) := by
      refine Entries.mem_map_fst_ofList.mpr ?_
      rw [List.map_map]
      obtain ⟨entry, hentry, hsame⟩ := List.mem_map.mp
        (Entries.mem_map_fst_ofList.mpr (List.mem_map_of_mem (f := Prod.fst) hrow))
      exact List.mem_map.mpr ⟨entry, hentry, (congrArg (target directory) hsame).trans hleads⟩
    obtain ⟨⟨key, faults⟩, hmem, rfl⟩ := List.mem_map.mp hkey
    obtain ⟨text, hdecides⟩ := get?_byTarget_eq_some_iff.mp
      (Entries.get?_of_mem (Entries.nodup_ofList _) hmem)
    exact ⟨(text, faults), hdecides⟩

/-- The only row that leads to a file counts. -/
theorem decides_iff_of_filter_eq_singleton
    (hsingle : (rows.filter fun row => LeadsTo directory file row.1) = [row]) {other : Row} :
    Decides (LeadsTo directory file) rows other ↔ other = row := by
  have honly : ∀ other, other ∈ rows ∧ LeadsTo directory file other.1 ↔ other = row := by
    intro other
    rw [← List.mem_singleton, ← hsingle, List.mem_filter, decide_eq_true_iff]
  have heq : ∀ other, Decides (LeadsTo directory file) rows other → other = row :=
    fun other hdecides => (honly other).mp ⟨hdecides.mem, hdecides.1.1⟩
  refine ⟨heq other, ?_⟩
  rintro rfl
  obtain ⟨row, hdecides⟩ := exists_decides_iff.mpr ⟨other, (honly other).mpr rfl⟩
  exact heq row hdecides ▸ hdecides

end

/-! ## The files of the two checks -/

/-- What one of the two checks looks at. -/
inductive Kind where
  | modules
  | scripts

namespace Kind

def name : Kind → String
  | modules => "module"
  | scripts => "script"

def check : Kind → Subject → Checking Outcome
  | modules => Parsing.modules
  | scripts => Parsing.scripts

/-- The files that the check hands to PowerShell. -/
def files : Kind → Subject → Action (List Path)
  | modules, subject => File.withSuffix subject.root subject.config.excludedDirectories [".psm1"]
  | scripts, subject => do
    let files ← File.withSuffix subject.root subject.config.excludedDirectories [".ps1"]
    return files.filter fun file => !startsWith subject.config.examplesDirectory file

theorem check_eq (kind : Kind) (subject : Subject) :
    kind.check subject = (do
      let files ← kind.files subject
      parse subject files kind.name) := by
  cases kind with
  | modules => rfl
  | scripts => simp [check, files, name, Parsing.scripts]

theorem reads_files (kind : Kind) (subject : Subject) : Reads (kind.files subject) := by
  cases kind with
  | modules => exact File.reads_withSuffix _ _ _
  | scripts => exact .bind (File.reads_withSuffix _ _ _) fun _ => .pure _

end Kind

/-! ## A check that is made -/

section

variable {subject : Subject} {host after : Host} {known known' : Findings} {outcome : Outcome}

theorem settles_byPath (host : Host) (rows : List Row) :
    Action.Settles host _ (∃ row ∈ Entries.ofList rows, (Path.ofString row.1).hasNull = true)
      (byPath (Entries.ofList rows)) (byTarget host.directory rows) := by
  have hP := Action.settling host
  unfold byPath byTarget
  refine hP.map (hP.mapM fun row _ => ?_) rfl
  exact hP.map (Action.settles_resolve host (Path.ofString row.1)) rfl

/-- The rows are there exactly if the process answers with rows that can be read. -/
theorem exec_parse (session : Session) (files : List Path) (host : Host) :
    ∃ ending after, (Tool.Pwsh.parse session files).exec host = (ending, after) ∧
      (∀ found, ending = .ok found ↔
        ∃ answer rows, answer? (host.results.headD (.missing none)) = some answer ∧
          rows? answer = .ok rows ∧ found = Entries.ofList rows) ∧
      host.Starts [scriptCall session Tool.Script.parse
        (override host.environment [("DSCMETA_FILES", pathList files)])] after := by
  obtain ⟨ending, after, hrun, hanswer, hstarts⟩ :=
    Tool.Pwsh.exec_run session Tool.Script.parse [("DSCMETA_FILES", pathList files)] host
  unfold Tool.Pwsh.parse
  rw [← hanswer]
  cases ending with
  | error failure => exact ⟨_, after, exec_bind_error hrun _, by simp [Except.toOption], hstarts⟩
  | ok answer =>
    have hreading : (do return Entries.ofList (← (← answer.parts).mapM Tool.Pwsh.parsed)) =
        Entries.ofList <$> rows? answer := by
      simp [rows?]
    rw [exec_bind_ok hrun, hreading]
    cases hrows : rows? answer with
    | error defect => exact ⟨_, after, rfl, by simp [Except.toOption, hrows], hstarts⟩
    | ok rows => exact ⟨_, after, rfl, by simp [Except.toOption, hrows, eq_comm], hstarts⟩

/-- The violation of an error in a file. -/
def violation (file : Path) (fault : SyntaxFault) : Violation :=
  .atPlace "PARSE_ERROR" fault.message file.toString fault.line fault.column

/-- What the check does once the rows are there. -/
def judge (subject : Subject) (files : List Path) (rows : List Row) : Checking Outcome := do
  let faults ← byPath (Entries.ofList rows)
  let violations ← files.mapM fun file => do
    let path ← resolve (subject.path file)
    return ((faults.get? path.toString).getD []).map (violation file)
  return .found violations.flatten [("files", .int files.length)]

theorem settles_judge (subject : Subject) (files : List Path) (rows : List Row) (known : Findings)
    (host : Host) :
    Checking.Settles known host _
      ((∃ row ∈ Entries.ofList rows, (Path.ofString row.1).hasNull = true) ∨
        ∃ file ∈ files, (subject.path file).hasNull = true)
      (judge subject files rows)
      (.found (files.flatMap fun file =>
        (faultsOf host.directory rows (subject.path file)).map (violation file))
        [("files", .int files.length)]) := by
  have hP := Checking.settling known host
  refine hP.bind (Checking.settles_lift known (settles_byPath host rows)) fun _ => ?_
  refine hP.map (hP.mapM fun file _ => ?_) rfl
  exact hP.map (Checking.settles_lift known (Action.settles_resolve host (subject.path file))) rfl

theorem exec_parseFiles_eq_ok {files : List Path} {kind : String}
    (hend : ((parse subject files kind).run known).exec host = (.ok (outcome, known'), after))
    (hmade : outcome.skipped = "") :
    files ≠ [] ∧ ∃ executable answer rows,
      answer? (host.results.headD (.missing none)) = some answer ∧ rows? answer = .ok rows ∧
      host.Starts [scriptCall (subject.session executable) Tool.Script.parse
        (override host.environment [("DSCMETA_FILES", pathList (files.map subject.path))])] after ∧
      outcome.violations = files.flatMap fun file =>
        (faultsOf host.directory rows (subject.path file)).map (violation file) := by
  unfold parse at hend
  by_cases hnil : files = []
  · subst hnil
    cases hend
    simp [Outcome.skip] at hmade
  refine ⟨hnil, ?_⟩
  rw [if_neg (by simpa using hnil)] at hend
  obtain ⟨executable, middle, between, hlifted, hmatch⟩ := Checking.exec_bind_eq_ok hend
  obtain ⟨hfind, rfl⟩ := Checking.exec_lift_eq_ok hlifted
  obtain rfl : between = host := by
    rw [← (Suits.reads_find subject.config).exec_snd host, hfind]
  cases executable with
  | none =>
    cases hmatch
    simp [Outcome.skip, Subject.notFound] at hmade
  | some executable =>
    obtain ⟨found, middle, parsed, hlifted', hrest⟩ := Checking.exec_bind_eq_ok hmatch
    obtain ⟨hparse, rfl⟩ := Checking.exec_lift_eq_ok hlifted'
    obtain ⟨ending, after', hrun, hok, hstarts⟩ :=
      exec_parse (subject.session executable) (files.map subject.path) between
    obtain ⟨rfl, rfl⟩ := Prod.mk.inj (hparse.symm.trans hrun)
    obtain ⟨answer, rows, hanswer, hrows, rfl⟩ := (hok found).mp rfl
    obtain ⟨rfl, rfl⟩ := (settles_judge subject files rows middle parsed).eq_of_ok hrest
    have hdirectory : after.directory = between.directory := by
      obtain ⟨logs, rfl⟩ := hstarts
      rfl
    exact ⟨executable, answer, rows, hanswer, hrows, hstarts, by rw [← hdirectory]; rfl⟩

/-- The check is made if there are files, PowerShell can be found and answers with rows that can be
read, and no path holds the character that none can. -/
theorem exec_check_of_rows {kind : Kind} {files : List Path} {executable : String} {answer : Value}
    {rows : List Row} (hfiles : (kind.files subject).exec host = (.ok files, host)) (hne : files ≠ [])
    (hfind : (Tool.Pwsh.find subject.config).exec host = (.ok (some executable), host))
    (hanswer : answer? (host.results.headD (.missing none)) = some answer)
    (hrows : rows? answer = .ok rows)
    (hplain : ¬ ((∃ row ∈ Entries.ofList rows, (Path.ofString row.1).hasNull = true) ∨
      ∃ file ∈ files, (subject.path file).hasNull = true)) (known : Findings) :
    ∃ after, ((kind.check subject).run known).exec host =
      (.ok (.found (files.flatMap fun file =>
        (faultsOf host.directory rows (subject.path file)).map (violation file))
        [("files", .int files.length)], known), after) := by
  obtain ⟨ending, after, hparse, hok, hstarts⟩ :=
    exec_parse (subject.session executable) (files.map subject.path) host
  obtain rfl := (hok _).mpr ⟨answer, rows, hanswer, hrows, rfl⟩
  have hdirectory : after.directory = host.directory := by
    obtain ⟨logs, rfl⟩ := hstarts
    rfl
  obtain ⟨hreason, -⟩ | ⟨-, hjudge⟩ := settles_judge subject files rows known after
  · exact absurd hreason hplain
  refine ⟨after, ?_⟩
  rw [kind.check_eq, Checking.exec_bind_ok (Checking.exec_lift_ok hfiles known), parse,
    if_neg (by simpa using hne), Checking.exec_bind_ok (Checking.exec_lift_ok hfind known)]
  rw [hdirectory] at hjudge
  exact (Checking.exec_bind_ok (Checking.exec_lift_ok hparse known) _).trans hjudge

/-- A check that was made reports the errors of just those rows that count.  So it reports nothing
exactly if no row that counts lists an error, whatever other rows have; only where a single row leads to
each file does this speak for all rows. -/
theorem deciding_rows_are_reported (kind : Kind)
    (hend : ((kind.check subject).run known).exec host = (.ok (outcome, known'), after))
    (hmade : outcome.skipped = "") :
    ∃ files executable answer rows,
      (kind.files subject).exec host = (.ok files, host) ∧ files ≠ [] ∧
      host.Starts [scriptCall (subject.session executable) Tool.Script.parse
        (override host.environment [("DSCMETA_FILES", pathList (files.map subject.path))])] after ∧
      answer? (host.results.headD (.missing none)) = some answer ∧ rows? answer = .ok rows ∧
      (∀ found, found ∈ outcome.violations ↔
        ∃ file ∈ files, ∃ row, Decides (LeadsTo host.directory (subject.path file)) rows row ∧
          ∃ fault ∈ row.2, found = violation file fault) ∧
      (outcome.violations = [] ↔ ∀ file ∈ files, ∀ row,
        Decides (LeadsTo host.directory (subject.path file)) rows row → row.2 = []) ∧
      ((∀ file ∈ files, ∃ row,
          (rows.filter fun row => LeadsTo host.directory (subject.path file) row.1) = [row]) →
        (outcome.violations = [] ↔ ∀ file ∈ files, ∀ row ∈ rows,
          LeadsTo host.directory (subject.path file) row.1 → row.2 = [])) := by
  rw [kind.check_eq] at hend
  obtain ⟨files, middle, between, hlifted, hparse⟩ := Checking.exec_bind_eq_ok hend
  obtain ⟨hfiles, rfl⟩ := Checking.exec_lift_eq_ok hlifted
  obtain rfl : between = host := by
    rw [← (kind.reads_files subject).exec_snd host, hfiles]
  obtain ⟨hne, executable, answer, rows, hanswer, hrows, hstarts, hviolations⟩ :=
    exec_parseFiles_eq_ok hparse hmade
  have hfound : ∀ found, found ∈ outcome.violations ↔
      ∃ file ∈ files, ∃ row, Decides (LeadsTo between.directory (subject.path file)) rows row ∧
        ∃ fault ∈ row.2, found = violation file fault := by
    intro found
    rw [hviolations, List.mem_flatMap]
    simp only [List.mem_map, mem_faultsOf_iff]
    constructor
    · rintro ⟨file, hfile, fault, ⟨row, hdecides, hfault⟩, rfl⟩
      exact ⟨file, hfile, row, hdecides, fault, hfault, rfl⟩
    · rintro ⟨file, hfile, row, hdecides, fault, hfault, rfl⟩
      exact ⟨file, hfile, fault, ⟨row, hdecides, hfault⟩, rfl⟩
  have hnone : outcome.violations = [] ↔ ∀ file ∈ files, ∀ row,
      Decides (LeadsTo between.directory (subject.path file)) rows row → row.2 = [] := by
    simp only [List.eq_nil_iff_forall_not_mem, hfound]
    constructor
    · intro hnone file hfile row hdecides fault hfault
      exact hnone _ ⟨file, hfile, row, hdecides, fault, hfault, rfl⟩
    · rintro hnone found ⟨file, hfile, row, hdecides, fault, hfault, -⟩
      exact hnone file hfile row hdecides fault hfault
  refine ⟨files, executable, answer, rows, hfiles, hne, hstarts, hanswer, hrows, hfound, hnone, ?_⟩
  intro hsingle
  rw [hnone]
  refine forall₂_congr fun file hfile => ?_
  obtain ⟨row, hrow⟩ := hsingle file hfile
  have honly : ∀ other, Decides (LeadsTo between.directory (subject.path file)) rows other ↔
      other ∈ rows ∧ LeadsTo between.directory (subject.path file) other.1 := by
    intro other
    rw [decides_iff_of_filter_eq_singleton hrow, ← List.mem_singleton, ← hrow, List.mem_filter,
      decide_eq_true_iff]
  simp only [honly, and_imp]

/-! ## One file -/

/-- A module with one file, on a host where PowerShell answers with this text. -/
def answeringHost (answer : String) : Host :=
  { scriptHost [(["m", "a.psm1"], .file [])] with
    results := [.finished 0 (Tool.ResultLine.mark ++ answer) ""] }

def onlyFile : Path := ⟨.relative, ["a.psm1"]⟩

theorem exec_files_answeringHost (answer : String) :
    (Kind.modules.files (Subject.ofModule "m")).exec (answeringHost answer) =
      (.ok [onlyFile], answeringHost answer) := by
  have hbelow : (below (Subject.ofModule "m").root).exec (answeringHost answer) =
      (.ok [(onlyFile, .file [])], answeringHost answer) := rfl
  have hall : (File.all (Subject.ofModule "m").root Config.default.excludedDirectories).exec
      (answeringHost answer) = (.ok [onlyFile], answeringHost answer) := by
    unfold File.all
    rw [exec_bind_ok hbelow]
    show (Except.ok ([onlyFile].mergeSort _), _) = _
    rw [List.mergeSort_singleton]
  have hsuffix : File.hasSuffix ([".psm1"].map Text.lowerString) onlyFile = true := by decide
  show (File.withSuffix _ Config.default.excludedDirectories [".psm1"]).exec _ = _
  unfold File.withSuffix
  rw [exec_bind_ok hall, List.filter_cons_of_pos hsuffix]
  rfl

/-- An answer with one row, which lists an error. -/
def faultyAnswer : String :=
  "[\x7b\"path\":\"/m/a.psm1\",\"errors\":[\x7b\"line\":1,\"column\":2,\"message\":\"bad\"\x7d]\x7d]"

/-- An answer with the same row and behind it another one for the file, without errors. -/
def repeatedAnswer : String :=
  "[\x7b\"path\":\"/m/a.psm1\",\"errors\":[\x7b\"line\":1,\"column\":2,\"message\":\"bad\"\x7d]\x7d," ++
    "\x7b\"path\":\"/m/a.psm1\"\x7d]"

def faultyRow : Row := ("/m/a.psm1", [⟨1, 2, "bad"⟩])

def faultyValue : Value :=
  .table [("path", .text "/m/a.psm1"),
    ("errors", .list [.table [("line", .int 1), ("column", .int 2), ("message", .text "bad")]])]

theorem answer?_faultyAnswer :
    answer? ((answeringHost faultyAnswer).results.headD (.missing none)) =
      some (.list [faultyValue]) :=
  Tool.Pwsh.answer?_of_line (by decide) (by cbv)

theorem answer?_repeatedAnswer :
    answer? ((answeringHost repeatedAnswer).results.headD (.missing none)) =
      some (.list [faultyValue, .table [("path", .text "/m/a.psm1")]]) :=
  Tool.Pwsh.answer?_of_line (by decide) (by cbv)

theorem rows?_faultyAnswer : rows? (.list [faultyValue]) = .ok [faultyRow] := by
  rfl

theorem rows?_repeatedAnswer :
    rows? (.list [faultyValue, .table [("path", .text "/m/a.psm1")]]) =
      .ok [faultyRow, ("/m/a.psm1", [])] := by
  rfl

theorem exec_find_answeringHost (answer : String) :
    (Tool.Pwsh.find (Subject.ofModule "m").config).exec (answeringHost answer) =
      (.ok (some "/bin/pwsh"), answeringHost answer) :=
  (Tool.Pwsh.exec_find_of_name (by decide) _).trans rfl

/-- How the check of modules ends if PowerShell answers with these rows. -/
theorem exec_check_answeringHost {answer : String} {value : Value} {rows : List Row}
    (hanswer : answer? ((answeringHost answer).results.headD (.missing none)) = some value)
    (hrows : rows? value = .ok rows)
    (hplain : ¬ ∃ row ∈ Entries.ofList rows, (Path.ofString row.1).hasNull = true) :
    ∃ after, ((Kind.modules.check (Subject.ofModule "m")).run .none).exec (answeringHost answer) =
      (.ok (.found
        ((faultsOf ⟨.slash, ["m"]⟩ rows ⟨.slash, ["m", "a.psm1"]⟩).map (violation onlyFile))
        [("files", .int 1)], .none), after) := by
  have hnull : ¬ ∃ file ∈ [onlyFile], ((Subject.ofModule "m").path file).hasNull = true := by
    decide
  obtain ⟨after, hend⟩ := exec_check_of_rows (exec_files_answeringHost answer)
    (List.cons_ne_nil _ _) (exec_find_answeringHost answer) hanswer hrows
    (not_or.mpr ⟨hplain, hnull⟩) .none
  refine ⟨after, hend.trans ?_⟩
  rw [List.flatMap_singleton]
  rfl

theorem deciding_rows_are_reported_faulty :
    ∃ outcome after,
      ((Kind.modules.check (Subject.ofModule "m")).run .none).exec (answeringHost faultyAnswer) =
        (.ok (outcome, .none), after) ∧
      outcome.skipped = "" ∧ violation onlyFile ⟨1, 2, "bad"⟩ ∈ outcome.violations := by
  obtain ⟨after, hend⟩ :=
    exec_check_answeringHost answer?_faultyAnswer rows?_faultyAnswer (by decide)
  obtain ⟨files, executable, value, rows, hfiles, -, -, hvalue, hrows, hfound, -⟩ :=
    deciding_rows_are_reported .modules hend rfl
  obtain rfl : files = [onlyFile] :=
    Except.ok.inj (congrArg Prod.fst (hfiles.symm.trans (exec_files_answeringHost _)))
  obtain rfl := Option.some.inj (hvalue.symm.trans answer?_faultyAnswer)
  obtain rfl : rows = [faultyRow] := Except.ok.inj (hrows.symm.trans rows?_faultyAnswer)
  have hdecides : Decides (LeadsTo ⟨.slash, ["m"]⟩ ((Subject.ofModule "m").path onlyFile))
      [faultyRow] faultyRow := (decides_iff_of_filter_eq_singleton rfl).mpr rfl
  refine ⟨_, after, hend, rfl, (hfound _).mpr ⟨onlyFile, by simp, faultyRow, hdecides, ?_⟩⟩
  exact ⟨⟨1, 2, "bad"⟩, by simp [faultyRow], rfl⟩

/-- PowerShell answers with these rows, and the check of modules is made and finds nothing. -/
def PassesWith (answer : String) (rows : List Row) : Prop :=
  (∃ value, answer? ((answeringHost answer).results.headD (.missing none)) = some value ∧
    rows? value = .ok rows) ∧
  ∃ after, ((Kind.modules.check (Subject.ofModule "m")).run .none).exec (answeringHost answer) =
    (.ok (.found [] [("files", .int 1)], .none), after)

/-- The module passes if the answer has no row for its file, and if a row with an error is followed by
another one for the same file. -/
theorem unlisted_file_passes :
    (∀ answer ∈ ["[]", repeatedAnswer],
      (Kind.modules.files (Subject.ofModule "m")).exec (answeringHost answer) =
        (.ok [onlyFile], answeringHost answer)) ∧
    PassesWith "[]" [] ∧
    PassesWith repeatedAnswer [faultyRow, ("/m/a.psm1", [])] ∧
    LeadsTo ⟨.slash, ["m"]⟩ ((Subject.ofModule "m").path onlyFile) faultyRow.1 ∧
    faultyRow.2 ≠ [] := by
  have hempty : answer? ((answeringHost "[]").results.headD (.missing none)) = some (.list []) :=
    Tool.Pwsh.answer?_of_line (by decide) (by cbv)
  have hnone : rows? (.list []) = .ok [] := rfl
  refine ⟨fun answer _ => exec_files_answeringHost answer, ⟨⟨_, hempty, hnone⟩, ?_⟩,
    ⟨⟨_, answer?_repeatedAnswer, rows?_repeatedAnswer⟩, ?_⟩, by decide, by simp [faultyRow]⟩
  · exact exec_check_answeringHost hempty hnone (by decide)
  · exact exec_check_answeringHost answer?_repeatedAnswer rows?_repeatedAnswer (by decide)

end

end Check.Parsing

end DscAudit

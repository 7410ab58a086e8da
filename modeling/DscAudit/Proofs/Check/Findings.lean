import DscAudit.Proofs.Check.Analyzer
import Mathlib

/-!
# What becomes of the findings of the script analyzer

Three checks look at the findings.  Two of them look for rules that are listed, the third one for errors
of rules that are in no list.  They share the findings of one analysis, in whatever order they are made,
and no error in the module gets lost between them unless its rule is one of those to be ignored.
-/

namespace DscAudit

namespace Path

theorem relativeTo?_resolve_eq_some_iff {path base directory relative : Path} :
    (path.resolve directory).relativeTo? (base.resolve directory) = some relative ↔
      ∃ parts, (path.resolve directory).parts = (base.resolve directory).parts ++ parts ∧
        relative = ⟨.relative, parts⟩ := by
  unfold relativeTo? resolve components
  generalize collapse (directory.join path).parts = parts
  generalize collapse (directory.join base).parts = front
  simp only [List.isPrefixOf_iff_prefix, List.cons_prefix_cons, true_and,
    Option.ite_none_right_eq_some, Option.some.injEq, List.length_cons, List.drop_succ_cons]
  constructor
  · rintro ⟨⟨rest, rfl⟩, rfl⟩
    exact ⟨rest, rfl, by simp⟩
  · rintro ⟨rest, rfl, rfl⟩
    exact ⟨List.prefix_append _ _, by simp⟩

end Path

namespace Check.Analyzer

open DscAudit.Action
open Tool.Pwsh (Finding answer? scriptCall override)

variable {subject : Subject} {directory : Path} {host : Host} {known : Findings}

/-! ## The findings that count -/

/-- The finding has no script, or one in the module and in no excluded directory. -/
def Concerns (subject : Subject) (directory : Path) (finding : Finding) : Prop :=
  finding.script = "" ∨
    ((Path.ofString finding.script).hasNull = false ∧
      ∃ parts, ((Path.ofString finding.script).resolve directory).parts =
          (subject.root.resolve directory).parts ++ parts ∧
        ∀ part ∈ parts.dropLast, part ∉ subject.config.excludedDirectories)

theorem isInScope_iff {finding : Finding} :
    isInScope subject directory finding = true ↔ Concerns subject directory finding := by
  unfold isInScope Concerns relative?
  rw [Bool.or_eq_true, String.isEmpty_iff]
  refine or_congr_right ?_
  by_cases hnull : (Path.ofString finding.script).hasNull = true
  · simp [hnull]
  · dsimp only
    rw [if_neg hnull]
    simp only [hnull, Option.any_eq_true, Path.relativeTo?_resolve_eq_some_iff, true_and]
    constructor
    · rintro ⟨path, ⟨parts, hparts, rfl⟩, hincluded⟩
      refine ⟨parts, hparts, ?_⟩
      simpa [Path.isExcluded, Path.components] using hincluded
    · rintro ⟨parts, hparts, hincluded⟩
      refine ⟨_, ⟨parts, hparts, rfl⟩, ?_⟩
      simpa [Path.isExcluded, Path.components] using hincluded

instance (finding : Finding) : Decidable (Concerns subject directory finding) :=
  decidable_of_iff _ isInScope_iff

/-! ## The checks -/

/-- The findings that a check looks for. -/
inductive Selection where
  | required
  | flagged
  | newErrors
  deriving DecidableEq

namespace Selection

def check : Selection → Subject → Checking Outcome
  | required => requiredRules
  | flagged => flaggedRules
  | newErrors => newErrorRules

/-- The severity is that of an error, in any case. -/
def IsErrorSeverity (severity : String) : Prop :=
  Text.lowerString severity = "error" ∨ Text.lowerString severity = "parseerror"

instance (severity : String) : Decidable (IsErrorSeverity severity) :=
  inferInstanceAs (Decidable (_ ∨ _))

/-- The finding is one that the check looks for. -/
def Wants (rules : AnalyzerConfig) (finding : Finding) : Selection → Prop
  | required => finding.rule ∈ rules.requiredRules
  | flagged => finding.rule ∈ rules.flaggedRules
  | newErrors => IsErrorSeverity finding.severity ∧ finding.rule ∉ rules.requiredRules ∧
      finding.rule ∉ rules.flaggedRules ∧ finding.rule ∉ rules.ignoredRules

instance (rules : AnalyzerConfig) (finding : Finding) (selection : Selection) :
    Decidable (selection.Wants rules finding) := by
  cases selection <;> unfold Wants <;> infer_instance

/-- Of the findings of an analysis, those that the check reports. -/
def reported (subject : Subject) (directory : Path) (findings : List Finding)
    (selection : Selection) : List Finding :=
  findings.filter fun finding =>
    Concerns subject directory finding ∧ selection.Wants subject.config.analyzer finding

/-- The outcome of the check for the findings of an analysis. -/
def outcome (subject : Subject) (directory : Path) (findings : List Finding)
    (selection : Selection) : Outcome :=
  .found ((selection.reported subject directory findings).map (violation subject directory))
    [("records", .int (findings.filter fun finding => Concerns subject directory finding).length),
     ("selected", .int (selection.reported subject directory findings).length)]

theorem check_eq (selection : Selection) (subject : Subject) :
    selection.check subject =
      select subject fun finding => selection.Wants subject.config.analyzer finding := by
  have hwanted : ∀ isWanted : Finding → Bool,
      (∀ finding, isWanted finding = true ↔ selection.Wants subject.config.analyzer finding) →
        isWanted = fun finding => decide (selection.Wants subject.config.analyzer finding) :=
    fun isWanted hiff => funext fun finding => Bool.eq_iff_iff.mpr (by simp [hiff])
  cases selection with
  | required => exact congrArg (select subject) (hwanted _ fun finding => by simp [Wants])
  | flagged => exact congrArg (select subject) (hwanted _ fun finding => by simp [Wants])
  | newErrors =>
    exact congrArg (select subject) (hwanted _ fun finding => by
      simp [Wants, isError, IsErrorSeverity])

end Selection

/-! ## Checks on one shared context -/

/-- What is known once an analysis has given these findings. -/
def knowing (subject : Subject) (directory : Path) (records : List Finding) (known : Findings) :
    Findings :=
  { known with
    analyzer := some (.ok (records.filter fun record => Concerns subject directory record)) }

/-- The process that analyzes the module. -/
def analysisCall (subject : Subject) (executable : String) (host : Host) : ProcessCall :=
  scriptCall (subject.session executable) Tool.Script.analyze
    (override host.environment [("DSCMETA_ROOT", subject.root.toString)])

/-- PowerShell can be found, and the analyzer answers with these findings. -/
structure AnswersWith (subject : Subject) (host : Host) (executable : String)
    (records : List Finding) : Prop where
  find : (Tool.Pwsh.find subject.config).exec host = (.ok (some executable), host)
  answer : ∃ value, answer? (host.results.headD (.missing none)) = some value ∧
    Tool.Pwsh.findings? value = .ok (some records)

/-- Checks on one shared context, one after the other. -/
def checkAll (subject : Subject) (selections : List Selection) : Checking (List Outcome) :=
  selections.mapM fun selection : Selection => selection.check subject

variable {executable : String} {records : List Finding}

theorem exec_analyze_of_answersWith (hanswers : AnswersWith subject host executable records) :
    ∃ after, (analyze subject).exec host =
        (.ok (.ok (records.filter fun record => Concerns subject host.directory record)), after) ∧
      host.Starts [analysisCall subject executable host] after := by
  obtain ⟨value, hvalue, hrecords⟩ := hanswers.answer
  obtain ⟨ending, after, hrun, hending, hstarts⟩ := Tool.Pwsh.exec_run (subject.session executable)
    Tool.Script.analyze [("DSCMETA_ROOT", subject.root.toString)] host
  rw [hvalue] at hending
  obtain rfl : ending = .ok value := by
    cases ending with
    | error failure => cases hending
    | ok value' => exact congrArg Except.ok (Option.some.inj hending)
  have hanalyze : (Tool.Pwsh.analyze? (subject.session executable)).exec host =
      (.ok (some records), after) := by
    unfold Tool.Pwsh.analyze?
    refine (exec_bind_ok hrun _).trans ?_
    rw [hrecords]
    rfl
  have hdirectory : after.directory = host.directory := by
    obtain ⟨logs, rfl⟩ := hstarts
    rfl
  refine ⟨after, ?_, hstarts⟩
  unfold analyze
  rw [exec_bind_ok hanswers.find, exec_bind_ok hanalyze, ← hdirectory]
  show (Except.ok (Except.ok (records.filter _)), after) = _
  simp only [← isInScope_iff, Bool.decide_eq_true]

/-- Once the findings are known, a check reports those that it looks for and starts no process. -/
theorem exec_check_knowing (selection : Selection) (known : Findings) :
    ((selection.check subject).run (knowing subject host.directory records known)).exec host =
      (.ok (selection.outcome subject host.directory records,
        knowing subject host.directory records known), host) := by
  have hselected : selection.reported subject host.directory records =
      (records.filter fun record => Concerns subject host.directory record).filter
        fun record => selection.Wants subject.config.analyzer record := by
    rw [List.filter_filter]
    simp only [Selection.reported, Bool.decide_and, Bool.and_comm]
  rw [selection.check_eq, Selection.outcome, hselected]
  rfl

/-- The first check lets the analyzer run, and reports what it looks for like any other. -/
theorem exec_check_first (hanswers : AnswersWith subject host executable records)
    (selection : Selection) (hknown : known.analyzer = none) :
    ∃ after, ((selection.check subject).run known).exec host =
        (.ok (selection.outcome subject host.directory records,
          knowing subject host.directory records known), after) ∧
      host.Starts [analysisCall subject executable host] after := by
  obtain ⟨after, hanalyze, hstarts⟩ := exec_analyze_of_answersWith hanswers
  have hdirectory : after.directory = host.directory := by
    obtain ⟨logs, rfl⟩ := hstarts
    rfl
  have hfindings := exec_findings_unknown subject hknown host
  rw [hanalyze] at hfindings
  have hselected : ((selection.check subject).run
      (knowing subject after.directory records known)).exec after = (.ok (selection.outcome subject after.directory records,
        knowing subject after.directory records known), after) := exec_check_knowing selection known
  rw [hdirectory, selection.check_eq] at hselected
  refine ⟨after, ?_, hstarts⟩
  rw [selection.check_eq]
  unfold select at hselected ⊢
  rw [Checking.exec_bind_ok hfindings]
  exact hselected

theorem exec_checkAll_knowing (selections : List Selection) (known : Findings) :
    ((checkAll subject selections).run (knowing subject host.directory records known)).exec host =
      (.ok (selections.map (Selection.outcome subject host.directory records),
        knowing subject host.directory records known), host) := by
  induction selections with
  | nil => rfl
  | cons selection selections ih =>
    unfold checkAll at ih ⊢
    rw [List.mapM_cons, Checking.exec_bind_ok (exec_check_knowing selection known),
      Checking.exec_bind_ok ih]
    rfl

theorem exec_checkAll (hanswers : AnswersWith subject host executable records)
    (hknown : known.analyzer = none) {selections : List Selection} (hne : selections ≠ []) :
    ∃ known' after,
      ((checkAll subject selections).run known).exec host =
        (.ok (selections.map (Selection.outcome subject host.directory records), known'), after) ∧
      host.Starts [analysisCall subject executable host] after := by
  obtain ⟨selection, selections, rfl⟩ := List.exists_cons_of_ne_nil hne
  obtain ⟨after, hfirst, hstarts⟩ := exec_check_first hanswers selection hknown
  have hdirectory : after.directory = host.directory := by
    obtain ⟨logs, rfl⟩ := hstarts
    rfl
  have hothers : ((checkAll subject selections).run
      (knowing subject after.directory records known)).exec after =
        (.ok (selections.map (Selection.outcome subject after.directory records),
          knowing subject after.directory records known), after) :=
    exec_checkAll_knowing selections known
  rw [hdirectory] at hothers
  unfold checkAll at hothers ⊢
  refine ⟨knowing subject host.directory records known, after, ?_, hstarts⟩
  rw [List.mapM_cons, Checking.exec_bind_ok hfirst, Checking.exec_bind_ok hothers]
  rfl

/-! ## What gets lost -/

namespace Selection

variable {rules : AnalyzerConfig} {finding : Finding}

theorem exists_wants (herror : IsErrorSeverity finding.severity)
    (hignored : finding.rule ∉ rules.ignoredRules) :
    ∃ selection : Selection, selection.Wants rules finding := by
  by_cases hrequired : finding.rule ∈ rules.requiredRules
  · exact ⟨required, hrequired⟩
  by_cases hflagged : finding.rule ∈ rules.flaggedRules
  · exact ⟨flagged, hflagged⟩
  · exact ⟨newErrors, herror, hrequired, hflagged, hignored⟩

/-- Two checks look for the same finding only if its rule is both required and flagged. -/
theorem wants_unique (hdisjoint : ∀ rule ∈ rules.requiredRules, rule ∉ rules.flaggedRules)
    {first second : Selection} (hfirst : first.Wants rules finding)
    (hsecond : second.Wants rules finding) : first = second := by
  have hboth := hdisjoint finding.rule
  cases first <;> cases second <;> simp_all [Wants]

end Selection

/-- Whatever findings the analyzer answers with, all three checks are made, in any order and each any
number of times, and the analyzer runs once.  Each check reports just those findings in the module that
it looks for, in their order; an error is reported by one of them unless its rule is ignored, and by one
alone if no rule is both required and flagged. -/
theorem checks_cover_findings (hanswers : AnswersWith subject host executable records)
    (hknown : known.analyzer = none) {selections : List Selection} (hne : selections ≠ []) :
    (∃ known' after,
      ((checkAll subject selections).run known).exec host =
        (.ok (selections.map (Selection.outcome subject host.directory records), known'), after) ∧
      host.Starts [analysisCall subject executable host] after) ∧
    ∀ record ∈ records, Concerns subject host.directory record →
      Selection.IsErrorSeverity record.severity →
      record.rule ∉ subject.config.analyzer.ignoredRules →
        (∃ selection, record ∈ Selection.reported subject host.directory records selection) ∧
        ((∀ rule ∈ subject.config.analyzer.requiredRules,
            rule ∉ subject.config.analyzer.flaggedRules) →
          ∃! selection, record ∈ Selection.reported subject host.directory records selection) := by
  refine ⟨exec_checkAll hanswers hknown hne, ?_⟩
  intro record hrecord hconcerns herror hignored
  have hreported : ∀ selection : Selection,
      record ∈ selection.reported subject host.directory records ↔
        selection.Wants subject.config.analyzer record := by
    intro selection
    rw [Selection.reported, List.mem_filter, decide_eq_true_iff]
    exact ⟨fun hmem => hmem.2.2, fun hwants => ⟨hrecord, hconcerns, hwants⟩⟩
  simp only [hreported]
  obtain ⟨selection, hwants⟩ := Selection.exists_wants herror hignored
  exact ⟨⟨selection, hwants⟩, fun hdisjoint =>
    ⟨selection, hwants, fun other hother => Selection.wants_unique hdisjoint hother hwants⟩⟩

/-- An error in a script of the module, of a rule that is in no list. -/
def newRule : Finding := ⟨"R", "ParseError", "/m/a.ps1", 0, 0, ""⟩

def newRuleReply : String :=
  "\x7b\"available\":true,\"records\":[" ++
    "\x7b\"RuleName\":\"R\",\"Severity\":\"ParseError\",\"ScriptPath\":\"/m/a.ps1\"\x7d]\x7d"

def newRuleHost : Host :=
  { Host.holding ⟨[(["m"], .directory)]⟩ ⟨.slash, []⟩ with
    tools := [("pwsh", "/bin/pwsh")]
    results := [.finished 0 (Tool.ResultLine.mark ++ newRuleReply) ""] }

theorem answersWith_newRule : AnswersWith (.ofModule "m") newRuleHost "/bin/pwsh" [newRule] where
  find := (Tool.Pwsh.exec_find_of_name (by decide) _).trans rfl
  answer := by
    refine ⟨.table [("available", .bool true), ("records", .list [.table [("RuleName", .text "R"),
      ("Severity", .text "ParseError"), ("ScriptPath", .text "/m/a.ps1")]])], ?_, rfl⟩
    exact Tool.Pwsh.answer?_of_line (by decide) (by cbv)

theorem checks_cover_findings_newRule :
    AnswersWith (.ofModule "m") newRuleHost "/bin/pwsh" [newRule] ∧
    (∃ known after,
      ((checkAll (.ofModule "m") [.required, .flagged, .newErrors]).run .none).exec newRuleHost =
        (.ok ([.required, .flagged, .newErrors].map
          (Selection.outcome (.ofModule "m") ⟨.slash, []⟩ [newRule]), known), after)) ∧
    ∃! selection, newRule ∈ Selection.reported (.ofModule "m") ⟨.slash, []⟩ [newRule] selection := by
  obtain ⟨⟨known, after, hrun, -⟩, hcovered⟩ :=
    checks_cover_findings answersWith_newRule (show Findings.none.analyzer = none from rfl)
      (List.cons_ne_nil Selection.required [.flagged, .newErrors])
  have hconcerns : Concerns (.ofModule "m") newRuleHost.directory newRule := by decide
  have hignored : newRule.rule ∉ (Subject.ofModule "m").config.analyzer.ignoredRules := by decide
  obtain ⟨-, hunique⟩ := hcovered newRule List.mem_cons_self hconcerns (.inr (by decide)) hignored
  exact ⟨answersWith_newRule, ⟨known, after, hrun⟩, hunique (by decide)⟩

end Check.Analyzer

end DscAudit

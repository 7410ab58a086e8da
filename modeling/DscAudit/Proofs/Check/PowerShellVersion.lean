import DscAudit.Proofs.Check.Composition
import DscAudit.Proofs.Check.Coverage
import DscAudit.Proofs.Config.Merge
import DscAudit.Proofs.Manifest.Version

/-!
# The version of PowerShell that a manifest demands

A configuration is only accepted with a version as the lowest one for manifests, so there is always
something to compare with.  What a manifest demands is too low exactly if its numbers come before those
of the lowest version; zeros that are only written do not count, and the higher the demand or the lower
the bound, the better.
-/

namespace DscAudit

open DscAudit.Action
open DscAudit.Manifest (Version)

namespace Config

/-- The configuration is what a mapping of the right shape gives. -/
def IsAccepted (config : Config) : Prop :=
  ∃ payload source, Datum.IsTree payload ∧ ofDatum payload source = .ok config

/-- Also where nothing is configured. -/
theorem isAccepted_default : default.IsAccepted := by
  have hproblems : shape.problems (.table []) = [] := by decide +kernel
  refine ⟨.table [], "", .table nofun, ?_⟩
  rw [ofDatum, Problem.worst?_eq_none.mpr hproblems]
  rfl

/-- The lowest version of PowerShell is a version. -/
theorem IsAccepted.exists_minimum {config : Config} (hconfig : config.IsAccepted) :
    ∃ minimum, Version.read? config.minPowerShellVersion.toList = some minimum := by
  obtain ⟨payload, source, htree, haccepted⟩ := hconfig
  obtain ⟨hfits, rfl⟩ := ofDatum_eq_ok haccepted
  have hversion := isMerged_settingIn default.minPowerShellVersion text_isRead htree hfits
    (List.mem_of_getElem? (i := 5) rfl) (List.mem_of_getElem? (i := 0) rfl) rfl
  have hrule := hversion.fits.rule (List.mem_cons_of_mem _ (List.mem_singleton_self _))
  have hproblem := List.map_eq_nil_iff.mp hrule
  refine Version.exists_read?_of_dottedNumber ?_
  by_contra hpattern
  have hpattern : ¬ dottedNumber.occursIn (settingIn payload textOf default.minPowerShellVersion
      "manifest" "min_powershell_version").toList = true := hpattern
  simp only [Value.toDatum, Shape.ownProblem?, if_neg hpattern] at hproblem
  cases hproblem

end Config

namespace Check.Manifest

/-! ## The outcome of the check -/

/-- The code of a demand that is too low. -/
def tooLow : String := "MANIFEST_PSVERSION_TOO_LOW"

/-- The outcome reports a violation with a code. -/
def Reports (code : String) (outcome : Outcome) : Prop :=
  ∃ violation ∈ outcome.violations, violation.code = code

theorem code_tooLow (message name : String) : (Violation.ofFile tooLow message name).code = tooLow := by
  have hcode : Violation.trimmed tooLow = tooLow := by decide
  simp only [Violation.ofFile, Violation.normalize, hcode]
  rfl

theorem reports_versionOutcome_iff {name minimum s : String} {lowest version : Version}
    (hminimum : Version.read? minimum.toList = some lowest)
    (hversion : Version.read? s.toList = some version) :
    Reports tooLow (versionOutcome name minimum (some (.text s))) ↔ version.Precedes lowest := by
  rw [← Version.isLower_iff (Version.length_le_of_read? hversion)
    (Version.length_le_of_read? hminimum)]
  have hplain : Version.read? (Value.text s).plain.toList = some version := hversion
  unfold versionOutcome
  dsimp only
  rw [hplain, hminimum]
  dsimp only [Option.getD_some]
  split
  · rename_i hlower
    exact iff_of_true ⟨_, List.mem_singleton_self _, code_tooLow _ name⟩ hlower
  · rename_i hlower
    exact iff_of_false (fun ⟨_, hviolation, _⟩ => List.not_mem_nil hviolation) hlower

section

variable (subject : Subject) (known : Findings) (host : Host)

/-- The manifest can be read, and demands a version of PowerShell with a text. -/
def Demands (s : String) : Prop :=
  ∃ name table known' after,
    ((content subject).run known).exec host = (.ok (.entries name table, known'), after) ∧
      field? table "PowerShellVersion" = some (.text s)

/-- The check comes to an outcome, and reports that the demand is too low exactly if so. -/
def Concludes (isTooLow : Prop) : Prop :=
  ∃ outcome known' after,
    ((powerShellVersion subject).run known).exec host = (.ok (outcome, known'), after) ∧
      (Reports tooLow outcome ↔ isTooLow)

end

variable {subject : Subject} {known : Findings} {host : Host} {s : String} {lowest version : Version}

theorem Demands.concludes (hdemands : Demands subject known host s)
    (hversion : Version.read? s.toList = some version)
    (hlowest : Version.read? subject.config.minPowerShellVersion.toList = some lowest) :
    Concludes subject known host (version.Precedes lowest) := by
  obtain ⟨name, table, known', after, hcontent, hfield⟩ := hdemands
  refine ⟨versionOutcome name subject.config.minPowerShellVersion (some (.text s)), known', after, ?_,
    reports_versionOutcome_iff hlowest hversion⟩
  rw [powerShellVersion, Checking.exec_bind_ok hcontent, ← hfield]
  rfl

theorem Concludes.iff {isTooLow isTooLow' : Prop} (h : Concludes subject known host isTooLow)
    (h' : Concludes subject known host isTooLow') : isTooLow ↔ isTooLow' := by
  obtain ⟨outcome, known', after, hexec, hreports⟩ := h
  obtain ⟨outcome', known'', after', hexec', hreports'⟩ := h'
  rw [hexec] at hexec'
  cases hexec'
  exact hreports.symm.trans hreports'

theorem Concludes.congr {isTooLow isTooLow' : Prop} (h : Concludes subject known host isTooLow)
    (heq : isTooLow ↔ isTooLow') : Concludes subject known host isTooLow' := by
  obtain ⟨outcome, known', after, hexec, hreports⟩ := h
  exact ⟨outcome, known', after, hexec, hreports.trans heq⟩

/-- What the check makes of a version that a manifest demands, with the lowest one that is allowed. -/
structure ComparesNumbers (subject : Subject) (known : Findings) (host : Host) (s : String)
    (version lowest : Version) : Prop where
  concludes : Concludes subject known host (version.Precedes lowest)
  allowsItself : s = subject.config.minPowerShellVersion → Concludes subject known host False
  ignoresZeros : ∀ {subject' known' host' s'}, Demands subject' known' host' s' →
    Version.AddsZeros s.toList s'.toList →
    Version.AddsZeros subject.config.minPowerShellVersion.toList
      subject'.config.minPowerShellVersion.toList →
    ∀ isTooLow, Concludes subject known host isTooLow ↔ Concludes subject' known' host' isTooLow
  isMonotone : ∀ {subject' known' host' s' version' lowest'}, Demands subject' known' host' s' →
    Version.read? s'.toList = some version' →
    Version.read? subject'.config.minPowerShellVersion.toList = some lowest' →
    ¬ version'.Precedes version → ¬ lowest.Precedes lowest' →
    Concludes subject known host False → Concludes subject' known' host' False

/-- The lowest version of an accepted configuration is a version, and what a manifest demands is reported
as too low exactly if its numbers come before those of the lowest one.  So a version is never too low for
itself, zeros that are added to either text change nothing, and a manifest that passes also passes with a
version that is no lower and a bound that is no higher. -/
theorem powerShellVersion_compares_numbers (hconfig : subject.config.IsAccepted) :
    ∃ lowest, Version.read? subject.config.minPowerShellVersion.toList = some lowest ∧
      ∀ {known host s version}, Demands subject known host s →
        Version.read? s.toList = some version →
        ComparesNumbers subject known host s version lowest := by
  obtain ⟨lowest, hlowest⟩ := hconfig.exists_minimum
  refine ⟨lowest, hlowest, fun {known host s version} hdemands hversion => ?_⟩
  have hconcludes := hdemands.concludes hversion hlowest
  refine ⟨hconcludes, ?_, ?_, ?_⟩
  · rintro rfl
    obtain rfl := Option.some.inj (hversion.symm.trans hlowest)
    exact hconcludes.congr (iff_false_intro (Version.not_precedes_self version))
  · intro subject' known' host' s' hdemands' hzeros hlowestZeros isTooLow
    obtain ⟨version', hversion', hsame⟩ := Version.read?_of_addsZeros hversion hzeros
    obtain ⟨lowest', hlowest', hlowestSame⟩ := Version.read?_of_addsZeros hlowest hlowestZeros
    have hconcludes' := hdemands'.concludes hversion' hlowest'
    have horder : version.Precedes lowest ↔ version'.Precedes lowest' := by
      rw [Version.Precedes, Version.Precedes, hsame, hlowestSame]
    constructor
    · intro h
      exact hconcludes'.congr (horder.symm.trans (hconcludes.iff h))
    · intro h
      exact hconcludes.congr (horder.trans (hconcludes'.iff h))
  · intro subject' known' host' s' version' lowest' hdemands' hversion' hlowest' hhigher hlower hpasses
    have hnot := (hconcludes.iff hpasses).mp
    refine (hdemands'.concludes hversion' hlowest').congr (iff_false_intro fun hprecedes => ?_)
    exact hnot (hprecedes.mono hhigher hlower)

/-- What is known of a module whose manifest demands a version of PowerShell. -/
def demanding (s : String) : Findings :=
  ⟨some (.entries "m.psd1" [("PowerShellVersion", .text s)]), none⟩

theorem demands_demanding (name s : String) (host : Host) :
    Demands (.ofModule name) (demanding s) host s :=
  ⟨_, _, _, _, rfl, rfl⟩

/-- A manifest that demands less than the default allows. -/
theorem powerShellVersion_compares_numbers_default :
    ∃ lowest, Version.read? Config.default.minPowerShellVersion.toList = some lowest ∧
      ComparesNumbers (.ofModule "m") (demanding "3.0.12") (.holding ⟨[]⟩ ⟨.slash, ["m"]⟩) "3.0.12"
        [3, 0, 12] lowest := by
  have haccepted : (Subject.ofModule "m").config.IsAccepted := Config.isAccepted_default
  obtain ⟨lowest, hlowest, hcompares⟩ := powerShellVersion_compares_numbers haccepted
  exact ⟨lowest, hlowest, hcompares (demands_demanding _ _ _) (by decide)⟩

end Check.Manifest

end DscAudit

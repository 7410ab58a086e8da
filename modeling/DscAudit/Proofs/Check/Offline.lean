import DscAudit.Proofs.Check.Step
import DscAudit.Proofs.Host.Files

/-!
# Checks that share only what they find in files

Checks without tools look at files, and some of them share the content of the manifest.  Nothing that
they do changes a file, so what is known of the manifest stays what reading it gives.  A check therefore
ends in a run as it ends by itself, whatever checks come before it.
-/

namespace DscAudit

open DscAudit.Action

variable {α β : Type} {subject : Subject}

/-- What is known of the manifest is what reading it gives. -/
def Findings.IsTrue (known : Findings) (subject : Subject) (host : Host) : Prop :=
  ∀ content, known.manifest = some content →
    (Manifest.Content.load subject.root).exec host = (.ok content, host)

theorem Findings.isTrue_none (subject : Subject) (host : Host) : Findings.none.IsTrue subject host := by
  rintro content ⟨⟩

theorem Findings.IsTrue.of_sameFiles {known : Findings} {host other : Host}
    (hknown : known.IsTrue subject host) (hsame : host.SameFiles other) :
    known.IsTrue subject other := by
  intro content hcontent
  obtain ⟨ending, hload⟩ := Manifest.Content.looks_load subject.root host
  have hhere := hknown content hcontent
  rw [hload host (.refl host)] at hhere
  cases hhere
  exact hload other hsame

namespace Checking

/-- The step looks at nothing but files, and ends as it does when nothing is known if all that is known
is true. -/
def IsTransparent (subject : Subject) (step : Checking α) : Prop :=
  ∀ host : Host, ∃ ending : Except Failure α, ∀ other known, host.SameFiles other →
    known.IsTrue subject other →
      ∃ known' : Findings, known'.IsTrue subject other ∧
        (step.run known).exec other = (ending.map fun a => (a, known'), other)

namespace IsTransparent

theorem pure (a : α) : IsTransparent subject (pure a) :=
  fun _ => ⟨.ok a, fun _ known _ hknown => ⟨known, hknown, rfl⟩⟩

theorem bind {step : Checking α} {next : α → Checking β} (hstep : IsTransparent subject step)
    (hnext : ∀ a, IsTransparent subject (next a)) : IsTransparent subject (step >>= next) := by
  intro host
  obtain ⟨ending, hend⟩ := hstep host
  cases ending with
  | error failure =>
    refine ⟨.error failure, fun other known hother hknown => ⟨known, hknown, ?_⟩⟩
    obtain ⟨known', -, hfails⟩ := hend other known hother hknown
    exact exec_bind_error hfails next
  | ok a =>
    obtain ⟨last, hlast⟩ := hnext a host
    refine ⟨last, fun other known hother hknown => ?_⟩
    obtain ⟨known', hknown', hfirst⟩ := hend other known hother hknown
    rw [exec_bind_ok hfirst]
    exact hlast other known' hother hknown'

theorem compositional :
    Compositional (m := Checking) fun _ => IsTransparent subject := ⟨pure, bind⟩

theorem ite {c : Prop} [Decidable c] {first second : Checking β}
    (hfirst : IsTransparent subject first) (hsecond : IsTransparent subject second) :
    IsTransparent subject (if c then first else second) := by
  split
  · exact hfirst
  · exact hsecond

theorem lift {step : Action α} (hstep : LooksAtFiles step) :
    IsTransparent subject (liftM step : Checking α) := by
  intro host
  obtain ⟨ending, hend⟩ := hstep host
  refine ⟨ending, fun other known hother hknown => ⟨known, hknown, ?_⟩⟩
  cases ending with
  | error failure => exact Action.exec_bind_error (hend other hother) _
  | ok a => exact exec_lift_ok (hend other hother) known

/-- What is looked at does not matter. -/
theorem bind_looks {step : Action α} {next : α → Checking β} (hstep : LooksAtFiles step)
    (hnext : ∀ a, IsTransparent subject (next a)) :
    IsTransparent subject ((liftM step : Checking α) >>= next) :=
  bind (lift hstep) hnext

end IsTransparent

end Checking

namespace Check

open Checking

/-! ## Single checks -/

theorem run_content (known : Findings) :
    (Manifest.content subject).run known =
      match known.manifest with
      | some content => pure (content, known)
      | none => do
        let content ← DscAudit.Manifest.Content.load subject.root
        return (content, { known with manifest := some content }) := by
  rw [Manifest.content, StateT.run_bind, StateT.run_get, pure_bind]
  cases known.manifest with
  | some content => rfl
  | none => simp

/-- Reading the manifest once is as good as reading it again, also where it cannot be read. -/
theorem transparent_content : IsTransparent subject (Manifest.content subject) := by
  intro host
  obtain ⟨ending, hload⟩ := Manifest.Content.looks_load subject.root host
  refine ⟨ending, fun other known hother hknown => ?_⟩
  have hother := hload other hother
  rw [run_content]
  cases hmanifest : known.manifest with
  | some content =>
    have hhere := hknown content hmanifest
    rw [hother] at hhere
    cases hhere
    exact ⟨known, hknown, rfl⟩
  | none =>
    cases ending with
    | error failure => exact ⟨known, hknown, Action.exec_bind_error hother _⟩
    | ok content =>
      refine ⟨{ known with manifest := some content }, ?_, Action.exec_bind_ok hother _⟩
      rintro found ⟨⟩
      exact hother

theorem transparent_each {β : Type} {items : List β} {step : β → Checking (List Violation)}
    {metrics : Table} (hstep : ∀ item, IsTransparent subject (step item)) :
    IsTransparent subject (do
      let violations ← items.mapM step
      return Outcome.found violations.flatten metrics) :=
  .bind (IsTransparent.compositional.mapM fun item _ => hstep item) fun _ => .pure _

theorem transparent_inFiles (files : List Path) (look : String → Text.Octets → List Violation) :
    IsTransparent subject (Formatting.inFiles subject files look) := by
  apply transparent_each
  intro file
  exact .bind_looks (looks_readFile _) fun _ => .pure _

theorem transparent_inText (look : String → Text.Octets → List Violation) :
    IsTransparent subject (do Formatting.inFiles subject (← Formatting.textFiles subject) look) :=
  .bind_looks (File.looks_withExtension _ _ _) fun files => transparent_inFiles files look

theorem transparent_markdownMark : IsTransparent subject (Formatting.markdownMark subject) :=
  .bind_looks (File.looks_withSuffix _ _ _) fun files => transparent_inFiles files _

theorem transparent_present : IsTransparent subject (Manifest.present subject) := by
  apply IsTransparent.bind_looks (Manifest.looks_candidates _)
  intro candidates
  dsimp only
  split
  · exact .pure _
  · exact .ite (.pure _) (.pure _)

theorem transparent_valid : IsTransparent subject (Manifest.valid subject) := by
  apply transparent_content.bind
  intro content
  cases content <;> exact .pure _

theorem transparent_powerShellVersion : IsTransparent subject (Manifest.powerShellVersion subject) := by
  apply transparent_content.bind
  intro content
  cases content <;> exact .pure _

theorem transparent_filesPresent : IsTransparent subject (Resource.filesPresent subject) := by
  apply IsTransparent.bind_looks (Resource.looks_directories _)
  intro directories
  apply IsTransparent.ite (.pure _)
  apply transparent_each
  intro directory
  refine .bind (IsTransparent.compositional.filterM fun suffix _ => ?_) fun _ => .pure _
  exact .bind_looks (looks_isFile _) fun _ => .pure _

theorem transparent_schemaValid : IsTransparent subject (Resource.schemaValid subject) := by
  apply IsTransparent.bind_looks (Resource.looks_directoriesWith subject _)
  intro directories
  apply IsTransparent.ite (.pure _)
  apply transparent_each
  intro directory
  exact .bind_looks (Resource.looks_readText _) fun _ => .pure _

theorem transparent_functions : IsTransparent subject (Resource.functions subject) := by
  apply IsTransparent.bind_looks (Resource.looks_directoriesWith subject _)
  intro directories
  apply IsTransparent.ite (.pure _)
  apply transparent_each
  intro directory
  exact .bind_looks (Resource.looks_readText _) fun _ => .pure _

theorem transparent_parameterRules : IsTransparent subject (Analyzer.parameterRules subject) := by
  apply IsTransparent.bind_looks (File.looks_withSuffix _ _ _)
  intro files
  apply transparent_each
  intro file
  exact .bind_looks (looks_readFile _) fun _ => .pure _

theorem transparent_relativeLength : IsTransparent subject (PathLength.relative subject) :=
  .bind_looks (File.looks_all _ _) fun _ => .pure _

/-! ## The catalogue -/

/-- The checks that need no tool: those of files, of the manifest and of resources, that of parameter
blocks and that of paths. -/
def isOffline (check : Check) : Bool :=
  ["files", "manifest", "resources"].contains check.domain ||
    ["analyzer/custom-rules", "paths/relative-length"].contains check.id

def offline : List Check := all.filter isOffline

theorem transparent_of_mem_offline {check : Check} (hcheck : check ∈ offline) :
    IsTransparent subject (check.run subject) := by
  obtain ⟨hall, hoffline⟩ := List.mem_filter.mp hcheck
  simp only [all, formattingChecks, manifestChecks, resourceChecks, analyzerChecks, scriptChecks,
    otherChecks, List.mem_append, List.mem_cons, List.not_mem_nil, or_false] at hall
  rcases hall with (((((rfl | rfl | rfl | rfl) | rfl | rfl | rfl) | rfl | rfl | rfl) | rfl | rfl |
    rfl | rfl) | rfl | rfl | rfl) | rfl | rfl
  · exact transparent_inText _
  · exact transparent_inText _
  · exact transparent_inText _
  · exact transparent_markdownMark
  · exact transparent_present
  · exact transparent_valid
  · exact transparent_powerShellVersion
  · exact transparent_filesPresent
  · exact transparent_schemaValid
  · exact transparent_functions
  · cases hoffline
  · cases hoffline
  · cases hoffline
  · exact transparent_parameterRules
  · cases hoffline
  · cases hoffline
  · cases hoffline
  · cases hoffline
  · exact transparent_relativeLength

/-! ## Runs -/

/-- How a check ends by itself, when nothing is known. -/
def endingAlone (subject : Subject) (host : Host) (check : Check) : Except Failure Outcome :=
  (((check.run subject).run Findings.none).exec host).1.map (·.1)

variable {checks : List Check} {host other : Host} {known : Findings}

/-- A check ends as it does by itself, and what is known stays true behind it. -/
theorem offline_run {check : Check} (hcheck : check ∈ offline) (hsame : host.SameFiles other)
    (hknown : known.IsTrue subject other) :
    (((check.run subject).run known).exec other).1.map (·.1) = endingAlone subject host check ∧
      (((check.run subject).run known).exec other).2 = other ∧
      (knownAfter known (((check.run subject).run known).exec other).1).IsTrue subject other := by
  have htransparent : IsTransparent subject (check.run subject) := transparent_of_mem_offline hcheck
  obtain ⟨ending, hend⟩ := htransparent host
  obtain ⟨_, -, halone⟩ := hend host Findings.none (.refl host) (Findings.isTrue_none subject host)
  obtain ⟨known', hknown', hrun⟩ := hend other known hsame hknown
  rw [endingAlone, halone, hrun]
  cases ending with
  | error failure => exact ⟨rfl, rfl, hknown⟩
  | ok outcome => exact ⟨rfl, rfl, hknown'⟩

theorem exec_attempt_check (subject : Subject) (check : Check) (known : Findings) (host : Host) :
    ((attempt (check.run subject)).run known).exec host =
      (.ok ((((check.run subject).run known).exec host).1.map (·.1),
          knownAfter known (((check.run subject).run known).exec host).1),
        (((check.run subject).run known).exec host).2) := by
  rw [exec_attempt]
  rcases ((check.run subject).run known).exec host with ⟨failure | found, after⟩
  · rfl
  · rfl

/-- Attempts of checks one after the other end as the checks do by themselves. -/
theorem exec_attempts_offline (hchecks : ∀ check ∈ checks, check ∈ offline)
    (hknown : known.IsTrue subject host) :
    ∃ known', ((checks.mapM fun check => attempt (check.run subject)).run known).exec host =
      (.ok (checks.map (endingAlone subject host), known'), host) := by
  induction checks generalizing known with
  | nil => exact ⟨known, rfl⟩
  | cons check checks ih =>
    rw [List.forall_mem_cons] at hchecks
    obtain ⟨hending, hhost, hafter⟩ := offline_run hchecks.1 (.refl host) hknown
    have hfirst := exec_attempt_check subject check known host
    rw [hending, hhost] at hfirst
    obtain ⟨last, hrest⟩ := ih hchecks.2 hafter
    refine ⟨last, ?_⟩
    rw [List.mapM_cons, Checking.exec_bind_ok hfirst, Checking.exec_bind_ok hrest]
    rfl

/-- The result tells how the check ends by itself. -/
def TellsAlone (subject : Subject) (optIn : OptIn) (host : Host) (check : Check) (result : Result) :
    Prop :=
  ∃ milliseconds, result = resultOfEnding optIn check milliseconds (endingAlone subject host check)

/-- The lines that a run logs between its checks change no file. -/
theorem exec_runAll_offline (optIn : OptIn) (failFast : Bool)
    (hchecks : ∀ check ∈ checks, check ∈ offline) (hsame : host.SameFiles other)
    (hknown : known.IsTrue subject other) :
    ∃ ran left results known' after,
      ((runAll subject optIn failFast checks).run known).exec other = (.ok (results, known'), after) ∧
      checks = ran ++ left ∧ List.Forall₂ (TellsAlone subject optIn host) ran results ∧
      (left ≠ [] → failFast = true ∧ ∃ result ∈ results.getLast?, result.status.isFailing = true) := by
  induction checks generalizing known other with
  | nil => exact ⟨[], [], [], known, other, rfl, rfl, .nil, nofun⟩
  | cons check checks ih =>
    rw [List.forall_mem_cons] at hchecks
    obtain ⟨started, milliseconds, finished, hstarts, hfinishes, hrun⟩ :=
      exec_runAll_cons subject optIn check known other
    have hstarted := hsame.trans (.of_starts hstarts)
    obtain ⟨hending, hhost, hafter⟩ :=
      offline_run hchecks.1 hstarted (hknown.of_sameFiles (.of_starts hstarts))
    rw [hhost] at hfinishes
    rw [hending] at hrun
    have hresult : TellsAlone subject optIn host check
        (resultOfEnding optIn check milliseconds (endingAlone subject host check)) := ⟨milliseconds, rfl⟩
    generalize resultOfEnding optIn check milliseconds (endingAlone subject host check) = result
      at hrun hresult
    by_cases hstops : (failFast && result.status.isFailing) = true
    · obtain ⟨rfl, hfails⟩ := Bool.and_eq_true_iff.mp hstops
      have hends := (hrun true checks).trans (exec_goOn_failing checks hfails _ _)
      exact ⟨[check], checks, _, _, _, hends, rfl, .cons hresult .nil, fun _ => ⟨rfl, result, rfl, hfails⟩⟩
    · obtain ⟨ran, left, results, last, after, hrest, rfl, hresults, hleft⟩ := ih hchecks.2
        (hstarted.trans (.of_starts hfinishes)) (hafter.of_sameFiles (.of_starts hfinishes))
      have hends := (hrun failFast _).trans (exec_goOn (by simpa using hstops) hrest)
      refine ⟨check :: ran, left, _, _, _, hends, rfl, .cons hresult hresults, fun hsome => ?_⟩
      obtain ⟨hfast, failing, hlast, hfails⟩ := hleft hsome
      exact ⟨hfast, failing, List.mem_getLast?_cons hlast, hfails⟩

/-- Checks that need no tool end in a run as each of them ends by itself, in whatever order they come
and however often, whether they come to an outcome or break off.  A run only leaves out checks behind a
failing one. -/
theorem offline_ends_alone (subject : Subject) (host : Host)
    (hchecks : ∀ check ∈ checks, check ∈ offline) :
    (∃ known, ((checks.mapM fun check => attempt (check.run subject)).run Findings.none).exec host =
      (.ok (checks.map (endingAlone subject host), known), host)) ∧
    ∀ optIn failFast, ∃ ran left summary after,
      (runChecks subject checks optIn failFast).exec host = (.ok summary, after) ∧
      checks = ran ++ left ∧ List.Forall₂ (TellsAlone subject optIn host) ran summary.results ∧
      (left ≠ [] → failFast = true ∧
        ∃ result ∈ summary.results.getLast?, result.status.isFailing = true) := by
  have hnone := Findings.isTrue_none subject host
  constructor
  · exact exec_attempts_offline hchecks hnone
  · intro optIn failFast
    obtain ⟨ran, left, results, known, after, hrun, hends⟩ :=
      exec_runAll_offline optIn failFast hchecks (.refl host) hnone
    exact ⟨ran, left, _, after, exec_runChecks_of_runAll hrun, hends⟩

/-- A module whose manifest has no end. -/
def brokenManifest : Host :=
  .holding ⟨[(["m"], .directory), (["m", "m.psd1"], .file [0x40, 0x7B])]⟩ ⟨.slash, []⟩

theorem offline_ends_alone_brokenManifest :
    (∀ check ∈ manifestChecks ++ resourceChecks ++ manifestChecks, check ∈ offline) ∧
    ∃ known, (((manifestChecks ++ resourceChecks ++ manifestChecks).mapM fun check =>
        attempt (check.run (.ofModule "m"))).run Findings.none).exec brokenManifest =
      (.ok ((manifestChecks ++ resourceChecks ++ manifestChecks).map
        (endingAlone (.ofModule "m") brokenManifest), known), brokenManifest) := by
  have hoffline : ∀ check ∈ manifestChecks ++ resourceChecks ++ manifestChecks,
      isOffline check = true := by decide
  have hchecks : ∀ check ∈ manifestChecks ++ resourceChecks ++ manifestChecks, check ∈ offline := by
    intro check hcheck
    refine List.mem_filter.mpr ⟨?_, hoffline check hcheck⟩
    simp only [List.mem_append] at hcheck
    rcases hcheck with (hcheck | hcheck) | hcheck
    all_goals simp [all, hcheck]
  exact ⟨hchecks, (offline_ends_alone (.ofModule "m") brokenManifest hchecks).1⟩

end Check

end DscAudit

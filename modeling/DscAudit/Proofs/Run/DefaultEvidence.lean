import DscAudit.Proofs.Run.Load

/-!
# The directory for evidence of a run that is told none

A run that is told no directory for evidence writes below `output/dscmeta` in its module, and refuses all
other files.  It is told one as soon as the variable of the environment is set: to be set and empty is to
name the module itself, and then no file of the module is refused.
-/

namespace DscAudit

open DscAudit.Action

/-- Parts below an absolute path are followed one by one. -/
theorem Path.resolve_join_relative {parts more : List String} (hparts : ".." ∉ parts)
    (hmore : ".." ∉ more) (directory : Path) :
    ((⟨.slash, parts⟩ : Path).join ⟨.relative, more⟩).resolve directory = ⟨.slash, parts ++ more⟩ := by
  have hnormal : (⟨.slash, parts ++ more⟩ : Path).IsNormal :=
    ⟨rfl, fun hmem => (List.mem_append.mp hmem).elim hparts hmore⟩
  exact congrArg (Path.mk .slash) (hnormal.parts_resolve directory)

theorem Path.hasNull_join_relative {parts more : List String}
    (hparts : (⟨.slash, parts⟩ : Path).hasNull = false)
    (hmore : (⟨.relative, more⟩ : Path).hasNull = false) :
    ((⟨.slash, parts⟩ : Path).join ⟨.relative, more⟩).hasNull = false := by
  simp only [hasNull] at hparts hmore
  exact (List.any_append.trans (by rw [hparts, hmore]; rfl) : (parts ++ more).any _ = false)

namespace RunContext

/-- The root directory of a module is an absolute path without double points. -/
theorem gives_moduleRoot (named : Option String) :
    Gives (fun root => ∃ parts, root = ⟨.slash, parts⟩ ∧ ".." ∉ parts) (moduleRoot named) := by
  have hsettles : ∀ path,
      Gives (fun root => ∃ parts, root = ⟨.slash, parts⟩ ∧ ".." ∉ parts) (settleRoot path) := by
    intro path
    unfold settleRoot
    refine .bind (.always _) fun path _ => .bind (gives_resolve path) fun root hroot => ?_
    obtain ⟨directory, rfl⟩ := hroot
    have hparts := (Path.isNormal_resolve path directory).noDoublePoint
    refine .bind (.always _) fun found _ => ?_
    exact .ite (fun _ => .of_fails (.of_throw _)) fun _ => .of_pure ⟨_, rfl, hparts⟩
  rw [moduleRoot_eq]
  refine .bind (.always _) fun found _ => ?_
  split
  · exact hsettles _
  · exact .bind (.always _) fun _ _ => hsettles _

/-- The directory for evidence of a module for which none is named. -/
def defaultDirectory (root : Path) : Path := (root.child "output").child "dscmeta"

/-- The value of the variable of the environment that names the directory for evidence. -/
def evidenceVariable? (host : Host) : Option String :=
  (host.environment.find? fun entry => entry.1 == "DSCMETA_EVIDENCE_ROOT").map (·.2)

variable {settings : RunSettings} {context : RunContext} {host after : Host} {path root : Path}

theorem eq_empty_of_nonEmpty? {s : String} (h : nonEmpty? (some s) = none) : s = "" := by
  simpa [nonEmpty?] using h

/-- Where no directory is named it is the default one if the variable is not set, and the module if it
is. -/
theorem exec_evidenceRoot {named : Option String}
    (hroot : (moduleRoot settings.moduleRoot).exec host = (.ok root, after))
    (hnamed : nonEmpty? named = none) (hempty : nonEmpty? (evidenceVariable? host) = none) :
    (evidenceRoot root named).exec host =
      (.ok (if evidenceVariable? host = none then defaultDirectory root else root), host) := by
  have hnull : root.hasNull = false :=
    (Volume.isDirectory_iff_leadsTo.mp (isDirectory_of_moduleRoot hroot)).1
  obtain ⟨parts, rfl, hparts⟩ := gives_moduleRoot _ _ _ _ hroot
  have hasked : (environment? "DSCMETA_EVIDENCE_ROOT").exec host =
      (.ok (evidenceVariable? host), host) := rfl
  unfold evidenceRoot
  rw [hnamed]
  dsimp only
  rw [exec_bind_ok hasked, exec_bind_ok (exec_pure _ _)]
  cases hvariable : evidenceVariable? host with
  | none =>
    have hpath : Path.ofString defaultEvidence = ⟨.relative, ["output", "dscmeta"]⟩ := by decide
    rw [Option.getD_none, hpath, exec_resolve (Path.hasNull_join_relative hnull (by decide)),
      Path.resolve_join_relative hparts (by decide), if_pos rfl, defaultDirectory, Path.child, Path.child,
      List.append_assoc]
    rfl
  | some value =>
    rw [hvariable] at hempty
    have hpath : Path.ofString value = ⟨.relative, []⟩ := by
      rw [eq_empty_of_nonEmpty? hempty]
      decide
    rw [Option.getD_some, hpath, exec_resolve (Path.hasNull_join_relative hnull (by decide)),
      Path.resolve_join_relative hparts (by decide), List.append_nil]
    rfl

/-- Why a value is not written outside the directory for evidence. -/
def refusal (context : RunContext) (path : Path) (host : Host) : Failure :=
  if (context.root.join path).hasNull then .defect .nullInPath
  else .complaint ⟨"forbidden write path outside evidence root: " ++
    ((context.root.join path).resolve host.directory).toString, .validation, "forbidden_write_path"⟩

/-- A file outside the directory for evidence is refused, whatever the path to it, and nothing happens. -/
theorem exec_writeJson_refusal (payload : Value) (hevidence : context.evidence.IsNormal)
    (hnull : context.evidence.hasNull = false)
    (houtside : ¬ context.evidence.parts <+: ((context.root.join path).resolve host.directory).parts) :
    (context.writeJson path payload).exec host = (.error (context.refusal path host), host) := by
  rw [refusal]
  by_cases hpath : (context.root.join path).hasNull = true
  · rw [if_pos hpath]
    unfold writeJson evidencePath
    refine exec_bind_error (exec_bind_error ?_ _) _
    unfold resolve
    rw [if_pos hpath]
    rfl
  · rw [if_neg hpath]
    rw [← hevidence.parts_resolve host.directory] at houtside
    exact exec_writeJson_outside payload (Bool.eq_false_iff.mpr hpath) hnull houtside

/-- The evidence lies in the default directory, and every other file is refused. -/
structure KeepsDefault (context : RunContext) : Prop where
  directory : context.evidence = defaultDirectory context.root
  refuses : ∀ (path : Path) (payload : Value) (host : Host),
    ¬ (defaultDirectory context.root).parts <+: ((context.root.join path).resolve host.directory).parts →
      (context.writeJson path payload).exec host = (.error (context.refusal path host), host)

/-- No file of the module is refused. -/
def RefusesNoFile (context : RunContext) : Prop :=
  ∀ (path : Path) (payload : Value) (host : Host), host.volume.IsTree →
    host.directory.hasNull = false → (context.root.join path).hasNull = false →
    context.root.parts <+: ((context.root.join path).resolve host.directory).parts →
    ∀ complaint after, (context.writeJson path payload).exec host ≠ (.error (.complaint complaint), after)

/-- The parts of a context that was loaded. -/
theorem of_load (hload : (load settings).exec host = (.ok context, after)) :
    (moduleRoot settings.moduleRoot).exec host = (.ok context.root, host) ∧
      (evidenceRoot context.root settings.evidenceRoot).exec host = (.ok context.evidence, host) := by
  unfold load at hload
  obtain ⟨root, hroot, hload⟩ := (reads_moduleRoot _).exec_bind_eq_ok hload
  obtain ⟨runId, -, hload⟩ := (reads_runIdentifier _).exec_bind_eq_ok hload
  obtain ⟨evidence, hevidence, hload⟩ := (reads_evidenceRoot _ _).exec_bind_eq_ok hload
  obtain ⟨config, -, hload⟩ := (reads_loadConfig _).exec_bind_eq_ok hload
  obtain ⟨optIn, -, hload⟩ := (reads_loadOptIn _ _).exec_bind_eq_ok hload
  cases hload
  exact ⟨hroot, hevidence⟩

section Loaded

variable (hload : (load settings).exec host = (.ok context, after))
  (hnamed : nonEmpty? settings.evidenceRoot = none) (hempty : nonEmpty? (evidenceVariable? host) = none)
include hload hnamed hempty

theorem evidence_eq :
    context.evidence =
      if evidenceVariable? host = none then defaultDirectory context.root else context.root := by
  obtain ⟨hroot, hevidence⟩ := of_load hload
  have heq := hevidence.symm.trans (exec_evidenceRoot hroot hnamed hempty)
  exact Except.ok.inj (congrArg Prod.fst heq)

theorem hasNull_evidence : context.evidence.hasNull = false := by
  have hroot := (Volume.isDirectory_iff_leadsTo.mp (isDirectory_of_moduleRoot (of_load hload).1)).1
  rw [evidence_eq hload hnamed hempty]
  split
  · simp only [Path.hasNull] at hroot
    simp only [defaultDirectory, Path.child, Path.hasNull, List.any_append, hroot]
    decide
  · exact hroot

theorem keepsDefault_iff : context.KeepsDefault ↔ evidenceVariable? host = none := by
  have hevidence := evidence_eq hload hnamed hempty
  refine ⟨fun hkeeps => ?_, fun hunset => ?_⟩
  · by_contra hset
    rw [if_neg hset, hkeeps.directory] at hevidence
    have hlength := congrArg (fun path : Path => path.parts.length) hevidence
    simp [defaultDirectory, Path.child] at hlength
  · rw [if_pos hunset] at hevidence
    have hnormal := (gives_load _ _ _ _ hload).evidence
    have hnull := hasNull_evidence hload hnamed hempty
    rw [hevidence] at hnormal hnull
    refine ⟨hevidence, fun path payload host houtside => ?_⟩
    rw [← hevidence] at houtside hnormal hnull
    exact exec_writeJson_refusal payload hnormal hnull houtside

theorem refusesNoFile (hset : evidenceVariable? host ≠ none) :
    context.evidence = context.root ∧ context.RefusesNoFile := by
  have hevidence := evidence_eq hload hnamed hempty
  rw [if_neg hset] at hevidence
  refine ⟨hevidence, fun path payload later htree hdirectory hpath hinside complaint after' hend => ?_⟩
  obtain ⟨ending, volume, hexec, hends⟩ := exec_writeJson context path payload later htree hdirectory hpath
    (hasNull_evidence hload hnamed hempty)
  have hnormal := (gives_load _ _ _ _ hload).evidence
  cases hexec.symm.trans hend
  rw [hnormal.parts_resolve, hevidence] at hends
  exact hends.2.1 hinside

end Loaded

/-- A run that is told no directory for evidence fails only as its module or its configuration does.  It
has the default directory, and refuses all other files, exactly if the variable of the environment is not
set; if that is set and empty, the directory is the module, and no file of the module is refused. -/
theorem evidence_is_default_iff_unset (hnamed : nonEmpty? settings.evidenceRoot = none)
    (hempty : nonEmpty? (evidenceVariable? host) = none) :
    (∀ root, (moduleRoot settings.moduleRoot).exec host = (.ok root, host) →
      ∃ runId, (load settings).exec host =
        (do
          let config ← Config.load root
          let optIn ← OptIn.load root config
          return ⟨runId, root, if evidenceVariable? host = none then defaultDirectory root else root,
            settings.format, settings.verbose, settings.quiet, settings.logJson, config, optIn⟩ :
          Action RunContext).exec host) ∧
    ∀ context after, (load settings).exec host = (.ok context, after) →
      (context.KeepsDefault ↔ evidenceVariable? host = none) ∧
      (evidenceVariable? host ≠ none → context.evidence = context.root ∧ context.RefusesNoFile) :=
  ⟨fun _ hroot => exec_load hroot (exec_evidenceRoot hroot hnamed hempty),
    fun _ _ hload => ⟨keepsDefault_iff hload hnamed hempty, refusesNoFile hload hnamed hempty⟩⟩

/-- A module in the current directory, where the environment may name a directory for evidence. -/
def surroundedHost (named : Option String) : Host :=
  { Host.holding ⟨[(["m"], .directory)]⟩ ⟨.slash, ["m"]⟩ with
    environment := named.toList.map fun value => ("DSCMETA_EVIDENCE_ROOT", value) }

/-- Nothing is configured there, so a run has a context. -/
theorem exists_load_surroundedHost {named : Option String}
    (hempty : nonEmpty? (evidenceVariable? (surroundedHost named)) = none) :
    ∃ context, (load bareSettings).exec (surroundedHost named) = (.ok context, surroundedHost named) ∧
      context.root = ⟨.slash, ["m"]⟩ := by
  have hroot : (moduleRoot bareSettings.moduleRoot).exec (surroundedHost named) =
      (.ok ⟨.slash, ["m"]⟩, surroundedHost named) := by
    cases named <;> rfl
  obtain ⟨runId, hload⟩ := exec_load hroot (exec_evidenceRoot hroot rfl hempty)
  have hdirectory := isDirectory_of_moduleRoot hroot
  rw [exec_bind_ok (Config.exec_load hdirectory), exec_bind_ok (OptIn.exec_load hdirectory _)] at hload
  exact ⟨_, hload, rfl⟩

theorem evidence_is_default_iff_unset_bare :
    (nonEmpty? bareSettings.evidenceRoot = none ∧
      nonEmpty? (evidenceVariable? (surroundedHost none)) = none) ∧
    ∃ context, (load bareSettings).exec (surroundedHost none) = (.ok context, surroundedHost none) ∧
      context.KeepsDefault := by
  have hunset : evidenceVariable? (surroundedHost none) = none := rfl
  have hempty : nonEmpty? (evidenceVariable? (surroundedHost none)) = none := rfl
  have hnamed : nonEmpty? bareSettings.evidenceRoot = none := rfl
  obtain ⟨context, hload, -⟩ := exists_load_surroundedHost hempty
  obtain ⟨-, hloaded⟩ := evidence_is_default_iff_unset hnamed hempty
  exact ⟨⟨hnamed, hempty⟩, context, hload, (hloaded _ _ hload).1.mpr hunset⟩

/-- Where the variable is set and empty, a file of the module outside the default directory is written. -/
theorem empty_variable_names_module :
    (nonEmpty? bareSettings.evidenceRoot = none ∧
      nonEmpty? (evidenceVariable? (surroundedHost (some ""))) = none) ∧
    ∃ context,
      (load bareSettings).exec (surroundedHost (some "")) = (.ok context, surroundedHost (some "")) ∧
      context.evidence ≠ defaultDirectory context.root ∧
      ∃ after, (context.writeJson ⟨.relative, ["x.json"]⟩ .null).exec (surroundedHost (some "")) =
        (.ok ⟨.slash, ["m", "x.json"]⟩, after) := by
  have hempty : nonEmpty? (evidenceVariable? (surroundedHost (some ""))) = none := by decide
  have hset : evidenceVariable? (surroundedHost (some "")) ≠ none := by decide
  obtain ⟨context, hload, hroot⟩ := exists_load_surroundedHost hempty
  have hevidence := (refusesNoFile hload rfl hempty hset).1
  rw [hroot] at hevidence
  refine ⟨⟨rfl, hempty⟩, context, hload, ?_, ?_⟩
  · rw [hevidence, hroot]
    decide
  · obtain ⟨runId, root, evidence⟩ := context
    cases hroot
    cases hevidence
    exact ⟨_, rfl⟩

end RunContext

end DscAudit

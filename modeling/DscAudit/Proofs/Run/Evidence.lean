import DscAudit.Proofs.File.Directory
import DscAudit.Run.Context

/-!
# The files of the evidence

A value is written to one file at or below the directory for evidence, or not at all.  The only trace
that a failure can leave are directories made on the way to a file whose name is too long.
-/

namespace DscAudit

open Text (Octets)

/-! ## Paths without double points -/

namespace Path

theorem collapse_subset (parts : List String) : collapse parts ⊆ parts := by
  induction parts using List.reverseRecOn with
  | nil => simp [collapse]
  | append_singleton parts part ih =>
    by_cases hpart : part = ".."
    · have hlast : collapse (parts ++ [part]) = (collapse parts).dropLast := by
        simp [collapse, hpart]
      rw [hlast]
      intro x hx
      exact List.mem_append_left _ (ih (List.dropLast_subset _ hx))
    · rw [collapse_append_part hpart]
      intro x hx
      rcases List.mem_append.mp hx with hmem | hmem
      · exact List.mem_append_left _ (ih hmem)
      · exact List.mem_append_right _ hmem

theorem hasNull_resolve {path directory : Path} (hpath : path.hasNull = false)
    (hdirectory : directory.hasNull = false) : (path.resolve directory).hasNull = false := by
  simp only [hasNull, List.any_eq_false] at hpath hdirectory ⊢
  intro part hpart
  have hmem := collapse_subset _ hpart
  simp only [join] at hmem
  split at hmem
  · exact hpath part hmem
  · rcases List.mem_append.mp hmem with hmem | hmem
    · exact hdirectory part hmem
    · exact hpath part hmem

end Path

/-! ## One file -/

namespace Volume

variable {target : Place} {content : Octets} {before after : Volume}

/-- The second volume has a content in the file at a place and directories on the way to it; all else
is as on the first one. -/
def WritesFile (target : Place) (content : Octets) (before after : Volume) : Prop :=
  ∀ place, after.find? place =
    if place = target then some (.file content)
    else if place <+: target ∧ before.find? place = none then some .directory
    else before.find? place

theorem GrowsTowards.find?_target (hgrows : before.GrowsTowards target.dropLast after) :
    after.find? target = before.find? target := by
  rcases hgrows target with hsame | ⟨hstarts, hnone, -⟩
  · exact hsame
  · have hlength := hstarts.length_le
    have hpos := List.length_pos_iff.mpr (ne_nil_of_find?_eq_none hnone)
    simp only [List.length_dropLast] at hlength
    omega

/-- Nothing grows towards what is there. -/
theorem GrowsTowards.find?_eq (hgrows : before.GrowsTowards target after) (htree : before.IsTree)
    (htarget : (before.find? target).isSome) (place : Place) :
    after.find? place = before.find? place := by
  rcases hgrows place with hsame | ⟨hstarts, hnone, -⟩
  · exact hsame
  · by_cases heq : place = target
    · rw [← heq, hnone] at htarget
      cases htarget
    · rw [htree.find?_of_prefix htarget hstarts heq] at hnone
      cases hnone

theorem writesFile_put {path : Path} (hgrows : before.GrowsTowards path.parent.parts after)
    (hleads : after.LeadsToDirectory path.parent) (hplace : path.parts ≠ []) :
    before.WritesFile path.parts content (after.put path.parts (.file content)) := by
  intro place
  by_cases heq : place = path.parts
  · rw [if_pos heq, heq, find?_put_self hplace]
  rw [if_neg heq, find?_put_of_ne heq]
  by_cases hmissing : place <+: path.parts ∧ before.find? place = none
  · rw [if_pos hmissing]
    exact hleads.find?_of_prefix (prefix_dropLast_of_ne hmissing.1 heq)
  · rw [if_neg hmissing]
    rcases hgrows place with hsame | ⟨hstarts, hnone, -⟩
    · exact hsame
    · exact absurd ⟨hstarts.trans (List.dropLast_prefix _), hnone⟩ hmissing

end Volume

namespace RunContext

open DscAudit.Action

theorem exec_makeDirectory {path : Path} (hpath : path.hasNull = false) :
    makeDirectory path = makeDirectories (path.parts.length + 1) path := by
  unfold makeDirectory
  simp only [hpath, Bool.false_eq_true, if_false]

/-- What is written of a value. -/
def octetsOf (payload : Value) : Octets :=
  Text.Utf8.encode (Json.write .indented payload ++ "\n").toList

variable {context : RunContext} {path : Path} {host : Host}

/-- A path outside the directory for evidence is refused, and nothing happens. -/
theorem exec_writeJson_outside (payload : Value)
    (hpath : (context.root.join path).hasNull = false) (hevidence : context.evidence.hasNull = false)
    (houtside : ¬ (context.evidence.resolve host.directory).parts <+:
      ((context.root.join path).resolve host.directory).parts) :
    (context.writeJson path payload).exec host =
      (.error (.complaint ⟨"forbidden write path outside evidence root: " ++
        ((context.root.join path).resolve host.directory).toString, .validation,
        "forbidden_write_path"⟩), host) := by
  unfold writeJson evidencePath
  rw [← Path.isWithin_resolve_iff, Bool.not_eq_true] at houtside
  apply exec_bind_error
  rw [exec_bind_ok (exec_resolve hpath host), exec_bind_ok (exec_resolve hevidence host)]
  simp only [houtside, Bool.false_eq_true, if_false]
  rfl

/-- Writing a file whose directory was just made succeeds, or shows what is in the way. -/
theorem writeFile_cases {target : Path} (hnormal : target.IsNormal) (hnull : target.hasNull = false)
    (htree : host.volume.IsTree) {volume : Volume}
    (hgrows : host.volume.GrowsTowards target.parts.dropLast volume)
    (hleads : volume.LeadsToDirectory target.parent) (content : Octets) :
    ∃ ending volume',
      (writeFile target content).exec { host with volume := volume } =
        (ending, { host with volume := volume' }) ∧
      (ending = .ok () ∧ host.volume.WritesFile target.parts content volume' ∧
        ¬ Place.HasLongName target.parts ∨
       ∃ error shown, ending = .error (.defect (.file error shown)) ∧ volume' = volume ∧
        ((∀ place, volume.find? place = host.volume.find? place) ∧
            host.volume.find? target.parts = some .directory ∨
          Place.HasLongName target.parts)) := by
  have hpassed : ∀ passed, passed <+: target.parts → passed ≠ target.parts →
      volume.find? passed = some .directory := fun passed hpassed hne =>
    hleads.find?_of_prefix (Volume.prefix_dropLast_of_ne hpassed hne)
  rw [exec_writeFile, hnull, if_neg Bool.false_ne_true, Volume.locate_of_isNormal hnormal]
  rcases Volume.walk_cases volume [] hnormal.noDoublePoint with ⟨hwalk, hwalkable⟩ |
      ⟨-, passed, hstarts, hne, hnone⟩ | ⟨-, passed, content, hstarts, hne, hfile⟩ |
      ⟨hwalk, hlong⟩
  · simp only [hwalk, List.nil_append]
    by_cases hfound : volume.find? target.parts = some .directory
    · -- the target is a directory, and then nothing was missing on the way to it
      rw [if_pos hfound]
      have hbefore : host.volume.find? target.parts = some .directory := by
        rw [← hfound, hgrows.find?_target]
      refine ⟨_, volume, rfl, .inr ⟨.isDirectory, _, rfl, rfl, .inl ⟨?_, hbefore⟩⟩⟩
      exact (hgrows.mono (List.dropLast_prefix _)).find?_eq htree (by rw [hbefore]; rfl)
    · rw [if_neg hfound]
      refine ⟨_, _, rfl, .inl ⟨rfl, Volume.writesFile_put hgrows hleads fun hnil => ?_, ?_⟩⟩
      · exact hfound (by rw [hnil, Volume.find?_nil])
      · rintro ⟨part, hpart, hlong⟩
        rw [hwalkable.short part hpart] at hlong
        cases hlong
  · rw [List.nil_append, hpassed passed hstarts hne] at hnone
    cases hnone
  · rw [List.nil_append, hpassed passed hstarts hne] at hfile
    cases hfile
  · simp only [hwalk]
    exact ⟨_, volume, rfl, .inr ⟨.nameTooLong, _, rfl, rfl, .inr hlong⟩⟩

/-- How writing a value to a target may end, and what it makes of the volume.  The file is written at or
below the directory for evidence; or the target lies elsewhere, which is refused, and nothing changes;
or the target lies there and cannot be written: nothing changes if there is a directory in its place or
a file on the way to it, and no more than directories before it are made if a name is too long. -/
def WriteEnds (evidence : Place) (target : Path) (payload : Value) (before after : Volume) :
    Except Failure Path → Prop
  | .ok written =>
    written = target ∧ evidence <+: target.parts ∧
      before.WritesFile target.parts (octetsOf payload) after
  | .error (.complaint complaint) =>
    complaint.code = .validation ∧ ¬ evidence <+: target.parts ∧ after = before
  | .error (.defect defect) =>
    (∃ error shown, defect = .file error shown) ∧ evidence <+: target.parts ∧
      ((∀ place, after.find? place = before.find? place) ∧
          (before.find? target.parts = some .directory ∨ before.IsBlocked target.parts.dropLast) ∨
        before.GrowsTowards target.parts.dropLast after ∧ Place.HasLongName target.parts)

/-- Inside the directory for evidence the directories before the target are made, and then the file is
written. -/
theorem exec_writeJson_eq (payload : Value) (hpath : (context.root.join path).hasNull = false)
    (hevidence : context.evidence.hasNull = false) {target : Path}
    (htarget : (context.root.join path).resolve host.directory = target)
    (hinside : (context.evidence.resolve host.directory).parts <+: target.parts)
    (hnull : target.hasNull = false) :
    (context.writeJson path payload).exec host =
      (makeDirectories (target.parent.parts.length + 1) target.parent >>= fun _ =>
        writeFile target (octetsOf payload) >>= fun _ => pure target).exec host := by
  have hwithin : target.isWithin (context.evidence.resolve host.directory) = true := by
    rw [← htarget, Path.isWithin_resolve_iff, htarget]
    exact hinside
  unfold writeJson evidencePath
  simp only [bind_assoc]
  rw [exec_bind_ok (exec_resolve hpath host), exec_bind_ok (exec_resolve hevidence host), htarget]
  simp only [hwithin, if_true, exec_makeDirectory (Path.hasNull_parent hnull), bind_assoc, pure_bind]
  rfl

/-- How writing a value inside the directory for evidence ends. -/
theorem exec_writeJson_inside (payload : Value) (htree : host.volume.IsTree)
    (hdirectory : host.directory.hasNull = false)
    (hpath : (context.root.join path).hasNull = false) (hevidence : context.evidence.hasNull = false)
    {target : Path} (htarget : (context.root.join path).resolve host.directory = target)
    (hinside : (context.evidence.resolve host.directory).parts <+: target.parts) :
    ∃ ending volume,
      (context.writeJson path payload).exec host = (ending, { host with volume := volume }) ∧
      WriteEnds (context.evidence.resolve host.directory).parts target payload host.volume volume
        ending := by
  have hnormal : target.IsNormal := htarget ▸ Path.isNormal_resolve _ _
  have hnull : target.hasNull = false := htarget ▸ Path.hasNull_resolve hpath hdirectory
  rw [exec_writeJson_eq payload hpath hevidence htarget hinside hnull]
  obtain ⟨ending, volume, hparent, hgrows, ⟨rfl, hleads⟩ | ⟨error, shown, rfl, hwhy⟩⟩ :=
    makeDirectories_cases hnormal.parent (Path.hasNull_parent hnull) (Nat.lt_succ_self _) htree
  · rw [exec_bind_ok hparent]
    obtain ⟨ending, volume', hwrite, ⟨rfl, hwrites, -⟩ | ⟨error, shown, rfl, rfl, hwhy⟩⟩ :=
      writeFile_cases hnormal hnull htree hgrows hleads (octetsOf payload)
    · exact ⟨.ok target, volume', exec_bind_ok hwrite _, rfl, hinside, hwrites⟩
    · refine ⟨_, volume', exec_bind_error hwrite _, ⟨error, shown, rfl⟩, hinside, ?_⟩
      exact hwhy.imp (fun hsame => ⟨hsame.1, .inl hsame.2⟩) fun hlong => ⟨hgrows, hlong⟩
  · refine ⟨_, volume, exec_bind_error hparent _, ⟨error, shown, rfl⟩, hinside, hwhy.imp ?_ ?_⟩
    · rintro ⟨rfl, hblocked⟩
      exact ⟨fun _ => rfl, .inr hblocked⟩
    · rintro ⟨part, hpart, hlong⟩
      exact ⟨hgrows, part, List.dropLast_subset _ hpart, hlong⟩

/-- A name that is too long shows only after all directories before it were made. -/
theorem exec_writeJson_long_name (payload : Value) (htree : host.volume.IsTree)
    (hdirectory : host.directory.hasNull = false)
    (hpath : (context.root.join path).hasNull = false) (hevidence : context.evidence.hasNull = false)
    {target : Path} (htarget : (context.root.join path).resolve host.directory = target)
    (hinside : (context.evidence.resolve host.directory).parts <+: target.parts)
    (hlong : Place.HasLongName target.parts) (hshort : ¬ Place.HasLongName target.parts.dropLast)
    (hfree : ¬ host.volume.IsBlocked target.parts.dropLast) :
    ∃ error shown volume,
      (context.writeJson path payload).exec host =
        (.error (.defect (.file error shown)), { host with volume := volume }) ∧
      ∀ place, place <+: target.parts.dropLast → volume.find? place = some .directory := by
  have hnormal : target.IsNormal := htarget ▸ Path.isNormal_resolve _ _
  have hnull : target.hasNull = false := htarget ▸ Path.hasNull_resolve hpath hdirectory
  obtain ⟨ending, volume, hparent, hgrows, ⟨rfl, hleads⟩ | ⟨_, _, -, hwhy⟩⟩ :=
    makeDirectories_cases hnormal.parent (Path.hasNull_parent hnull) (Nat.lt_succ_self _) htree
  · obtain ⟨ending, volume', hwrite, ⟨-, -, hnot⟩ | ⟨error, shown, rfl, rfl, -⟩⟩ :=
      writeFile_cases hnormal hnull htree hgrows hleads (octetsOf payload)
    · exact absurd hlong hnot
    · refine ⟨error, shown, volume', ?_, fun place hplace => hleads.find?_of_prefix hplace⟩
      rw [exec_writeJson_eq payload hpath hevidence htarget hinside hnull, exec_bind_ok hparent,
        exec_bind_error hwrite]
  · rcases hwhy with ⟨-, hblocked⟩ | hlong'
    · exact absurd hblocked hfree
    · exact absurd hlong' hshort

/-- Writing a value ends in one of these ways, on a volume that is a tree. -/
theorem exec_writeJson (context : RunContext) (path : Path) (payload : Value) (host : Host)
    (htree : host.volume.IsTree) (hdirectory : host.directory.hasNull = false)
    (hpath : (context.root.join path).hasNull = false)
    (hevidence : context.evidence.hasNull = false) :
    ∃ ending volume,
      (context.writeJson path payload).exec host = (ending, { host with volume := volume }) ∧
      WriteEnds (context.evidence.resolve host.directory).parts
        ((context.root.join path).resolve host.directory) payload host.volume volume ending := by
  by_cases hinside : (context.evidence.resolve host.directory).parts <+:
      ((context.root.join path).resolve host.directory).parts
  · exact exec_writeJson_inside payload htree hdirectory hpath hevidence rfl hinside
  · exact ⟨_, host.volume, exec_writeJson_outside payload hpath hevidence hinside, rfl, hinside, rfl⟩

end RunContext

end DscAudit

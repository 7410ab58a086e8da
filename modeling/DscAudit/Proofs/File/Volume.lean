import DscAudit.File.Volume
import Mathlib.Data.List.Induction
import Mathlib.Data.List.Nodup

/-!
# Places on a volume

What stands at a place after something was put there, and where a walk along a path ends.  A path
without double points is its own place, and the walk along it fails only where a directory is missing,
where a file stands in the way, or at a name that is too long.
-/

namespace DscAudit

open Text (Octets)

namespace Path

/-- The path is absolute and has no double points. -/
structure IsNormal (path : Path) : Prop where
  absolute : path.isAbsolute = true
  noDoublePoint : ".." ∉ path.parts

namespace IsNormal

variable {path : Path}

theorem join (hpath : path.IsNormal) (directory : Path) : directory.join path = path := by
  simp only [Path.join, hpath.absolute, if_true]

theorem parent (hpath : path.IsNormal) : path.parent.IsNormal where
  absolute := hpath.absolute
  noDoublePoint hmem := hpath.noDoublePoint (List.dropLast_subset _ hmem)

theorem child (hpath : path.IsNormal) {name : String} (hname : name ≠ "..") :
    (path.child name).IsNormal where
  absolute := hpath.absolute
  noDoublePoint := by
    simp only [Path.child, List.mem_append, List.mem_singleton, not_or]
    exact ⟨hpath.noDoublePoint, hname.symm⟩

end IsNormal

theorem doublePoint_not_mem_collapse (parts : List String) : ".." ∉ collapse parts := by
  induction parts using List.reverseRecOn with
  | nil => simp [collapse]
  | append_singleton parts part ih =>
    by_cases hpart : part = ".."
    · have hlast : collapse (parts ++ [part]) = (collapse parts).dropLast := by
        simp [collapse, hpart]
      rw [hlast]
      exact fun hmem => ih (List.dropLast_subset _ hmem)
    · rw [collapse_append_part hpart]
      simp only [List.mem_append, List.mem_singleton, not_or]
      exact ⟨ih, fun heq => hpart heq.symm⟩

theorem collapse_eq_self {parts : List String} (hparts : ".." ∉ parts) : collapse parts = parts := by
  induction parts using List.reverseRecOn with
  | nil => rfl
  | append_singleton parts part ih =>
    simp only [List.mem_append, List.mem_singleton, not_or] at hparts
    rw [collapse_append_part fun heq => hparts.2 heq.symm, ih hparts.1]

/-- The path of a normal path is itself, from wherever it is followed. -/
theorem IsNormal.parts_resolve {path : Path} (hpath : path.IsNormal) (directory : Path) :
    (path.resolve directory).parts = path.parts := by
  simp only [resolve, hpath.join, collapse_eq_self hpath.noDoublePoint]

theorem isNormal_resolve (path directory : Path) : (path.resolve directory).IsNormal where
  absolute := rfl
  noDoublePoint := doublePoint_not_mem_collapse _

/-- What is behind an absolute path is relative to it. -/
theorem relativeTo?_resolve {path base directory directory' : Path} {parts : List String}
    (hparts : (path.resolve directory).parts = (base.resolve directory').parts ++ parts) :
    (path.resolve directory).relativeTo? (base.resolve directory') = some ⟨.relative, parts⟩ := by
  have hcomponents : (path.resolve directory).components =
      (base.resolve directory').components ++ parts := congrArg (PathRoot.slash.text :: ·) hparts
  rw [relativeTo?, hcomponents, if_pos (List.isPrefixOf_iff_prefix.mpr (List.prefix_append _ _)),
    List.drop_left]

/-- Containment of one path with no double points in another compares their parts one by one. -/
theorem isWithin_resolve_iff (a b directory directory' : Path) :
    (a.resolve directory).isWithin (b.resolve directory') = true ↔
      (b.resolve directory').parts <+: (a.resolve directory).parts := by
  simp only [isWithin, components, resolve, List.isPrefixOf_iff_prefix, List.prefix_cons_inj]

end Path

namespace Volume

variable {volume : Volume} {place other : Place} {node : Node}

/-! ## What is at a place -/

theorem find?_nil (volume : Volume) : volume.find? [] = some .directory := rfl

theorem find?_putIn_self (place : Place) (node : Node) (entries : List (Place × Node)) :
    (putIn place node entries).find? (fun entry => entry.1 == place) = some (place, node) := by
  induction entries with
  | nil => simp [putIn]
  | cons entry entries ih =>
    simp only [putIn]
    split
    · simp
    · rename_i hentry
      rw [List.find?_cons_of_neg (by simpa using hentry)]
      exact ih

theorem find?_putIn_of_ne (hother : other ≠ place) (node : Node) (entries : List (Place × Node)) :
    (putIn place node entries).find? (fun entry => entry.1 == other) =
      entries.find? (fun entry => entry.1 == other) := by
  have hne : ¬ (place == other) = true := by simpa using hother.symm
  induction entries with
  | nil =>
    simp only [putIn]
    exact List.find?_cons_of_neg hne
  | cons entry entries ih =>
    simp only [putIn]
    split
    · rename_i hentry
      rw [List.find?_cons_of_neg (by exact hne), List.find?_cons_of_neg (by rw [hentry]; exact hne)]
    · simp only [List.find?_cons, ih]

theorem find?_put_self (hplace : place ≠ []) : (volume.put place node).find? place = some node := by
  simp only [find?, put, List.isEmpty_iff, hplace, if_false, find?_putIn_self, Option.map_some]

theorem find?_put_of_ne (hother : other ≠ place) :
    (volume.put place node).find? other = volume.find? other := by
  simp only [find?, put, find?_putIn_of_ne hother]

/-- Whatever is on the volume lies in a directory. -/
def IsTree (volume : Volume) : Prop :=
  ∀ place, (volume.find? place).isSome → volume.find? place.dropLast = some .directory

theorem prefix_dropLast_of_ne {passed parts : List String} (hpassed : passed <+: parts)
    (hne : passed ≠ parts) : passed <+: parts.dropLast := by
  obtain ⟨rest, rfl⟩ := hpassed
  have hrest : rest ≠ [] := by
    rintro rfl
    exact hne (List.append_nil passed).symm
  rw [List.dropLast_append_of_ne_nil hrest]
  exact List.prefix_append _ _

/-- All that something lies in are directories. -/
theorem IsTree.find?_of_prefix (htree : volume.IsTree) (hplace : (volume.find? place).isSome)
    (hother : other <+: place) (hne : other ≠ place) : volume.find? other = some .directory := by
  induction place using List.reverseRecOn with
  | nil => exact absurd (List.prefix_nil.mp hother) hne
  | append_singleton place part ih =>
    have hparent : volume.find? place = some .directory := by
      simpa using htree (place ++ [part]) hplace
    have hstarts : other <+: place := by simpa using prefix_dropLast_of_ne hother hne
    by_cases heq : other = place
    · rw [heq, hparent]
    · exact ih (by simp [hparent]) hstarts heq

/-- It is enough to look at what was put on the volume. -/
theorem isTree_of_entries
    (hentries : ∀ entry ∈ volume.entries, volume.find? entry.1.dropLast = some .directory) :
    volume.IsTree := by
  intro place hplace
  by_cases hnil : place = []
  · rw [hnil]
    exact find?_nil volume
  simp only [find?, List.isEmpty_iff, hnil, if_false, Option.isSome_map] at hplace
  obtain ⟨entry, hentry⟩ := Option.isSome_iff_exists.mp hplace
  have hname : entry.1 = place := by simpa using List.find?_some hentry
  rw [← hname]
  exact hentries entry (List.mem_of_find?_eq_some hentry)

/-- A volume as a file system has it: each place has one entry and lies in a directory, and every name
is one that a file can have. -/
structure IsProper (volume : Volume) : Prop where
  distinct : (volume.entries.map (·.1)).Nodup
  tree : volume.IsTree
  names : ∀ entry ∈ volume.entries, ∀ part ∈ entry.1, part ≠ ".." ∧ isTooLong part = false

/-- Whatever is at a place other than the root was put there. -/
theorem mem_of_find?_eq_some (hplace : place ≠ []) (hfind : volume.find? place = some node) :
    (place, node) ∈ volume.entries := by
  simp only [find?, List.isEmpty_iff, hplace, if_false, Option.map_eq_some_iff] at hfind
  obtain ⟨⟨found, node⟩, hfound, rfl⟩ := hfind
  obtain rfl : found = place := by simpa using List.find?_some hfound
  exact List.mem_of_find?_eq_some hfound

theorem mem_iff_find?_eq_some (hdistinct : (volume.entries.map (·.1)).Nodup) (hplace : place ≠ []) :
    (place, node) ∈ volume.entries ↔ volume.find? place = some node := by
  refine ⟨fun hmem => ?_, mem_of_find?_eq_some hplace⟩
  simp only [find?, List.isEmpty_iff, hplace, if_false]
  -- the first entry for the place is the only one
  rcases hfound : volume.entries.find? (fun entry => entry.1 == place) with - | ⟨found, other⟩
  · have hnone := List.find?_eq_none.mp hfound _ hmem
    simp at hnone
  · obtain rfl : found = place := by simpa using List.find?_some hfound
    have heq := List.inj_on_of_nodup_map hdistinct hmem (List.mem_of_find?_eq_some hfound) rfl
    rw [hfound, (Prod.mk.inj heq).2]
    rfl

/-! ## Walks -/

/-- A walk goes on where its first part ends. -/
theorem walk_append (volume : Volume) (place : Place) (first second : List String) :
    volume.walk place (first ++ second) =
      match volume.walk place first with
      | .ok between => volume.walk between second
      | .error error => .error error := by
  induction first generalizing place with
  | nil => rfl
  | cons part first ih =>
    rw [List.cons_append, walk, walk]
    rcases volume.find? place with - | - | content
    · rfl
    · dsimp only
      split
      · exact ih _
      · split
        · rfl
        · exact ih _
    · rfl

/-- Every place that a walk passes is a directory, and no name is too long. -/
structure IsWalkable (volume : Volume) (place : Place) (parts : List String) : Prop where
  directories : ∀ passed, passed <+: parts → passed ≠ parts →
    volume.find? (place ++ passed) = some .directory
  short : ∀ part ∈ parts, isTooLong part = false

/-- How a walk along parts without double points ends. -/
theorem walk_cases (volume : Volume) (place : Place) {parts : List String} (hparts : ".." ∉ parts) :
    (volume.walk place parts = .ok (place ++ parts) ∧ volume.IsWalkable place parts) ∨
    (volume.walk place parts = .error .notFound ∧
      ∃ passed, passed <+: parts ∧ passed ≠ parts ∧ volume.find? (place ++ passed) = none) ∨
    (volume.walk place parts = .error .notDirectory ∧
      ∃ passed content, passed <+: parts ∧ passed ≠ parts ∧
        volume.find? (place ++ passed) = some (.file content)) ∨
    (volume.walk place parts = .error .nameTooLong ∧ ∃ part ∈ parts, isTooLong part = true) := by
  induction parts generalizing place with
  | nil =>
    left
    refine ⟨by simp [walk], ⟨fun passed hpassed hne => ?_, by simp⟩⟩
    exact absurd (List.prefix_nil.mp hpassed) hne
  | cons part parts ih =>
    simp only [List.mem_cons, not_or] at hparts
    have hpart : ¬ part = ".." := fun heq => hparts.1 heq.symm
    rw [walk]
    rcases hfind : volume.find? place with - | node
    · refine .inr (.inl ⟨rfl, [], by simp, by simp, by simpa using hfind⟩)
    cases node with
    | file content => exact .inr (.inr (.inl ⟨rfl, [], content, by simp, by simp, by simpa using hfind⟩))
    | directory =>
      simp only [if_neg hpart]
      by_cases hlong : isTooLong part = true
      · exact .inr (.inr (.inr ⟨by simp [hlong], part, by simp, hlong⟩))
      · simp only [hlong, Bool.false_eq_true, if_false]
        have hcons : ∀ passed, place ++ [part] ++ passed = place ++ part :: passed := by simp
        rcases ih (place ++ [part]) hparts.2 with ⟨hwalk, hdirectories, hshort⟩ |
            ⟨hwalk, passed, hpassed, hne, hnone⟩ | ⟨hwalk, passed, content, hpassed, hne, hfile⟩ |
            ⟨hwalk, long, hlong, htoo⟩
        · left
          refine ⟨by rw [hwalk, hcons], fun passed hpassed hne => ?_, ?_⟩
          · rcases List.prefix_cons_iff.mp hpassed with rfl | ⟨rest, rfl, hrest⟩
            · simpa using hfind
            · rw [← hcons]
              exact hdirectories rest hrest fun heq => hne (by rw [heq])
          · simpa [hlong] using hshort
        · refine .inr (.inl ⟨hwalk, part :: passed, ?_, by simpa using hne, by rw [← hcons, hnone]⟩)
          exact List.prefix_cons_iff.mpr (.inr ⟨passed, rfl, hpassed⟩)
        · refine .inr (.inr (.inl ⟨hwalk, part :: passed, content, ?_, by simpa using hne,
            by rw [← hcons, hfile]⟩))
          exact List.prefix_cons_iff.mpr (.inr ⟨passed, rfl, hpassed⟩)
        · exact .inr (.inr (.inr ⟨hwalk, long, by simp [hlong], htoo⟩))

theorem eq_of_walk_eq_ok {found : Place} {parts : List String} (hparts : ".." ∉ parts)
    (hwalk : volume.walk place parts = .ok found) :
    found = place ++ parts ∧ volume.IsWalkable place parts := by
  rcases walk_cases volume place hparts with ⟨h, hwalkable⟩ | ⟨h, -⟩ | ⟨h, -⟩ | ⟨h, -⟩
  · rw [h] at hwalk
    exact ⟨(Except.ok.inj hwalk).symm, hwalkable⟩
  all_goals
    rw [h] at hwalk
    cases hwalk

theorem walk_eq_ok {parts : List String} (hparts : ".." ∉ parts)
    (hwalkable : volume.IsWalkable place parts) : volume.walk place parts = .ok (place ++ parts) := by
  rcases walk_cases volume place hparts with ⟨h, -⟩ | ⟨h, passed, hpassed, hne, hnone⟩ |
      ⟨h, passed, content, hpassed, hne, hfile⟩ | ⟨h, part, hmem, hlong⟩
  · exact h
  · rw [hwalkable.directories passed hpassed hne] at hnone
    cases hnone
  · rw [hwalkable.directories passed hpassed hne] at hfile
    cases hfile
  · rw [hwalkable.short part hmem] at hlong
    cases hlong

/-- A relative path is followed from where the path before it leads. -/
theorem locate_join (volume : Volume) (directory path : Path) {rest : Path}
    (hrest : rest.root = .relative) :
    volume.locate directory (path.join rest) =
      match volume.locate directory path with
      | .ok place => volume.walk place rest.parts
      | .error error => .error error := by
  have hparts : (directory.join (path.join rest)).parts =
      (directory.join path).parts ++ rest.parts := by
    simp only [Path.join, Path.isAbsolute, hrest]
    by_cases hroot : path.root = .relative
    · simp [hroot]
    · simp [hroot]
  rw [locate, hparts, walk_append]
  rfl

theorem locate_child (volume : Volume) (directory path : Path) (name : String) :
    volume.locate directory (path.child name) =
      match volume.locate directory path with
      | .ok place => volume.walk place [name]
      | .error error => .error error := by
  have hname : (⟨.relative, [name]⟩ : Path).root = .relative := rfl
  exact locate_join volume directory path hname

/-- The path leads to the place, where a directory is. -/
structure LeadsTo (volume : Volume) (directory path : Path) (place : Place) : Prop where
  locate : volume.locate directory path = .ok place
  find : volume.find? place = some .directory

theorem LeadsTo.lookup {directory path : Path} (hleads : volume.LeadsTo directory path place) :
    volume.lookup directory path = .ok (place, .directory) := by
  unfold Volume.lookup
  simp [hleads.locate, hleads.find, bind, Except.bind, pure, Except.pure]

theorem isDirectory_iff_leadsTo {directory path : Path} :
    volume.isDirectory directory path = true ↔
      path.hasNull = false ∧ ∃ place, volume.LeadsTo directory path place := by
  have hleads : (∃ place, volume.LeadsTo directory path place) ↔
      ∃ place, volume.locate directory path = .ok place ∧ volume.find? place = some .directory :=
    exists_congr fun place => ⟨fun h => ⟨h.locate, h.find⟩, fun h => ⟨h.1, h.2⟩⟩
  rw [hleads]
  unfold isDirectory lookup
  rcases volume.locate directory path with error | place
  · simp [bind, Except.bind]
  · rcases hfind : volume.find? place with - | - | content
    all_goals
      simp [bind, Except.bind, hfind, throw, throwThe, MonadExceptOf.throw, pure, Except.pure]

/-- A directory leads on to any name that a file can have. -/
theorem not_refuses_child {directory path : Path} (hpath : volume.isDirectory directory path = true)
    {name : String} (hshort : isTooLong name = false) :
    volume.refuses directory (path.child name) = false := by
  obtain ⟨-, place, hlocate, hfind⟩ := isDirectory_iff_leadsTo.mp hpath
  unfold refuses
  rw [locate_child, hlocate]
  by_cases hname : name = ".."
  · simp [walk, hfind, hname]
  · simp [walk, hfind, hname, hshort]

/-- Whatever is on a proper volume can be walked to. -/
theorem IsProper.walk_eq_ok (hproper : volume.IsProper) {parts : List String}
    (hfind : volume.find? (place ++ parts) = some node) (hparts : parts ≠ []) :
    volume.walk place parts = .ok (place ++ parts) := by
  have hne : place ++ parts ≠ [] := by simp [hparts]
  have hnames := hproper.names _ (mem_of_find?_eq_some hne hfind)
  have hsome : (volume.find? (place ++ parts)).isSome := by simp [hfind]
  apply Volume.walk_eq_ok
  · intro hmem
    exact (hnames ".." (List.mem_append_right _ hmem)).1 rfl
  · constructor
    · intro passed hpassed hother
      apply hproper.tree.find?_of_prefix hsome
      · exact (List.prefix_append_right_inj place).mpr hpassed
      · simpa using hother
    · intro part hmem
      exact (hnames part (List.mem_append_right _ hmem)).2

theorem locate_of_isNormal {path : Path} (hpath : path.IsNormal) (directory : Path) :
    volume.locate directory path = volume.walk [] path.parts := by
  rw [locate, hpath.join]

/-- A path without double points leads to its own parts. -/
theorem eq_parts_of_locate {path directory : Path} (hpath : path.IsNormal) {found : Place}
    (hlocate : volume.locate directory path = .ok found) : found = path.parts := by
  rw [locate_of_isNormal hpath] at hlocate
  exact (eq_of_walk_eq_ok hpath.noDoublePoint hlocate).1

end Volume

end DscAudit

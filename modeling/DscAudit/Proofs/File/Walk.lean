import DscAudit.Proofs.File.Directory
import DscAudit.Proofs.File.Path

/-!
# The files that a walk yields

A walk yields each file in scope once, in the order of the texts of the paths.  A file is in scope if no
directory on the way to it is excluded; its own name does not matter, nor do names that an excluded one is
only a part of.  Names are such as a path can have, so different files have different texts and no two
files share a place in the order.
-/

namespace DscAudit

open DscAudit.Action
open Text (lowerString)

namespace Path

/-- Paths whose parts can be read are told apart by their texts. -/
theorem eq_of_toString_eq {path other : Path} (hpath : ∀ part ∈ path.parts, IsPart part)
    (hother : ∀ part ∈ other.parts, IsPart part) (htext : path.toString = other.toString) :
    path = other := by
  rw [← ofString_toString hpath, htext, ofString_toString hother]

end Path

namespace Volume

variable {volume : Volume}

/-- Every name on the volume can be a part of a path. -/
def HasPlainNames (volume : Volume) : Prop :=
  ∀ entry ∈ volume.entries, ∀ part ∈ entry.1, Path.IsPart part

/-- Nothing stands twice below a place. -/
theorem IsProper.nodup_below (hvolume : volume.IsProper) (place : Place) :
    ((volume.below place).map (·.1)).Nodup := by
  have hentries : volume.entries.Pairwise fun entry other => entry.1 ≠ other.1 :=
    List.pairwise_map.mp hvolume.distinct
  unfold below
  refine List.pairwise_map.mpr (List.pairwise_filterMap.mpr (hentries.imp ?_))
  intro entry other hne found hfound found' hfound' hsame
  simp only [Option.ite_none_right_eq_some, Bool.and_eq_true, List.isPrefixOf_iff_prefix,
    Option.some.injEq] at hfound hfound'
  obtain ⟨⟨⟨rest, hrest⟩, -⟩, rfl⟩ := hfound
  obtain ⟨⟨⟨rest', hrest'⟩, -⟩, rfl⟩ := hfound'
  rw [← hrest, ← hrest', List.drop_left, List.drop_left] at hsame
  change rest = rest' at hsame
  exact hne (by rw [← hrest, ← hrest', hsame])

end Volume

namespace File

variable {host : Host} {volume : Volume} {root : Path} {place : Place} {excluded : List String}
  {file : Path} {files : List Path}

/-- The file is below the place, and no directory on the way to it is excluded. -/
def IsInScope (volume : Volume) (place : Place) (excluded : List String) (file : Path) : Prop :=
  ∃ directories name content, file = ⟨.relative, directories ++ [name]⟩ ∧
    volume.find? (place ++ directories ++ [name]) = some (.file content) ∧
    ∀ directory ∈ directories, directory ∉ excluded

theorem isExcluded_eq_false_iff {directories : List String} {name : String} :
    Path.isExcluded excluded ⟨.relative, directories ++ [name]⟩ = false ↔
      ∀ directory ∈ directories, directory ∉ excluded := by
  simp only [Path.isExcluded, Path.components, List.dropLast_concat, List.any_eq_false,
    List.contains_iff_mem]

theorem isBelow_iff_isInScope :
    IsBelow volume place excluded file ↔ IsInScope volume place excluded file := by
  constructor
  · rintro ⟨hrelative, hparts, ⟨content, hfound⟩, hincluded⟩
    obtain ⟨pathRoot, parts⟩ := file
    cases hrelative
    -- what comes before the last part are the directories
    obtain ⟨directories, name, rfl⟩ := (List.eq_nil_or_concat' parts).resolve_left hparts
    exact ⟨directories, name, content, rfl, by rwa [List.append_assoc],
      isExcluded_eq_false_iff.mp hincluded⟩
  · rintro ⟨directories, name, content, rfl, hfound, hincluded⟩
    exact ⟨rfl, by simp, ⟨content, by rwa [← List.append_assoc]⟩,
      isExcluded_eq_false_iff.mpr hincluded⟩

theorem IsBelow.isPart (hfile : IsBelow volume place excluded file) (hnames : volume.HasPlainNames) :
    ∀ part ∈ file.parts, Path.IsPart part := by
  obtain ⟨content, hfound⟩ := hfile.found
  have hne : place ++ file.parts ≠ [] := by simp [hfile.ne_nil]
  intro part hpart
  exact hnames _ (Volume.mem_of_find?_eq_some hne hfound) part (List.mem_append_right _ hpart)

/-- The walk does not yield a file twice, and yields them in order. -/
theorem pairwise_of_exec_all (hvolume : host.volume.IsProper)
    (hroot : host.volume.LeadsTo host.directory root place)
    (hall : (all root excluded).exec host = (.ok files, host)) :
    files.Pairwise fun file other => file ≠ other ∧ file.toString ≤ other.toString := by
  have hentries : (host.volume.below place).Pairwise fun entry other => entry.1 ≠ other.1 :=
    List.pairwise_map.mp (hvolume.nodup_below place)
  unfold all at hall
  rw [exec_bind_ok (exec_below hroot)] at hall
  obtain rfl := Except.ok.inj (congrArg Prod.fst hall)
  refine .and (List.nodup_mergeSort.mpr ?_) (Text.pairwise_sortBy Path.toString _)
  rw [List.filterMap_map]
  refine List.pairwise_filterMap.mpr (hentries.imp ?_)
  rintro ⟨parts, node⟩ ⟨parts', node'⟩ hne found hfound found' hfound' rfl
  cases node with
  | directory => cases hfound
  | file content =>
    cases node' with
    | directory => cases hfound'
    | file content' =>
      simp only [Function.comp_apply, Option.ite_none_left_eq_some, Option.some.injEq]
        at hfound hfound'
      exact hne (congrArg Path.parts (hfound.2.trans hfound'.2.symm))

/-- A walk that yields what is in scope, in order. -/
structure IsWalk (volume : Volume) (place : Place) (excluded : List String) (files : List Path) :
    Prop where
  mem_iff : ∀ file, file ∈ files ↔ IsInScope volume place excluded file
  increasing : files.Pairwise fun file other => file.toString < other.toString

theorem exec_all_isWalk (hvolume : host.volume.IsProper) (hnames : host.volume.HasPlainNames)
    (hroot : host.volume.LeadsTo host.directory root place) (excluded : List String) :
    ∃ files, (all root excluded).exec host = (.ok files, host) ∧
      IsWalk host.volume place excluded files := by
  obtain ⟨files, hall, hfiles⟩ := exec_all hvolume hroot excluded
  refine ⟨files, hall, fun file => (hfiles file).trans isBelow_iff_isInScope, ?_⟩
  refine (pairwise_of_exec_all hvolume hroot hall).imp_of_mem ?_
  intro file other hfile hother ⟨hne, hle⟩
  refine lt_of_le_of_ne hle fun htext => hne ?_
  exact Path.eq_of_toString_eq (((hfiles file).mp hfile).isPart hnames)
    (((hfiles other).mp hother).isPart hnames) htext

/-- What is looked for by suffix is what a walk yields, without what has another suffix. -/
theorem exec_withSuffix_of_all (hall : (all root excluded).exec host = (.ok files, host))
    (wanted : List String) :
    (withSuffix root excluded wanted).exec host =
      (.ok (files.filter fun file => lowerString file.suffix ∈ wanted.map lowerString), host) := by
  have hfilter : files.filter (hasSuffix (wanted.map lowerString)) =
      files.filter fun file => lowerString file.suffix ∈ wanted.map lowerString :=
    List.filter_congr fun file _ => by simp only [hasSuffix, List.contains_eq_mem]
  unfold withSuffix
  rw [exec_bind_ok hall, ← hfilter]
  rfl

theorem exec_withExtension_of_all (hall : (all root excluded).exec host = (.ok files, host))
    (wanted : List String) :
    (withExtension root excluded wanted).exec host =
      (.ok (files.filter fun file => lowerString file.suffix ∈ wanted.map lowerString ∨
        lowerString file.name ∈ wanted.map lowerString), host) := by
  have hfilter : (files.filter fun file => hasSuffix (wanted.map lowerString) file ||
        (wanted.map lowerString).contains (lowerString file.name)) =
      files.filter fun file => lowerString file.suffix ∈ wanted.map lowerString ∨
        lowerString file.name ∈ wanted.map lowerString :=
    List.filter_congr fun file _ => by
      simp only [hasSuffix, List.contains_eq_mem, Bool.decide_or]
  unfold withExtension
  rw [exec_bind_ok hall, ← hfilter]
  rfl

/-- A walk yields exactly the files in scope, each once and in the order of the texts of their paths.  What
is looked for by suffix, or by suffix and name, are those of them that have it, in the same order. -/
theorem walk_yields_files_in_scope (hvolume : host.volume.IsProper)
    (hnames : host.volume.HasPlainNames) (hroot : host.volume.LeadsTo host.directory root place)
    (excluded wanted : List String) :
    ∃ files, (all root excluded).exec host = (.ok files, host) ∧
      IsWalk host.volume place excluded files ∧
      (withSuffix root excluded wanted).exec host =
        (.ok (files.filter fun file => lowerString file.suffix ∈ wanted.map lowerString), host) ∧
      (withExtension root excluded wanted).exec host =
        (.ok (files.filter fun file => lowerString file.suffix ∈ wanted.map lowerString ∨
          lowerString file.name ∈ wanted.map lowerString), host) := by
  obtain ⟨files, hall, hwalk⟩ := exec_all_isWalk hvolume hnames hroot excluded
  exact ⟨files, hall, hwalk, exec_withSuffix_of_all hall wanted, exec_withExtension_of_all hall wanted⟩

/-- A module with a directory whose name is excluded, a file with the same name, and a directory whose
name has that name in it. -/
def scopedHost : Host :=
  .holding ⟨[(["m"], .directory), (["m", "out"], .directory), (["m", "out", "a.ps1"], .file []),
    (["m", "outer"], .directory), (["m", "outer", "b.PS1"], .file []),
    (["m", "outer", "out"], .file [])]⟩ ⟨.slash, ["m"]⟩

theorem walk_yields_files_in_scope_scoped :
    ∃ files, (all ⟨.relative, []⟩ ["out"]).exec scopedHost = (.ok files, scopedHost) ∧
      IsWalk scopedHost.volume ["m"] ["out"] files ∧
      ⟨.relative, ["outer", "out"]⟩ ∈ files ∧ ⟨.relative, ["out", "a.ps1"]⟩ ∉ files := by
  have hvolume : scopedHost.volume.IsProper := by
    refine ⟨by decide, Volume.isTree_of_entries (by decide), by decide⟩
  have hnames : scopedHost.volume.HasPlainNames := by
    unfold Volume.HasPlainNames
    decide
  have hroot : scopedHost.volume.LeadsTo scopedHost.directory ⟨.relative, []⟩ ["m"] := ⟨rfl, rfl⟩
  obtain ⟨files, hall, hwalk, -, -⟩ := walk_yields_files_in_scope hvolume hnames hroot ["out"] [".ps1"]
  refine ⟨files, hall, hwalk, (hwalk.mem_iff _).mpr ?_, fun hmem => ?_⟩
  · exact ⟨["outer"], "out", [], rfl, by decide, by decide⟩
  · obtain ⟨directories, name, content, hfile, -, hincluded⟩ := (hwalk.mem_iff _).mp hmem
    have hparts : ["out"] ++ ["a.ps1"] = directories ++ [name] := congrArg Path.parts hfile
    obtain ⟨rfl, -⟩ := List.append_inj' hparts rfl
    exact hincluded "out" (by decide) (by decide)

end File

end DscAudit

import DscAudit.Config.Load
import DscAudit.Proofs.Shape.Table
import DscAudit.Value.Basic

/-!
# Merging a mapping over the defaults

A value that can be written in every notation has no number that is infinite or none at all.  A
configuration is only accepted if its numbers are whole, so none of them is infinite.

A mapping that fits the shape of a configuration gives every leaf of it that it has; the other leaves
are those of the default configuration.  The default has the shape of a configuration as well, so the
sections of a merged configuration make a mapping that is accepted again, and it gives all leaves.

Leaves are texts, numbers and lists of texts, so a mapping with a collection that is a part of itself is
no configuration.
-/

/-! ## Finite numbers -/

namespace DscAudit

open Decimal (Binary64)

/-- All floating point numbers of the value are finite. -/
inductive Value.IsFinite : Value → Prop where
  | null : IsFinite .null
  | bool (b : Bool) : IsFinite (.bool b)
  | int (n : Int) : IsFinite (.int n)
  | float (negative : Bool) (units : Nat) : IsFinite (.float (.finite negative units))
  | text (s : String) : IsFinite (.text s)
  | list {items : List Value} (hitems : ∀ item ∈ items, IsFinite item) : IsFinite (.list items)
  | table {entries : List (String × Value)} (hentries : ∀ entry ∈ entries, IsFinite entry.2) :
      IsFinite (.table entries)

attribute [simp] Value.IsFinite.null Value.IsFinite.bool Value.IsFinite.int Value.IsFinite.text

namespace Value

@[simp]
theorem isFinite_list {items : List Value} :
    (Value.list items).IsFinite ↔ ∀ item ∈ items, item.IsFinite := by
  constructor
  · rintro ⟨⟩
    assumption
  · exact .list

@[simp]
theorem isFinite_table {entries : List (String × Value)} :
    (Value.table entries).IsFinite ↔ ∀ entry ∈ entries, entry.2.IsFinite := by
  constructor
  · rintro ⟨⟩
    assumption
  · exact .table

@[simp]
theorem isFinite_ofTexts (texts : List String) : (ofTexts texts).IsFinite := by
  simp [ofTexts]

end Value

/-- The number is not infinite, and is a number at all. -/
def Number.IsFinite (number : Number) : Prop := number.toValue.IsFinite

theorem Number.isFinite_int (n : Int) : (Number.int n).IsFinite := .int n

theorem Number.isFinite_float {x : Binary64} (hx : x.isWhole = true) : (Number.float x).IsFinite := by
  cases x with
  | finite negative units => exact .float negative units
  | infinite negative => cases hx
  | nan => cases hx

end DscAudit

/-! ## The numbers of a configuration -/

namespace DscAudit.Config

/-- All numbers of the configuration are finite. -/
structure HasFiniteNumbers (config : Config) : Prop where
  powershell : config.powershell.timeout.IsFinite
  pathLength : config.maxPathLength.IsFinite
  markdown : config.markdown.timeout.IsFinite

theorem hasFiniteNumbers_default (source : String) :
    HasFiniteNumbers { default with source := source } :=
  ⟨Number.isFinite_int 600, Number.isFinite_int 129, Number.isFinite_int 900⟩

theorem isFinite_numberOf {datum : Datum} (hdatum : Kind.integer.holds datum = true) :
    (numberOf datum).IsFinite := by
  cases datum with
  | float x => exact Number.isFinite_float hdatum
  | _ => exact Number.isFinite_int _

/-- A number of a section is finite if the configuration fits its shape. -/
theorem isFinite_settingIn {payload : Datum} {fallback : Number} (hfallback : fallback.IsFinite)
    {sections entries : List (String × Shape)} {part key : String}
    (hfits : Shape.Fits [] payload (.group sections)) (hpart : (part, .group entries) ∈ sections)
    (hkey : (key, positive) ∈ entries) :
    (settingIn payload numberOf fallback part key).IsFinite := by
  unfold settingIn setting
  cases hsection : payload.get? part with
  | none => exact hfallback
  | some part' =>
    rw [Option.getD_some]
    cases hsetting : part'.get? key with
    | none => exact hfallback
    | some datum =>
      have hentry := (hfits.entry hpart hsection).entry hkey hsetting
      exact isFinite_numberOf hentry.kind

theorem hasFiniteNumbers_merge {payload : Datum} (hfits : shape.Fits [] payload) (source : String) :
    (merge payload source).HasFiniteNumbers where
  powershell := isFinite_settingIn (Number.isFinite_int 600) hfits
    (List.mem_of_getElem? (i := 3) rfl) (List.mem_of_getElem? (i := 1) rfl)
  pathLength := isFinite_settingIn (Number.isFinite_int 129) hfits
    (List.mem_of_getElem? (i := 6) rfl) (List.mem_of_getElem? (i := 0) rfl)
  markdown := isFinite_settingIn (Number.isFinite_int 900) hfits
    (List.mem_of_getElem? (i := 8) rfl) (List.mem_of_getElem? (i := 1) rfl)

/-- A mapping is only accepted if it fits the shape of a configuration. -/
theorem ofDatum_eq_ok {payload : Datum} {source : String} {config : Config}
    (hconfig : ofDatum payload source = .ok config) :
    shape.Fits [] payload ∧ config = merge payload source := by
  unfold ofDatum at hconfig
  split at hconfig
  · rename_i hworst
    exact ⟨Problem.worst?_eq_none.mp hworst, (Except.ok.inj hconfig).symm⟩
  · cases hconfig

theorem hasFiniteNumbers_ofFile {content : Text.Octets} {source : String} {config : Config}
    (hconfig : ofFile content source = .ok config) : config.HasFiniteNumbers := by
  unfold ofFile at hconfig
  split at hconfig
  · cases hconfig
  · cases hconfig
  · cases hconfig
    exact hasFiniteNumbers_default source
  · split at hconfig
    · split at hconfig
      · rename_i hdatum
        cases hconfig
        obtain ⟨hfits, rfl⟩ := ofDatum_eq_ok hdatum
        exact hasFiniteNumbers_merge hfits source
      · cases hconfig
    · cases hconfig

theorem isFinite_toValue {config : Config} (hconfig : config.HasFiniteNumbers) :
    config.toValue.IsFinite := by
  have hpowershell : config.powershell.timeout.toValue.IsFinite := hconfig.powershell
  have hpathLength : config.maxPathLength.toValue.IsFinite := hconfig.pathLength
  have hmarkdown : config.markdown.timeout.toValue.IsFinite := hconfig.markdown
  simp [toValue, sections, hpowershell, hpathLength, hmarkdown]

end DscAudit.Config

/-! ## Parts of a datum -/

namespace DscAudit

namespace Datum

/-- The part of a datum below some keys, one in the other. -/
def at? : List String → Datum → Option Datum
  | [], datum => some datum
  | key :: keys, datum => (datum.get? key).bind (at? keys)

/-- No collection in the datum is a part of itself. -/
inductive IsTree : Datum → Prop where
  | null : IsTree .null
  | bool (b : Bool) : IsTree (.bool b)
  | int (n : Int) : IsTree (.int n)
  | float (x : Decimal.Binary64) : IsTree (.float x)
  | text (s : String) : IsTree (.text s)
  | foreign (plain literal : String) : IsTree (.foreign plain literal)
  | list {items : List Datum} (hitems : ∀ item ∈ items, IsTree item) : IsTree (.list items)
  | table {entries : List (Datum × Datum)} (hentries : ∀ entry ∈ entries, IsTree entry.2) :
      IsTree (.table entries)

variable {datum part : Datum}

theorem IsTree.opened (htree : datum.IsTree) : datum.opened = datum := by
  cases htree <;> rfl

theorem mem_of_find? {key : String} {entries : List (Datum × Datum)}
    (hfind : find? key entries = some part) : (.text key, part) ∈ entries := by
  induction entries with
  | nil => cases hfind
  | cons entry entries ih =>
    obtain ⟨k, value⟩ := entry
    cases k with
    | text s =>
      rw [find?_cons_text] at hfind
      split at hfind
      · rename_i hkey
        subst hkey
        cases hfind
        exact List.mem_cons_self
      · exact List.mem_cons_of_mem _ (ih hfind)
    | _ => exact List.mem_cons_of_mem _ (ih hfind)

theorem IsTree.get? (htree : datum.IsTree) {key : String} (hpart : datum.get? key = some part) :
    part.IsTree := by
  unfold Datum.get? at hpart
  rw [htree.opened] at hpart
  cases htree with
  | table hentries => exact hentries _ (mem_of_find? hpart)
  | _ => cases hpart

end Datum

/-- Values are written out in full, so none is a part of itself. -/
theorem Value.isTree_toDatum (v : Value) : v.toDatum.IsTree := by
  induction v using Value.inductionOn with
  | null => exact .null
  | bool b => exact .bool b
  | int n => exact .int n
  | float x => exact .float x
  | text s => exact .text s
  | list items ih =>
    rw [toDatum, toData_eq_map]
    exact .list (List.forall_mem_map.mpr ih)
  | table entries ih =>
    refine .table fun entry hentry => ?_
    obtain ⟨source, hsource, rfl⟩ := mem_toEntries hentry
    exact ih source hsource

namespace Config

variable {path : List Step} {payload datum : Datum} {rules : List ShapeRule}

/-! ## Reading a leaf

Data of the shape of a leaf are read without loss.
-/

/-- Data of the shape, read and shown again, are what they were. -/
def IsReadBy {α : Type} (leaf : Shape) (read : Datum → α) (shown : α → Value) : Prop :=
  ∀ {path : List Step} {datum : Datum}, datum.IsTree → leaf.Fits path datum →
    (shown (read datum)).toDatum = datum

theorem text_isRead : IsReadBy (.ofKind .string rules) textOf .text := by
  intro path datum hdatum hfits
  have hkind := hfits.kind
  cases hdatum with
  | text s => rfl
  | _ => cases hkind

theorem number_isRead : IsReadBy (.ofKind .integer rules) numberOf Number.toValue := by
  intro path datum hdatum hfits
  have hkind := hfits.kind
  cases hdatum with
  | int n => rfl
  | float x => rfl
  | _ => cases hkind

theorem texts_isRead : IsReadBy (.listOf (.ofKind .string rules)) textsOf Value.ofTexts := by
  intro path datum hdatum hfits
  have hkind := hfits.kind
  cases hdatum with
  | @list items hitems =>
    have hread (item : Datum) (hitem : item ∈ items) : (Value.text (textOf item)).toDatum = item := by
      obtain ⟨index, hindex⟩ := List.mem_iff_getElem?.mp hitem
      have hmem := List.mk_mem_zipIdx_iff_getElem?.mpr hindex
      exact text_isRead (hitems item hitem) (Shape.fits_listOf.mp hfits _ hmem)
    have hall := List.map_congr_left hread
    rw [List.map_id'] at hall
    rw [textsOf, Value.ofTexts, Value.toDatum, Value.toData_eq_map, List.map_map, List.map_map]
    exact congrArg Datum.list hall
  | _ => cases hkind

/-! ## Leaves of a merged configuration -/

/-- What is below the keys is what the mapping has there, or else the fallback, and it has the shape
of a leaf. -/
structure IsMerged (payload : Datum) (keys : List String) (leaf : Shape) (fallback value : Value) :
    Prop where
  datum : value.toDatum = (payload.at? keys).getD fallback.toDatum
  fits : leaf.Fits (keys.map Step.key) value.toDatum

variable {leaf : Shape} {part key : String}

theorem IsMerged.entry {fallback value : Value} (h : IsMerged payload [key] leaf fallback value) :
    Shape.EntryFits [] (key, value) (key, leaf) :=
  ⟨rfl, h.fits⟩

theorem IsMerged.entryIn {fallback value : Value} (h : IsMerged payload [part, key] leaf fallback value) :
    Shape.EntryFits [.key part] (key, value) (key, leaf) :=
  ⟨rfl, h.fits⟩

theorem entry_group {entries : Table} {shapes : List (String × Shape)}
    (hkeys : (shapes.map (·.1)).Nodup)
    (hentries : List.Forall₂ (Shape.EntryFits [.key part]) entries shapes) :
    Shape.EntryFits [] (part, .table entries) (part, .group shapes) :=
  ⟨rfl, Shape.fits_group hkeys hentries⟩

variable {α : Type} {read : Datum → α} {shown : α → Value} {sections entries : List (String × Shape)}

/-- A setting at any depth: the mapping it is read from stands itself below some keys. -/
theorem toDatum_setting {fallback : α} (hread : IsReadBy leaf read shown) (htree : payload.IsTree)
    (hfits : Shape.Fits path payload (.group entries)) (hkey : (key, leaf) ∈ entries)
    (hfallback : leaf.Fits (path ++ [.key key]) (shown fallback).toDatum) :
    (shown (setting payload read fallback key)).toDatum =
        (payload.at? [key]).getD (shown fallback).toDatum ∧
      leaf.Fits (path ++ [.key key]) (shown (setting payload read fallback key)).toDatum := by
  unfold setting Datum.at?
  cases hpart : payload.get? key with
  | none => exact ⟨rfl, hfallback⟩
  | some part =>
    have hleaf := hfits.entry hkey hpart
    have hshown := hread (htree.get? hpart) hleaf
    rw [Option.map_some, Option.getD_some, hshown]
    exact ⟨rfl, hleaf⟩

theorem isMerged_setting (fallback : α) (hread : IsReadBy leaf read shown) (htree : payload.IsTree)
    (hfits : Shape.Fits [] payload (.group sections)) (hkey : (key, leaf) ∈ sections)
    (hfallback : leaf.Fits [.key key] (shown fallback).toDatum) :
    IsMerged payload [key] leaf (shown fallback) (shown (setting payload read fallback key)) := by
  obtain ⟨hdatum, hleaf⟩ := toDatum_setting hread htree hfits hkey hfallback
  exact ⟨hdatum, hleaf⟩

theorem isMerged_settingIn (fallback : α) (hread : IsReadBy leaf read shown) (htree : payload.IsTree)
    (hfits : Shape.Fits [] payload (.group sections)) (hpart : (part, .group entries) ∈ sections)
    (hkey : (key, leaf) ∈ entries)
    (hfallback : leaf.Fits [.key part, .key key] (shown fallback).toDatum) :
    IsMerged payload [part, key] leaf (shown fallback)
      (shown (settingIn payload read fallback part key)) := by
  unfold settingIn
  cases hsection : payload.get? part with
  | none =>
    -- A mapping without the section has nothing below it.
    refine ⟨?_, hfallback⟩
    rw [Datum.at?, hsection]
    rfl
  | some sectionDatum =>
    obtain ⟨hdatum, hleaf⟩ := toDatum_setting hread (htree.get? hsection)
      (hfits.entry hpart hsection) hkey hfallback
    refine ⟨?_, hleaf⟩
    rw [Datum.at?, hsection]
    exact hdatum

/-- The leaves of a configuration, each below its keys. -/
def leaves (config : Config) : List (List String × Value) :=
  config.sections.flatMap fun entry =>
    match entry.2 with
    | .table settings => settings.map fun setting => ([entry.1, setting.1], setting.2)
    | value => [([entry.1], value)]

theorem leaves_eq (config : Config) :
    config.leaves =
      [(["exclude_dirs"], .ofTexts config.excludedDirectories),
       (["text_extensions"], .ofTexts config.textExtensions),
       (["opt_in"], .ofTexts config.optIn),
       (["powershell", "executable"], .text config.powershell.executable),
       (["powershell", "timeout_seconds"], config.powershell.timeout.toValue),
       (["analyzer", "required_rules"], .ofTexts config.analyzer.requiredRules),
       (["analyzer", "flagged_rules"], .ofTexts config.analyzer.flaggedRules),
       (["analyzer", "ignore_rules"], .ofTexts config.analyzer.ignoredRules),
       (["manifest", "min_powershell_version"], .text config.minPowerShellVersion),
       (["paths", "max_relative_length"], config.maxPathLength.toValue),
       (["examples", "directory"], .text config.examplesDirectory),
       (["markdown", "npm"], .text config.markdown.npm),
       (["markdown", "timeout_seconds"], config.markdown.timeout.toValue)] := rfl

/-- The merged configuration has the leaves of the mapping before those of the default, and all of them
have the shape that is demanded. -/
theorem merge_leaves (htree : payload.IsTree) (hfits : shape.Fits [] payload) (source : String) :
    ((merge payload source).leaves.map fun leaf => (leaf.1, leaf.2.toDatum)) =
        default.leaves.map (fun leaf => (leaf.1, (payload.at? leaf.1).getD leaf.2.toDatum)) ∧
      shape.Fits [] (Value.table (merge payload source).sections).toDatum := by
  have hexcluded := isMerged_setting default.excludedDirectories texts_isRead htree hfits
    (List.mem_of_getElem? (i := 0) rfl) rfl
  have hextensions := isMerged_setting default.textExtensions texts_isRead htree hfits
    (List.mem_of_getElem? (i := 1) rfl) rfl
  have hoptIn := isMerged_setting default.optIn texts_isRead htree hfits
    (List.mem_of_getElem? (i := 2) rfl) rfl
  have hexecutable := isMerged_settingIn default.powershell.executable text_isRead htree hfits
    (List.mem_of_getElem? (i := 3) rfl) (List.mem_of_getElem? (i := 0) rfl) rfl
  have htimeout := isMerged_settingIn default.powershell.timeout number_isRead htree hfits
    (List.mem_of_getElem? (i := 3) rfl) (List.mem_of_getElem? (i := 1) rfl) rfl
  have hrequired := isMerged_settingIn default.analyzer.requiredRules texts_isRead htree hfits
    (List.mem_of_getElem? (i := 4) rfl) (List.mem_of_getElem? (i := 0) rfl) rfl
  have hflagged := isMerged_settingIn default.analyzer.flaggedRules texts_isRead htree hfits
    (List.mem_of_getElem? (i := 4) rfl) (List.mem_of_getElem? (i := 1) rfl) rfl
  have hignored := isMerged_settingIn default.analyzer.ignoredRules texts_isRead htree hfits
    (List.mem_of_getElem? (i := 4) rfl) (List.mem_of_getElem? (i := 2) rfl) rfl
  have hversion := isMerged_settingIn default.minPowerShellVersion text_isRead htree hfits
    (List.mem_of_getElem? (i := 5) rfl) (List.mem_of_getElem? (i := 0) rfl) rfl
  have hlength := isMerged_settingIn default.maxPathLength number_isRead htree hfits
    (List.mem_of_getElem? (i := 6) rfl) (List.mem_of_getElem? (i := 0) rfl) rfl
  have hexamples := isMerged_settingIn default.examplesDirectory text_isRead htree hfits
    (List.mem_of_getElem? (i := 7) rfl) (List.mem_of_getElem? (i := 0) rfl) rfl
  have hnpm := isMerged_settingIn default.markdown.npm text_isRead htree hfits
    (List.mem_of_getElem? (i := 8) rfl) (List.mem_of_getElem? (i := 0) rfl) rfl
  have hlintTimeout := isMerged_settingIn default.markdown.timeout number_isRead htree hfits
    (List.mem_of_getElem? (i := 8) rfl) (List.mem_of_getElem? (i := 1) rfl) rfl
  constructor
  · rw [leaves_eq, leaves_eq]
    simp only [merge, List.map_cons, List.map_nil, hexcluded.datum, hextensions.datum, hoptIn.datum,
      hexecutable.datum, htimeout.datum, hrequired.datum, hflagged.datum, hignored.datum,
      hversion.datum, hlength.datum, hexamples.datum, hnpm.datum, hlintTimeout.datum]
  · have hpowershell := entry_group (by decide) (.cons hexecutable.entryIn (.cons htimeout.entryIn .nil))
    have hanalyzer := entry_group (by decide)
      (.cons hrequired.entryIn (.cons hflagged.entryIn (.cons hignored.entryIn .nil)))
    have hmanifest := entry_group (by decide) (.cons hversion.entryIn .nil)
    have hpaths := entry_group (by decide) (.cons hlength.entryIn .nil)
    have hexample := entry_group (by decide) (.cons hexamples.entryIn .nil)
    have hmarkdown := entry_group (by decide) (.cons hnpm.entryIn (.cons hlintTimeout.entryIn .nil))
    exact Shape.fits_group (by decide)
      (.cons hexcluded.entry (.cons hextensions.entry (.cons hoptIn.entry
        (.cons hpowershell (.cons hanalyzer (.cons hmanifest
          (.cons hpaths (.cons hexample (.cons hmarkdown .nil)))))))))

/-! ## Reading a dump -/

/-- What a dump of the configuration tells, without where the configuration comes from. -/
def withoutSource (config : Config) : Value :=
  match config.toValue with
  | .table entries => .table (entries.filter fun entry => entry.1 != "source")
  | value => value

theorem withoutSource_eq (config : Config) : config.withoutSource = .table config.sections := rfl

theorem textsOf_ofTexts (texts : List String) : textsOf (Value.ofTexts texts).toDatum = texts := by
  rw [Value.ofTexts, Value.toDatum, Value.toData_eq_map, List.map_map, textsOf, List.map_map]
  exact List.map_id texts

theorem numberOf_toValue (number : Number) : numberOf number.toValue.toDatum = number := by
  cases number <;> rfl

/-- Every configuration is what its own sections make over the default. -/
theorem merge_sections (config : Config) :
    merge (Value.table config.sections).toDatum config.source = config := by
  have htext (s : String) : textOf (Value.text s).toDatum = s := rfl
  simp [merge, setting, settingIn, sections, Value.get?_toDatum_table, Entries.get?, htext,
    textsOf_ofTexts, numberOf_toValue]

/-- A mapping that is accepted gives every leaf that it has, and the default gives the others; and what
a dump tells of the configuration is accepted and gives the configuration again. -/
theorem ofDatum_merges {payload : Datum} (htree : payload.IsTree)
    (haccepted : shape.problems payload = []) (source : String) :
    ∃ config, ofDatum payload source = .ok config ∧ config.source = source ∧
      (config.leaves.map fun leaf => (leaf.1, leaf.2.toDatum)) =
        default.leaves.map (fun leaf => (leaf.1, (payload.at? leaf.1).getD leaf.2.toDatum)) ∧
      ofDatum config.withoutSource.toDatum source = .ok config := by
  obtain ⟨hleaves, hfits⟩ := merge_leaves htree haccepted source
  have haccepts {datum : Datum} (hdatum : shape.problems datum = []) :
      ofDatum datum source = .ok (merge datum source) := by
    rw [ofDatum, Problem.worst?_eq_none.mpr hdatum]
  refine ⟨merge payload source, haccepts haccepted, rfl, hleaves, ?_⟩
  rw [withoutSource_eq, haccepts hfits]
  exact congrArg Except.ok (merge_sections (merge payload source))

/-- A mapping with a list, a section of which it has one setting, and an empty section. -/
def partialMapping : Value :=
  .table
    [("opt_in", .ofTexts ["Common Tests"]),
     ("powershell", .table [("timeout_seconds", .float (.ofInt 30))]),
     ("paths", .table [])]

theorem ofDatum_merges_partialMapping :
    ∃ config, ofDatum partialMapping.toDatum ".dscmeta.yml" = .ok config ∧
      config.source = ".dscmeta.yml" ∧
      (config.leaves.map fun leaf => (leaf.1, leaf.2.toDatum)) =
        default.leaves.map
          (fun leaf => (leaf.1, (partialMapping.toDatum.at? leaf.1).getD leaf.2.toDatum)) ∧
      ofDatum config.withoutSource.toDatum ".dscmeta.yml" = .ok config :=
  ofDatum_merges partialMapping.isTree_toDatum (by decide +kernel) ".dscmeta.yml"

end Config

end DscAudit

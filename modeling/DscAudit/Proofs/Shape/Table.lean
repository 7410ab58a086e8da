import DscAudit.Proofs.Value.Table
import DscAudit.Shape.Basic
import Mathlib.Data.List.Forall2

/-!
# Data that fit a shape

A datum fits a shape if no problem is found in it.  Then it has the kind that the shape demands, and its
parts fit the shapes of the parts.
-/

namespace DscAudit

theorem Problem.worst?_eq_none {problems : List Problem} : worst? problems = none ↔ problems = [] := by
  cases problems <;> simp [worst?]

namespace Shape

variable {path : List Step} {datum part : Datum}

/-- No problem is found in the datum at a place. -/
def Fits (path : List Step) (datum : Datum) (shape : Shape) : Prop := problemsAt path datum shape = []

theorem ruleProblems_eq_nil {rightKind : Bool} {rules : List ShapeRule} :
    ruleProblems path datum rightKind rules = [] ↔
      ∀ rule ∈ rules, oneRuleProblems path datum rightKind rule = [] := by
  induction rules with
  | nil => simp [ruleProblems]
  | cons rule rules ih => rw [ruleProblems, List.append_eq_nil_iff, ih, List.forall_mem_cons]

theorem entryProblems_eq_nil {entries : List (String × Shape)} :
    entryProblems path datum entries = [] ↔
      ∀ entry ∈ entries, ∀ part, datum.get? entry.1 = some part →
        Fits (path ++ [.key entry.1]) part entry.2 := by
  induction entries with
  | nil => simp [entryProblems]
  | cons entry entries ih =>
    rw [entryProblems, List.append_eq_nil_iff, ih, List.forall_mem_cons]
    refine and_congr_left' ?_
    cases datum.get? entry.1 with
    | none => simp
    | some part => simp [Fits]

theorem Fits.rule {rules : List ShapeRule} (hfits : Fits path datum (.ofRules rules)) {rule : ShapeRule}
    (hrule : rule ∈ rules) : oneRuleProblems path datum (hasRightKind datum rules) rule = [] := by
  rw [Fits, problemsAt] at hfits
  exact ruleProblems_eq_nil.mp hfits rule hrule

/-- A datum that fits has the kind that is demanded. -/
theorem Fits.kind {kind : Kind} {rules : List ShapeRule} (hfits : Fits path datum (ofKind kind rules)) :
    kind.holds datum = true := by
  have hrule := Fits.rule hfits List.mem_cons_self
  cases hkind : kind.holds datum with
  | true => rfl
  | false => simp [oneRuleProblems, ownProblem?, hkind] at hrule

/-- The parts of a mapping that fits have the shapes that are demanded of them. -/
theorem Fits.entry {entries : List (String × Shape)} (hfits : Fits path datum (group entries))
    {entry : String × Shape} (hentry : entry ∈ entries) (hpart : datum.get? entry.1 = some part) :
    Fits (path ++ [.key entry.1]) part entry.2 := by
  have hrule := Fits.rule hfits (.tail _ (.tail _ (.head _)))
  rw [oneRuleProblems] at hrule
  exact entryProblems_eq_nil.mp hrule entry hentry part hpart

end Shape

/-!
## Tables and lists that fit a shape

A table fits the shape of a mapping if its entries are the demanded ones, one after the other, and each
of them fits the shape that is demanded under its key.
-/

namespace Value

theorem toData_eq_map (items : List Value) : toData items = items.map toDatum := by
  induction items with
  | nil => rfl
  | cons item items ih => rw [toData, ih, List.map_cons]

theorem mem_toEntries {entries : Table} {entry : Datum × Datum} (hentry : entry ∈ toEntries entries) :
    ∃ source ∈ entries, entry = (.text source.1, source.2.toDatum) := by
  induction entries with
  | nil => cases hentry
  | cons first entries ih =>
    rw [toEntries, List.mem_cons] at hentry
    rcases hentry with rfl | hrest
    · exact ⟨first, List.mem_cons_self, rfl⟩
    · obtain ⟨source, hsource, rfl⟩ := ih hrest
      exact ⟨source, List.mem_cons_of_mem first hsource, rfl⟩

theorem find?_toEntries (key : String) (entries : Table) :
    Datum.find? key (toEntries entries) = (Entries.get? key entries).map toDatum := by
  induction entries with
  | nil => rfl
  | cons entry entries ih =>
    rw [toEntries, Datum.find?_cons_text, Entries.get?, ih]
    split <;> rfl

theorem get?_toDatum_table (key : String) (entries : Table) :
    (table entries).toDatum.get? key = (Entries.get? key entries).map toDatum := by
  rw [← find?_toEntries]
  rfl

end Value

namespace Shape

variable {path : List Step} {datum : Datum}

theorem fits_ofRules {rules : List ShapeRule} :
    Fits path datum (.ofRules rules) ↔
      ∀ rule ∈ rules, oneRuleProblems path datum (hasRightKind datum rules) rule = [] := by
  rw [Fits, problemsAt, ruleProblems_eq_nil]

/-- No key is left over if and only if every key is one of the names. -/
theorem otherKeys_eq_nil {names : List String} {entries : List (Datum × Datum)} :
    otherKeys names entries = [] ↔ ∀ entry ∈ entries, ∃ name ∈ names, entry.1 = .text name := by
  simp only [otherKeys, ← List.length_eq_zero_iff, List.length_mergeSort]
  rw [List.length_eq_zero_iff, List.filterMap_eq_nil_iff]
  refine forall₂_congr fun entry _ => ?_
  cases entry.1 <;> simp

/-! ### Tables -/

/-- The entry has the key that is demanded and fits the shape that is demanded under it. -/
def EntryFits (path : List Step) (entry : String × Value) (demanded : String × Shape) : Prop :=
  entry.1 = demanded.1 ∧ Fits (path ++ [.key demanded.1]) entry.2.toDatum demanded.2

variable {entries : Table} {shapes : List (String × Shape)}

theorem map_fst_of_entriesFit (hentries : List.Forall₂ (EntryFits path) entries shapes) :
    entries.map (·.1) = shapes.map (·.1) := by
  induction hentries with
  | nil => rfl
  | cons hentry _ ih => rw [List.map_cons, List.map_cons, hentry.1, ih]

/-- What is demanded under a key is there and fits. -/
theorem get?_of_entriesFit (hkeys : (shapes.map (·.1)).Nodup)
    (hentries : List.Forall₂ (EntryFits path) entries shapes) {shape : String × Shape}
    (hshape : shape ∈ shapes) :
    ∃ value, Entries.get? shape.1 entries = some value ∧
      Fits (path ++ [.key shape.1]) value.toDatum shape.2 := by
  induction hentries with
  | nil => cases hshape
  | @cons entry first entries shapes hentry _ ih =>
    rw [List.map_cons, List.nodup_cons] at hkeys
    rcases List.mem_cons.mp hshape with rfl | hrest
    · exact ⟨entry.2, if_pos hentry.1, hentry.2⟩
    · have hne : entry.1 ≠ shape.1 := fun h =>
        hkeys.1 (hentry.1 ▸ h ▸ List.mem_map_of_mem hrest)
      obtain ⟨value, hvalue, hfits⟩ := ih hkeys.2 hrest
      exact ⟨value, by rw [Entries.get?, if_neg hne, hvalue], hfits⟩

theorem oneRuleProblems_onlyKeys (hentries : List.Forall₂ (EntryFits path) entries shapes)
    (rightKind : Bool) :
    oneRuleProblems path (Value.table entries).toDatum rightKind (.onlyKeys (shapes.map (·.1))) = [] := by
  have hkeys : otherKeys (shapes.map (·.1)) (Value.toEntries entries) = [] := by
    refine otherKeys_eq_nil.mpr fun entry hentry => ?_
    obtain ⟨source, hsource, rfl⟩ := Value.mem_toEntries hentry
    exact ⟨source.1, map_fst_of_entriesFit hentries ▸ List.mem_map_of_mem hsource, rfl⟩
  simp [oneRuleProblems, ownProblem?, Value.toDatum, Datum.opened, hkeys]

theorem oneRuleProblems_entries (hkeys : (shapes.map (·.1)).Nodup)
    (hentries : List.Forall₂ (EntryFits path) entries shapes) (rightKind : Bool) :
    oneRuleProblems path (Value.table entries).toDatum rightKind (.entries shapes) = [] := by
  rw [oneRuleProblems]
  refine entryProblems_eq_nil.mpr fun shape hshape part hpart => ?_
  obtain ⟨value, hvalue, hfits⟩ := get?_of_entriesFit hkeys hentries hshape
  rw [Value.get?_toDatum_table, hvalue] at hpart
  exact Option.some.inj hpart ▸ hfits

theorem oneRuleProblems_hasKeys (hkeys : (shapes.map (·.1)).Nodup)
    (hentries : List.Forall₂ (EntryFits path) entries shapes) (rightKind : Bool) :
    oneRuleProblems path (Value.table entries).toDatum rightKind (.hasKeys (shapes.map (·.1))) = [] := by
  have hnone : missingKeys (Value.table entries).toDatum (shapes.map (·.1)) = [] := by
    refine List.filter_eq_nil_iff.mpr fun name hname => ?_
    obtain ⟨shape, hshape, rfl⟩ := List.mem_map.mp hname
    obtain ⟨value, hvalue, -⟩ := get?_of_entriesFit hkeys hentries hshape
    simp [Value.find?_toEntries, hvalue]
  rw [oneRuleProblems, hnone, List.map_nil]

theorem oneRuleProblems_kind {kind : Kind} (hkind : kind.holds datum = true) (rightKind : Bool) :
    oneRuleProblems path datum rightKind (.kind kind) = [] := by
  simp [oneRuleProblems, ownProblem?, hkind]

/-- A table whose entries are the demanded ones is a mapping that may have them. -/
theorem fits_group (hkeys : (shapes.map (·.1)).Nodup)
    (hentries : List.Forall₂ (EntryFits path) entries shapes) :
    Fits path (Value.table entries).toDatum (group shapes) := by
  refine fits_ofRules.mpr fun rule hrule => ?_
  simp only [List.mem_cons, List.not_mem_nil, or_false] at hrule
  rcases hrule with rfl | rfl | rfl
  · exact oneRuleProblems_kind rfl _
  · exact oneRuleProblems_onlyKeys hentries _
  · exact oneRuleProblems_entries hkeys hentries _

/-- A table whose entries are the demanded ones is a mapping that must have them. -/
theorem fits_record (hkeys : (shapes.map (·.1)).Nodup)
    (hentries : List.Forall₂ (EntryFits path) entries shapes) :
    Fits path (Value.table entries).toDatum (record shapes) := by
  refine fits_ofRules.mpr fun rule hrule => ?_
  simp only [List.mem_cons, List.not_mem_nil, or_false] at hrule
  rcases hrule with rfl | rfl | rfl | rfl
  · exact oneRuleProblems_kind rfl _
  · exact oneRuleProblems_onlyKeys hentries _
  · exact oneRuleProblems_hasKeys hkeys hentries _
  · exact oneRuleProblems_entries hkeys hentries _

/-! ### Lists -/

theorem fits_listOf {items : List Datum} {shape : Shape} :
    Fits path (.list items) (listOf shape) ↔
      ∀ item ∈ items.zipIdx, Fits (path ++ [.index item.2]) item.1 shape := by
  have hkind (rightKind : Bool) :
      oneRuleProblems path (.list items) rightKind (.kind .array) = [] := oneRuleProblems_kind rfl _
  rw [listOf, ofKind, fits_ofRules, List.forall_mem_cons, List.forall_mem_singleton,
    and_iff_right (hkind _), oneRuleProblems]
  exact List.flatMap_eq_nil_iff

end Shape

end DscAudit

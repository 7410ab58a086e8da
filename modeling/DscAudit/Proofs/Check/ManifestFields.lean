import DscAudit.Proofs.Check.ManifestKeys
import DscAudit.Proofs.DataFile.RoundTrip
import DscAudit.Proofs.Manifest.Identifier
import DscAudit.Proofs.Manifest.Version
import DscAudit.Proofs.Text.Encoding
import DscAudit.Proofs.Text.Numbering

/-!
# Fields of a manifest

The check of a manifest finds nothing exactly if the text can be read and has a version, an identifier, an
author and a description.  An identifier is read as a number, so more passes for one than thirty-two digits
of base sixteen; all other fields are as they should be.
-/

namespace DscAudit.Check.Manifest

open DscAudit.Manifest (Identifier.IsNumeral Identifier.IsPlain Identifier.digits)
open DscAudit.Manifest.Version (IsNumber pieces read?_eq_some_iff)

variable {table : Table}

/-- Two to four runs of digits with points between them, blanks around them apart. -/
structure IsVersion (s : List Char) : Prop where
  bounds : 2 ≤ (pieces s).length ∧ (pieces s).length ≤ 4
  numbers : ∀ piece ∈ pieces s, IsNumber piece

/-- The text under a key has a character that is not blank. -/
def HasVisibleText (table : Table) (key : String) : Prop :=
  ∃ s, field? table key = some (.text s) ∧ ∃ c ∈ s.toList, Text.isBlank c = false

/-- The table has the fields that a manifest must have, where `isCore` says which digits identify. -/
structure HasFields (isCore : List Char → Prop) (table : Table) : Prop where
  version : ∃ value, field? table "ModuleVersion" = some value ∧ IsVersion value.plain.toList
  identifier : ∃ value, field? table "GUID" = some value ∧ isCore (Identifier.digits value.plain.toList)
  author : HasVisibleText table "Author"
  description : HasVisibleText table "Description"

theorem fieldFault?_eq_none_iff {key wanted : String} {isValid : List Char → Bool} :
    fieldFault? table key wanted isValid = none ↔
      ∃ value, field? table key = some value ∧ isValid value.plain.toList = true := by
  unfold fieldFault?
  cases field? table key with
  | none => simp
  | some value => simp

theorem textFault?_eq_none_iff {key : String} :
    textFault? table key = none ↔ HasVisibleText table key := by
  unfold textFault? HasVisibleText
  split
  · next s hfield =>
    simp only [hfield, Option.some.injEq, Value.text.injEq, exists_eq_left', ← Text.trim_ne_nil_iff]
    rw [ite_eq_right_iff, List.isEmpty_iff]
    simp
  · next hnot => exact ⟨nofun, fun ⟨s, hs, _⟩ => (hnot s hs).elim⟩

theorem isSome_read?_iff {s : List Char} :
    (DscAudit.Manifest.Version.read? s).isSome ↔ IsVersion s := by
  rw [Option.isSome_iff_exists]
  simp only [read?_eq_some_iff]
  exact ⟨fun ⟨_, hbounds, hnumbers, _⟩ => ⟨hbounds, hnumbers⟩, fun h => ⟨_, h.bounds, h.numbers, rfl⟩⟩

theorem faults_eq_nil_iff : faults table = [] ↔ HasFields Identifier.IsNumeral table := by
  have hall : faults table = [] ↔
      fieldFault? table "ModuleVersion" "version"
        (fun s => (DscAudit.Manifest.Version.read? s).isSome) = none ∧
      fieldFault? table "GUID" "GUID" DscAudit.Manifest.Identifier.isValid = none ∧
      textFault? table "Author" = none ∧ textFault? table "Description" = none := by
    simp [faults, List.filterMap_eq_nil_iff]
  rw [hall, fieldFault?_eq_none_iff, fieldFault?_eq_none_iff, textFault?_eq_none_iff,
    textFault?_eq_none_iff]
  simp only [isSome_read?_iff, DscAudit.Manifest.Identifier.isValid_iff]
  constructor
  · rintro ⟨hversion, hidentifier, hauthor, hdescription⟩
    exact ⟨hversion, hidentifier, hauthor, hdescription⟩
  · intro h
    exact ⟨h.version, h.identifier, h.author, h.description⟩

/-! ## Identifiers that are more than digits -/

/-- The text can be read as a table of which this holds. -/
def ReadsAs (text : List Char) (holds : Table → Prop) : Prop :=
  ∃ table, DataFile.read text = .ok table ∧ holds table

variable {text : List Char}

theorem HasFields.imp {isCore isCore' : List Char → Prop} (h : HasFields isCore table)
    (himp : ∀ core, isCore core → isCore' core) : HasFields isCore' table := by
  obtain ⟨value, hvalue, hcore⟩ := h.identifier
  exact ⟨h.version, ⟨value, hvalue, himp _ hcore⟩, h.author, h.description⟩

/-- What is taken for an identifier is thirty-two digits, or it is another way to write a number. -/
theorem readsAs_isNumeral_iff :
    ReadsAs text (HasFields Identifier.IsNumeral) ↔ ReadsAs text (HasFields Identifier.IsPlain) ∨
      ReadsAs text (HasFields fun core => Identifier.IsNumeral core ∧ ¬ Identifier.IsPlain core) := by
  constructor
  · rintro ⟨table, hread, hfields⟩
    obtain ⟨value, hvalue, hcore⟩ := hfields.identifier
    by_cases hplain : Identifier.IsPlain (Identifier.digits value.plain.toList)
    · exact .inl ⟨table, hread, hfields.version, ⟨value, hvalue, hplain⟩, hfields.author,
        hfields.description⟩
    · exact .inr ⟨table, hread, hfields.version, ⟨value, hvalue, hcore, hplain⟩, hfields.author,
        hfields.description⟩
  · rintro (⟨table, hread, hfields⟩ | ⟨table, hread, hfields⟩)
    · exact ⟨table, hread, hfields.imp fun _ hplain => hplain.isNumeral⟩
    · exact ⟨table, hread, hfields.imp fun _ hcore => hcore.1⟩

theorem not_readsAs_both (hplain : ReadsAs text (HasFields Identifier.IsPlain))
    (hother : ReadsAs text
      (HasFields fun core => Identifier.IsNumeral core ∧ ¬ Identifier.IsPlain core)) : False := by
  obtain ⟨table, hread, hplain⟩ := hplain
  obtain ⟨table', hread', hother⟩ := hother
  cases hread.symm.trans hread'
  obtain ⟨value, hvalue, hcore⟩ := hplain.identifier
  obtain ⟨value', hvalue', -, hnot⟩ := hother.identifier
  cases hvalue.symm.trans hvalue'
  exact hnot hcore

/-! ## The check -/

variable {subject : Subject} {host : Host} {known : Findings} {name : String}

/-- The check finds nothing exactly if the manifest can be read and has all fields. -/
theorem HasText.exists_comesTo_valid (hmanifest : HasText subject host name text)
    (hknown : known.IsTrue subject host) :
    ∃ outcome, ComesTo (valid subject) known host outcome ∧ outcome.skipped = "" ∧
      (outcome.violations = [] ↔ ReadsAs text (HasFields Identifier.IsNumeral)) := by
  cases hread : DataFile.read text with
  | error fault =>
    refine ⟨_, hmanifest.comesTo_unreadable hread hknown, rfl, nofun, ?_⟩
    rintro ⟨table, hread', -⟩
    cases hread.symm.trans hread'
  | ok table =>
    refine ⟨_, hmanifest.comesTo_valid hread hknown, rfl, ?_⟩
    have hfound : ReadsAs text (HasFields Identifier.IsNumeral) ↔
        HasFields Identifier.IsNumeral table :=
      ⟨fun ⟨_, hread', hfields⟩ => Except.ok.inj (hread.symm.trans hread') ▸ hfields,
        fun hfields => ⟨table, hread, hfields⟩⟩
    rw [hfound, ← faults_eq_nil_iff]
    exact List.map_eq_nil_iff

/-! ## Manifests with an identifier -/

/-- A manifest with an identifier. -/
def identifiedText (identifier : String) : List Char :=
  ("@\x7b ModuleVersion = '1.0'; GUID = '" ++ identifier ++
    "'; Author = 'a'; Description = 'd' \x7d").toList

/-- What is read from it. -/
def identifiedTable (identifier : String) : Table :=
  [("ModuleVersion", .text "1.0"), ("GUID", .text identifier), ("Author", .text "a"),
    ("Description", .text "d")]

section Identified

open DataFile (Spells Token read_of_spells)
open DataFile.Grammar (Document)

def identifiedDocument (identifier : String) : Document where
  before := []
  leading := []
  body := .entries <| .more (.word "ModuleVersion") 0 (.one (.text "1.0")) .semicolon [] <|
    .more (.word "GUID") 0 (.one (.text identifier)) .semicolon [] <|
    .more (.word "Author") 0 (.one (.text "a")) .semicolon [] <|
    .last (.word "Description") 0 (.one (.text "d")) []
  behind := []

theorem spells_field {key content : String} {tokens : List Token} {text : List Char}
    (hkey : DataFile.IsBareWord key.toList) (hquote : '\x27' ∉ content.toList) (h : Spells tokens text) :
    Spells (.word key :: .equals :: .string content :: tokens)
      (' ' :: (key.toList ++ (" = \x27".toList ++ (content.toList ++ '\x27' :: text)))) := by
  have hspells : Spells (.word key :: .equals :: .string content :: tokens) _ :=
    .cons .space (.word hkey) <| .cons .space .equals <| .cons .space (.single content) h
  rw [DataFile.doubled_of_not_mem hquote] at hspells
  simpa using hspells

theorem read_identifiedText {identifier : String} (hquote : '\x27' ∉ identifier.toList) :
    DataFile.read (identifiedText identifier) = .ok (identifiedTable identifier) := by
  have hspells : Spells (identifiedDocument identifier).tokens _ :=
    .cons .nil .openTable <| spells_field (by decide) (by decide) <| .cons .nil .semicolon <|
    spells_field (by decide) hquote <| .cons .nil .semicolon <|
    spells_field (by decide) (by decide) <| .cons .nil .semicolon <|
    spells_field (by decide) (by decide) <| .cons .space .closeTable <| .nil .nil
  have htext := read_of_spells hspells
  rw [identifiedText, String.toList_append, String.toList_append, List.append_assoc]
  exact htext

end Identified

theorem hasText_identifiedText {identifier : String} (hreturn : '\r' ∉ identifier.toList) :
    HasText (.ofModule "m") (manifestHost (identifiedText identifier)) "m.psd1"
      (identifiedText identifier) := by
  have hplain : '\r' ∉ identifiedText identifier := by
    rw [identifiedText, String.toList_append, String.toList_append, List.mem_append, List.mem_append]
    rintro ((hmem | hmem) | hmem)
    · exact absurd hmem (by decide)
    · exact hreturn hmem
    · exact absurd hmem (by decide)
  refine hasText_manifestHost ?_
  have hnormal := Text.normalizeNewlines_of_not_mem hplain []
  rw [List.append_nil] at hnormal
  rw [Text.readTextFile?_encode, hnormal, Text.normalizeNewlines, List.append_nil]
  rw [identifiedText, String.toList_append, String.toList_append, List.append_assoc]
  exact fun hmark => absurd (Option.some.inj hmark) (by decide)

theorem hasFields_identifiedTable_iff {isCore : List Char → Prop} {identifier : String} :
    HasFields isCore (identifiedTable identifier) ↔ isCore (Identifier.digits identifier.toList) := by
  have hidentifier : field? (identifiedTable identifier) "GUID" = some (.text identifier) := rfl
  constructor
  · intro h
    obtain ⟨value, hvalue, hcore⟩ := h.identifier
    cases hidentifier.symm.trans hvalue
    exact hcore
  · intro hcore
    have hversion : IsVersion "1.0".toList := isSome_read?_iff.mp (by decide)
    exact ⟨⟨_, rfl, hversion⟩, ⟨_, hidentifier, hcore⟩, ⟨"a", rfl, 'a', by decide, by decide⟩,
      ⟨"d", rfl, 'd', by decide, by decide⟩⟩

/-! ## The statement -/

/-- The check of a manifest finds nothing exactly if its text can be read, its version is two to four
numbers, its author and its description have something to show, and its identifier is a number that is
written with thirty-two characters.  So it finds nothing exactly if there are these fields and thirty-two
digits of base sixteen, unless there are these fields and the number is not written with digits alone. -/
theorem valid_finds_nothing_iff (hmanifest : HasText subject host name text)
    (hknown : known.IsTrue subject host) :
    ∃ outcome, ComesTo (valid subject) known host outcome ∧ outcome.skipped = "" ∧
      (outcome.violations = [] ↔ ReadsAs text (HasFields Identifier.IsNumeral)) ∧
      ((outcome.violations = [] ↔ ReadsAs text (HasFields Identifier.IsPlain)) ↔
        ¬ ReadsAs text
          (HasFields fun core => Identifier.IsNumeral core ∧ ¬ Identifier.IsPlain core)) := by
  obtain ⟨outcome, hcomes, hskipped, hnothing⟩ := hmanifest.exists_comesTo_valid hknown
  refine ⟨outcome, hcomes, hskipped, hnothing, ?_⟩
  rw [hnothing, readsAs_isNumeral_iff]
  constructor
  · intro hsame hother
    exact not_readsAs_both (hsame.mp (.inr hother)) hother
  · intro hnot
    exact or_iff_left hnot

def plainIdentifier : String := "00112233-4455-6677-8899-aabbccddeeff"

theorem valid_finds_nothing_iff_plain :
    HasText (.ofModule "m") (manifestHost (identifiedText plainIdentifier)) "m.psd1"
      (identifiedText plainIdentifier) ∧
    ∃ outcome, ComesTo (valid (.ofModule "m")) .none (manifestHost (identifiedText plainIdentifier))
        outcome ∧
      outcome.violations = [] := by
  have hmanifest := @hasText_identifiedText plainIdentifier (by decide)
  have hread := @read_identifiedText plainIdentifier (by decide)
  have hdigits : Identifier.digits plainIdentifier.toList = "00112233445566778899aabbccddeeff".toList := by
    decide
  have hplain : Identifier.IsPlain (Identifier.digits plainIdentifier.toList) := by
    rw [hdigits]
    exact ⟨by decide, List.all_eq_true.mp (by decide)⟩
  obtain ⟨outcome, hcomes, -, hnothing, -⟩ :=
    valid_finds_nothing_iff hmanifest (Findings.isTrue_none _ _)
  exact ⟨hmanifest, outcome, hcomes,
    hnothing.mpr ⟨_, hread, hasFields_identifiedTable_iff.mpr hplain.isNumeral⟩⟩

/-- Thirty digits behind the mark of their base. -/
def markedIdentifier : String := "0x345678901234567890123456789012"

/-- The mark of the base counts for the length, and the check passes. -/
theorem marked_identifier_passes :
    HasText (.ofModule "m") (manifestHost (identifiedText markedIdentifier)) "m.psd1"
      (identifiedText markedIdentifier) ∧
    (∃ outcome, ComesTo (valid (.ofModule "m")) .none (manifestHost (identifiedText markedIdentifier))
        outcome ∧
      outcome.violations = []) ∧
    ¬ ReadsAs (identifiedText markedIdentifier) (HasFields Identifier.IsPlain) := by
  have hmanifest := @hasText_identifiedText markedIdentifier (by decide)
  have hread := @read_identifiedText markedIdentifier (by decide)
  have hnumeral : Identifier.IsNumeral (Identifier.digits markedIdentifier.toList) :=
    DscAudit.Manifest.Identifier.isValid_iff.mp (by decide)
  obtain ⟨outcome, hcomes, -, hnothing⟩ :=
    hmanifest.exists_comesTo_valid (Findings.isTrue_none _ _)
  refine ⟨hmanifest, ⟨outcome, hcomes,
    hnothing.mpr ⟨_, hread, hasFields_identifiedTable_iff.mpr hnumeral⟩⟩, ?_⟩
  rintro ⟨table, hread', hfields⟩
  cases hread.symm.trans hread'
  have hplain := hasFields_identifiedTable_iff.mp hfields
  have hmark : (Text.hexValue? 'x').isSome := hplain.digits 'x' (by decide)
  cases hmark

end DscAudit.Check.Manifest

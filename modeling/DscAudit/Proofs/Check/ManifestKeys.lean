import DscAudit.Proofs.Check.Offline
import DscAudit.Proofs.Check.Scripts
import DscAudit.Proofs.Value.Table

/-!
# Keys of a manifest

A field of a manifest is looked up under its key as it is and then in any case.  Where no two keys are the
same in lower case, both ways lead to the one entry that there is, so it does not matter in which order the
entries stand and how their keys are written.  What the checks of the manifest come to then depends on the
entries alone.
-/

namespace DscAudit

open DscAudit.Action

/-! ## Looking up in any case -/

namespace DataFile

open Text (lowerString)

variable {table table' : Table}

/-- The table with its keys in lower case. -/
def lowered (table : Table) : Table := table.map fun entry => (lowerString entry.1, entry.2)

/-- No two keys of the table are the same in lower case. -/
def HasDistinctKeys (table : Table) : Prop := ((lowered table).map (·.1)).Nodup

instance : Decidable (HasDistinctKeys table) := inferInstanceAs (Decidable (List.Nodup _))

/-- The tables have the same entries, in whatever order and with their keys in whatever case. -/
def SameEntries (table table' : Table) : Prop := (lowered table).Perm (lowered table')

theorem SameEntries.hasDistinctKeys (hsame : SameEntries table table')
    (hdistinct : HasDistinctKeys table) : HasDistinctKeys table' :=
  (hsame.map Prod.fst).nodup_iff.mp hdistinct

/-- What is found under a key stands under it in lower case. -/
theorem mem_lowered_of_lookup? {key : String} {value : Value}
    (hfound : lookup? table key = some value) : (lowerString key, value) ∈ lowered table := by
  unfold lookup? at hfound
  rcases Option.or_eq_some_iff.mp hfound with hexact | ⟨-, hany⟩
  · exact List.mem_map.mpr ⟨(key, value), Entries.mem_of_get? hexact, rfl⟩
  · obtain ⟨entry, hentry, rfl⟩ := Option.map_eq_some_iff.mp hany
    have hkey : lowerString entry.1 = lowerString key := by simpa using List.find?_some hentry
    exact List.mem_map.mpr ⟨entry, List.mem_of_find?_eq_some hentry, by rw [hkey]⟩

/-- Whatever stands under the key in lower case, something is found under it. -/
theorem isSome_lookup? {key : String} {value : Value}
    (hmem : (lowerString key, value) ∈ lowered table) : (lookup? table key).isSome := by
  obtain ⟨entry, hentry, hsame⟩ := List.mem_map.mp hmem
  have hkey : lowerString entry.1 = lowerString key := congrArg Prod.fst hsame
  have hany : (table.find? fun entry => lowerString entry.1 == lowerString key).isSome := by
    rw [List.find?_isSome]
    exact ⟨entry, hentry, by simp [hkey]⟩
  unfold lookup?
  simp [hany]

/-- Where no two keys are the same in lower case, a key is looked up as if all were written so. -/
theorem lookup?_eq_get?_lowered (hdistinct : HasDistinctKeys table) (key : String) :
    lookup? table key = (lowered table).get? (lowerString key) := by
  ext value
  rw [Entries.get?_eq_some_iff_mem hdistinct]
  refine ⟨mem_lowered_of_lookup?, fun hmem => ?_⟩
  obtain ⟨found, hfound⟩ := Option.isSome_iff_exists.mp (isSome_lookup? hmem)
  -- both stand under the one key that there is
  have heq : found = value := Option.some.inj <|
    (Entries.get?_of_mem hdistinct (mem_lowered_of_lookup? hfound)).symm.trans
      (Entries.get?_of_mem hdistinct hmem)
  rw [hfound, heq]

theorem SameEntries.lookup?_eq (hsame : SameEntries table table') (hdistinct : HasDistinctKeys table)
    (key : String) : lookup? table key = lookup? table' key := by
  rw [lookup?_eq_get?_lowered hdistinct, lookup?_eq_get?_lowered (hsame.hasDistinctKeys hdistinct),
    Entries.get?_eq_of_perm hsame hdistinct]

end DataFile

/-! ## The checks -/

namespace Check.Manifest

open DataFile (SameEntries HasDistinctKeys)
open DscAudit.Manifest (Content candidates choose?)

variable {table table' : Table}

section Fields

variable (hsame : SameEntries table table') (hdistinct : HasDistinctKeys table)
include hsame hdistinct

theorem field?_eq (key : String) : field? table key = field? table' key := by
  unfold field?
  rw [hsame.lookup?_eq hdistinct]

theorem faults_eq : faults table = faults table' := by
  simp only [faults, fieldFault?, textFault?, field?_eq hsame hdistinct]

end Fields

/-- The manifest of the module is the file with this name, which holds this text. -/
structure HasText (subject : Subject) (host : Host) (name : String) (text : List Char) : Prop where
  chosen : ∃ names, (candidates subject.root).exec host = (.ok names, host) ∧
    choose? subject.root.name names = some name
  holds : ∃ octets, (readFile (subject.root.child name)).exec host = (.ok octets, host) ∧
    Text.readTextFile? octets = some text

/-- The check comes to the outcome. -/
def ComesTo (step : Checking Outcome) (known : Findings) (host : Host) (outcome : Outcome) : Prop :=
  ∃ known' after, (step.run known).exec host = (.ok (outcome, known'), after)

variable {subject : Subject} {host : Host} {known : Findings} {name : String} {text : List Char}

/-- What there is to know of a manifest with a text. -/
def contentOf (name : String) (text : List Char) : Content :=
  match DataFile.read text with
  | .ok table => .entries name table
  | .error fault => .unreadable name fault.message

theorem HasText.exec_load (hmanifest : HasText subject host name text) :
    (Content.load subject.root).exec host = (.ok (contentOf name text), host) := by
  obtain ⟨⟨names, hnames, hchosen⟩, octets, hoctets, htext⟩ := hmanifest
  have hcontent : Content.ofFile name octets = contentOf name text := by
    unfold Content.ofFile
    rw [htext]
    rfl
  unfold Content.load
  rw [exec_bind_ok hnames, hchosen]
  dsimp only
  rw [exec_bind_ok hoctets, hcontent]
  rfl

/-- The manifest is read, or was read before. -/
theorem HasText.exec_content (hmanifest : HasText subject host name text)
    (hknown : known.IsTrue subject host) : ∃ known',
      ((content subject).run known).exec host = (.ok (contentOf name text, known'), host) := by
  have hload := hmanifest.exec_load
  rw [run_content]
  cases hfound : known.manifest with
  | none => exact ⟨_, exec_bind_ok hload _⟩
  | some content =>
    have hcontent := (hknown content hfound).symm.trans hload
    cases hcontent
    exact ⟨known, rfl⟩

theorem HasText.comesTo_valid (hmanifest : HasText subject host name text)
    (hread : DataFile.read text = .ok table) (hknown : known.IsTrue subject host) :
    ComesTo (valid subject) known host
      (.found ((faults table).map fun fault => .ofFile fault.code fault.message name) []) := by
  obtain ⟨known', hcontent⟩ := hmanifest.exec_content hknown
  rw [contentOf, hread] at hcontent
  unfold valid
  exact ⟨known', host, by rw [Checking.exec_bind_ok hcontent]; rfl⟩

theorem HasText.comesTo_unreadable (hmanifest : HasText subject host name text)
    {fault : DataFile.Fault} (hread : DataFile.read text = .error fault)
    (hknown : known.IsTrue subject host) :
    ComesTo (valid subject) known host (.found [.ofFile "MANIFEST_PARSE_ERROR"
      ("manifest cannot be read: " ++ fault.message) name] []) := by
  obtain ⟨known', hcontent⟩ := hmanifest.exec_content hknown
  rw [contentOf, hread] at hcontent
  unfold valid
  exact ⟨known', host, by rw [Checking.exec_bind_ok hcontent]; rfl⟩

theorem HasText.comesTo_powerShellVersion (hmanifest : HasText subject host name text)
    (hread : DataFile.read text = .ok table) (hknown : known.IsTrue subject host) :
    ComesTo (powerShellVersion subject) known host
      (versionOutcome name subject.config.minPowerShellVersion (field? table "PowerShellVersion")) := by
  obtain ⟨known', hcontent⟩ := hmanifest.exec_content hknown
  rw [contentOf, hread] at hcontent
  unfold powerShellVersion
  exact ⟨known', host, by rw [Checking.exec_bind_ok hcontent]; rfl⟩

/-- Two manifests with the same name whose texts are read as tables with the same entries, in whatever
order and with keys in whatever case, come to the same in both checks, if no two keys of a table are the
same in lower case. -/
theorem verdicts_ignore_order_and_case {host' : Host} {known' : Findings} {text' : List Char}
    (hmanifest : HasText subject host name text) (hmanifest' : HasText subject host' name text')
    (hknown : known.IsTrue subject host) (hknown' : known'.IsTrue subject host')
    (hread : DataFile.read text = .ok table) (hread' : DataFile.read text' = .ok table')
    (hsame : SameEntries table table') (hdistinct : HasDistinctKeys table) :
    ∀ check ∈ [valid, powerShellVersion], ∃ outcome,
      ComesTo (check subject) known host outcome ∧ ComesTo (check subject) known' host' outcome := by
  intro check hcheck
  simp only [List.mem_cons, List.not_mem_nil, or_false] at hcheck
  rcases hcheck with rfl | rfl
  · refine ⟨_, hmanifest.comesTo_valid hread hknown, ?_⟩
    rw [faults_eq hsame hdistinct]
    exact hmanifest'.comesTo_valid hread' hknown'
  · refine ⟨_, hmanifest.comesTo_powerShellVersion hread hknown, ?_⟩
    rw [field?_eq hsame hdistinct]
    exact hmanifest'.comesTo_powerShellVersion hread' hknown'

/-- A manifest, and the same one with its entries turned round and its keys in another case. -/
def writtenText : List Char := "@\x7b Author = 'a'; guid = 'b' \x7d".toList

def rewrittenText : List Char := "@\x7b GUID = 'b'; author = 'a' \x7d".toList

/-- A module with this manifest. -/
def manifestHost (text : List Char) : Host :=
  scriptHost [(["m", "m.psd1"], .file (Text.Utf8.encode text))]

theorem hasText_manifestHost {text : List Char}
    (htext : Text.readTextFile? (Text.Utf8.encode text) = some text) :
    HasText (.ofModule "m") (manifestHost text) "m.psd1" text where
  chosen := by
    have hnames : (File.namesIn (Subject.ofModule "m").root File.isFileNode).exec
        (manifestHost text) = (.ok ["m.psd1"], manifestHost text) := by
      show (Except.ok (["m.psd1"].mergeSort _), _) = _
      rw [List.mergeSort_singleton]
      rfl
    have hcandidates : (candidates (Subject.ofModule "m").root).exec (manifestHost text) =
        (.ok ["m.psd1"], manifestHost text) := by
      have hsuffix : ["m.psd1"].filter (fun name =>
          Text.lowerString (Path.splitName name).2 == DscAudit.Manifest.suffix) = ["m.psd1"] := by
        decide
      unfold candidates
      rw [exec_bind_ok hnames, hsuffix]
      rfl
    exact ⟨["m.psd1"], hcandidates, by decide⟩
  holds := ⟨Text.Utf8.encode text, rfl, htext⟩

theorem verdicts_ignore_order_and_case_rewritten :
    SameEntries [("Author", .text "a"), ("guid", .text "b")]
        [("GUID", .text "b"), ("author", .text "a")] ∧
      ∀ check ∈ [valid, powerShellVersion], ∃ outcome,
        ComesTo (check (.ofModule "m")) .none (manifestHost writtenText) outcome ∧
          ComesTo (check (.ofModule "m")) .none (manifestHost rewrittenText) outcome := by
  have hsame : SameEntries [("Author", .text "a"), ("guid", .text "b")]
      [("GUID", .text "b"), ("author", .text "a")] := by
    have hlowered : DataFile.lowered [("Author", .text "a"), ("guid", .text "b")] =
        (DataFile.lowered [("GUID", .text "b"), ("author", .text "a")]).reverse := by cbv
    rw [SameEntries, hlowered]
    exact List.reverse_perm _
  exact ⟨hsame, verdicts_ignore_order_and_case (hasText_manifestHost (by decide))
    (hasText_manifestHost (by decide)) (Findings.isTrue_none _ _) (Findings.isTrue_none _ _)
    (by cbv) (by cbv) hsame (by decide)⟩

end Check.Manifest

end DscAudit

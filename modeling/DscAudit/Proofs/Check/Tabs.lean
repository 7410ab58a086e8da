import DscAudit.Proofs.Check.ResourceFiles
import DscAudit.Proofs.Check.Scripts
import DscAudit.Proofs.File.Walk
import DscAudit.Proofs.Text.Numbering

/-!
# Tabs by line and column

The check for tabs reports the first tab of each line that has one.  Its lines end also at characters that
an editor shows in the middle of a line, such as a form feed, so a tab behind one of these is reported on
a later line than an editor shows, and at another column.  Where no such character comes before a tab, the
two agree, and nowhere else.
-/

namespace DscAudit

open DscAudit.Action

namespace Check.Formatting

open Text (isLineBreak lines lineEnds lowerString EndsWithLine firstLine)

variable {ends ends' : Char → Bool} {text before behind : List Char} {place : Nat × Nat} {c : Char}

/-! ## First tabs of lines -/

/-- The place is that of the first tab on a line: the number of the line, and that of the column. -/
def IsFirstTab (ends : Char → Bool) (text : List Char) (place : Nat × Nat) : Prop :=
  ∃ before line behind, text = before ++ line ++ '\t' :: behind ∧ EndsWithLine ends before ∧
    (∀ c ∈ line, ends c = false ∧ c ≠ '\t') ∧ place = (lineEnds ends before + 1, line.length + 1)

/-- The places are those of the first tabs on lines, one for each line with a tab, in order. -/
structure ListsFirstTabs (ends : Char → Bool) (text : List Char) (places : List (Nat × Nat)) : Prop where
  mem_iff : ∀ place, place ∈ places ↔ IsFirstTab ends text place
  increasing : places.Pairwise fun place other => place.1 < other.1

theorem idxOf_tab {line : List Char} (hfree : '\t' ∉ line) (behind : List Char) :
    (line ++ '\t' :: behind).idxOf '\t' = line.length := by
  rw [List.idxOf_append_of_notMem hfree, List.idxOf_cons_self, Nat.add_zero]

theorem mem_tabs_iff : place ∈ tabs text ↔ IsFirstTab isLineBreak text place := by
  simp only [tabs, List.mem_filterMap, List.mem_zipIdx_iff_getElem?, List.contains_iff_mem,
    Option.ite_none_right_eq_some, Option.some.injEq, Prod.exists]
  constructor
  · rintro ⟨whole, number, hline, htab, rfl⟩
    obtain ⟨before, rest, rfl, hbefore, hwhole, rfl⟩ := Text.exists_of_getElem?_lines hline
    obtain ⟨line, behind, rfl, hfree⟩ := List.eq_append_cons_of_mem htab
    refine ⟨before, line, behind ++ rest, by simp, hbefore, fun c hc => ⟨?_, ?_⟩, ?_⟩
    · exact hwhole c (List.mem_append_left _ hc)
    · exact fun heq => hfree (heq ▸ hc)
    · rw [idxOf_tab hfree]
  · rintro ⟨before, line, behind, rfl, hbefore, hline, rfl⟩
    have hfree : '\t' ∉ line := fun hmem => (hline _ hmem).2 rfl
    have hplain : ∀ c ∈ line, (!isLineBreak c) = true := fun c hc => by simp [(hline c hc).1]
    have hfirst : firstLine (line ++ '\t' :: behind) = line ++ '\t' :: firstLine behind := by
      rw [firstLine, List.takeWhile_append_of_pos hplain, List.takeWhile_cons_of_pos rfl, firstLine]
    have hhead : (line ++ '\t' :: behind).head? ≠ some '\n' :=
      Text.head?_append_ne_newline
        (Text.head?_unbroken_ne_newline rfl fun c hc => (hline c hc).1) (by simp)
    refine ⟨line ++ '\t' :: firstLine behind, lineEnds isLineBreak before, ?_, by simp, ?_⟩
    · rw [List.append_assoc, Text.getElem?_lines_append hbefore (by simp) hhead, hfirst]
    · rw [idxOf_tab hfree]

theorem tabs_listsFirstTabs (text : List Char) : ListsFirstTabs isLineBreak text (tabs text) := by
  refine ⟨fun place => mem_tabs_iff, List.pairwise_filterMap.mpr ?_⟩
  have hnumbers : (lines text).zipIdx.Pairwise fun line other => line.2 < other.2 := by
    rw [← List.pairwise_map (f := Prod.snd), List.zipIdx_map_snd]
    exact List.pairwise_lt_range'
  refine hnumbers.imp fun {line other} hlt place hplace place' hplace' => ?_
  simp only [Option.ite_none_right_eq_some, Option.some.injEq] at hplace hplace'
  rw [← hplace.2, ← hplace'.2]
  exact Nat.succ_lt_succ hlt

/-! ## Tabs and their lines -/

/-- Any tab stands on a line with a first one. -/
theorem exists_isFirstTab (ends : Char → Bool) (hreturn : ends '\r' = true) (hnewline : ends '\n' = true)
    (htab : ends '\t' = false) (before behind : List Char) :
    ∃ place, IsFirstTab ends (before ++ '\t' :: behind) place ∧ place.1 = lineEnds ends before + 1 := by
  obtain ⟨front, line, rfl, hfront, hline⟩ := Text.exists_last_line ends before
  obtain ⟨first, rest, hsplit, hfree⟩ :=
    List.eq_append_cons_of_mem (List.mem_concat_self : '\t' ∈ line ++ ['\t'])
  have hplain : ∀ c ∈ line ++ ['\t'], ends c = false :=
    List.forall_mem_append.mpr ⟨hline, List.forall_mem_singleton.mpr htab⟩
  refine ⟨(lineEnds ends front + 1, first.length + 1),
    ⟨front, first, rest ++ behind, ?_, hfront, ?_, rfl⟩, ?_⟩
  · have hwhole := congrArg (front ++ · ++ behind) hsplit
    simpa using hwhole
  · exact fun c hc => ⟨hplain c (hsplit ▸ List.mem_append_left _ hc), fun heq => hfree (heq ▸ hc)⟩
  · rw [Text.lineEnds_append_unbroken hreturn hnewline hline]

/-- The first tab of a line is a tab on that line. -/
theorem IsFirstTab.exists_tab (hplace : IsFirstTab ends text place) (hreturn : ends '\r' = true)
    (hnewline : ends '\n' = true) :
    ∃ before behind, text = before ++ '\t' :: behind ∧ place.1 = lineEnds ends before + 1 := by
  obtain ⟨before, line, behind, rfl, -, hline, rfl⟩ := hplace
  refine ⟨before ++ line, behind, rfl, ?_⟩
  rw [Text.lineEnds_append_unbroken hreturn hnewline fun c hc => (hline c hc).1]

/-- Only the characters before a tab decide on which line and where on it the tab stands. -/
theorem IsFirstTab.congr (hplace : IsFirstTab ends text place) (hnewline : ends '\n' = ends' '\n')
    (hsame : ∀ before behind, text = before ++ '\t' :: behind → ∀ c ∈ before, ends c = ends' c) :
    IsFirstTab ends' text place := by
  obtain ⟨before, line, behind, rfl, hbefore, hline, rfl⟩ := hplace
  have hsame := hsame _ _ rfl
  refine ⟨before, line, behind, rfl, fun c hc => ?_, fun c hc => ⟨?_, (hline c hc).2⟩, ?_⟩
  · rw [← hsame c (List.mem_append_left _ (List.mem_of_getLast? hc))]
    exact hbefore c hc
  · rw [← hsame c (List.mem_append_right _ hc)]
    exact (hline c hc).1
  · rw [Text.lineEnds_congr hnewline fun c hc => hsame c (List.mem_append_left _ hc)]

/-- The last tab of a text with tabs: any other one stands before it. -/
theorem exists_last_tab (hmem : '\t' ∈ text) :
    ∃ before behind, text = before ++ '\t' :: behind ∧
      ∀ before' behind', text = before' ++ '\t' :: behind' → before' <+: before := by
  obtain ⟨rest, front, hsplit, hfree⟩ := List.eq_append_cons_of_mem (List.mem_reverse.mpr hmem)
  have htext : text = front.reverse ++ '\t' :: rest.reverse := by
    rw [← List.reverse_reverse text, hsplit]
    simp
  refine ⟨front.reverse, rest.reverse, htext, fun before' behind' hother => ?_⟩
  rcases List.append_eq_append_iff.mp (hother.symm.trans htext) with
    ⟨more, hmore, -⟩ | ⟨more, hmore, hrest⟩
  · exact ⟨more, hmore.symm⟩
  · cases more with
    | nil => exact ⟨[], by simpa using hmore⟩
    | cons c more =>
      have htab : '\t' ∈ rest.reverse := by
        rw [(List.cons.inj hrest).2]
        simp
      exact absurd (List.mem_reverse.mp htab) hfree

/-! ## What an editor shows -/

/-- The characters that end a line in an editor: carriage returns and line feeds. -/
def endsEditorLine (c : Char) : Bool := c == '\r' || c == '\n'

theorem isLineBreak_of_endsEditorLine (hc : endsEditorLine c = true) : isLineBreak c = true := by
  rcases Bool.or_eq_true_iff.mp hc with hc | hc <;> rw [beq_iff_eq.mp hc] <;> rfl

/-- No character that ends a line only for the check comes before a tab. -/
def HasEditorLines (text : List Char) : Prop :=
  ∀ before behind, text = before ++ '\t' :: behind →
    ∀ c ∈ before, isLineBreak c = true → endsEditorLine c = true

theorem HasEditorLines.isFirstTab_iff (htext : HasEditorLines text) :
    IsFirstTab isLineBreak text place ↔ IsFirstTab endsEditorLine text place := by
  have hsame : ∀ before behind, text = before ++ '\t' :: behind →
      ∀ c ∈ before, isLineBreak c = endsEditorLine c := fun before behind hsplit c hc =>
    Bool.eq_iff_iff.mpr ⟨htext before behind hsplit c hc, isLineBreak_of_endsEditorLine⟩
  exact ⟨fun h => h.congr rfl hsame,
    fun h => h.congr rfl fun before behind hsplit c hc => (hsame before behind hsplit c hc).symm⟩

/-- The line of the last tab comes later than all that an editor shows tabs on, if it comes later at all. -/
theorem hasEditorLines_of_isFirstTab_iff
    (hiff : ∀ place, IsFirstTab isLineBreak text place ↔ IsFirstTab endsEditorLine text place) :
    HasEditorLines text := by
  intro tab behindTab htab c hc hbreak
  by_contra heditor
  have hmem : '\t' ∈ text := htab ▸ List.mem_append_right _ List.mem_cons_self
  obtain ⟨before, behind, hlast, hbefore⟩ := exists_last_tab hmem
  obtain ⟨place, hplace, hnumber⟩ := exists_isFirstTab isLineBreak rfl rfl rfl before behind
  rw [← hlast] at hplace
  obtain ⟨shown, behindShown, hshown, hnumber'⟩ := ((hiff place).mp hplace).exists_tab rfl rfl
  obtain ⟨more, hmore⟩ := hbefore shown behindShown hshown
  have hle : lineEnds endsEditorLine shown ≤ lineEnds endsEditorLine before :=
    hmore ▸ Text.lineEnds_le_append endsEditorLine shown more
  have hlt : lineEnds endsEditorLine before < lineEnds isLineBreak before := by
    have hbreakMem : c ∈ before := (hbefore tab behindTab htab).subset hc
    refine Text.lineEnds_lt (fun _ => isLineBreak_of_endsEditorLine) hbreakMem ?_
      (Bool.of_not_eq_true heditor) hbreak
    rintro rfl
    exact heditor rfl
  omega

/-- The tabs are listed as an editor shows them exactly if no other line end comes before one. -/
theorem tabs_listsFirstTabs_editor_iff :
    ListsFirstTabs endsEditorLine text (tabs text) ↔ HasEditorLines text := by
  constructor
  · exact fun hlists => hasEditorLines_of_isFirstTab_iff fun place =>
      mem_tabs_iff.symm.trans (hlists.mem_iff place)
  · exact fun htext => ⟨fun place => mem_tabs_iff.trans htext.isFirstTab_iff,
      (tabs_listsFirstTabs text).increasing⟩

/-! ## The check -/

variable {subject : Subject} {host : Host} {root : Place}

/-- The file is one of those that the check looks into. -/
def IsTextFile (subject : Subject) (volume : Volume) (root : Place) (file : Path) : Prop :=
  File.IsBelow volume root subject.config.excludedDirectories file ∧
    (lowerString file.suffix ∈ subject.config.textExtensions.map lowerString ∨
      lowerString file.name ∈ subject.config.textExtensions.map lowerString)

theorem exec_textFiles (htree : Resource.IsModuleTree subject host root) :
    ∃ files, (textFiles subject).exec host = (.ok files, host) ∧
      ∀ file, file ∈ files ↔ IsTextFile subject host.volume root file := by
  obtain ⟨files, hall, hfiles⟩ :=
    File.exec_all htree.proper htree.leads subject.config.excludedDirectories
  refine ⟨_, File.exec_withExtension_of_all hall subject.config.textExtensions, fun file => ?_⟩
  rw [List.mem_filter, hfiles, decide_eq_true_iff, IsTextFile]

/-- What files bring is found one file after the other. -/
theorem exec_inFiles (htree : Resource.IsModuleTree subject host root) {files : List Path}
    (hfiles : ∀ file ∈ files, IsTextFile subject host.volume root file)
    (look : String → Text.Octets → List Violation) (known : Findings) :
    ((inFiles subject files look).run known).exec host =
      (.ok (.found (files.flatMap fun file =>
          look file.toString (host.volume.content (root ++ file.parts)))
        [("files", .int files.length)], known), host) := by
  have hloop : ∀ file ∈ files, ((do
      let content ← Action.readFile (subject.path file)
      return look file.toString content : Checking (List Violation)).run known).exec host =
      (.ok (look file.toString (host.volume.content (root ++ file.parts)), known), host) := by
    intro file hfile
    have hread : (readFile (subject.path file)).exec host = _ :=
      (hfiles file hfile).1.exec_readFile htree.proper htree.readable htree.noNull htree.leads
    rw [Checking.exec_bind_ok (Checking.exec_lift_ok hread known)]
    rfl
  unfold inFiles
  rw [Checking.exec_bind_ok (Checking.exec_mapM_ok hloop), List.flatMap_def]
  rfl

/-- What is written in a file. -/
def textAt (volume : Volume) (root : Place) (file : Path) : List Char :=
  Text.decodeUtf8 (volume.content (root ++ file.parts))

def tabViolation (file : Path) (place : Nat × Nat) : Violation :=
  .atPlace "FILE_TAB_CHARACTER" "line contains a tab character; indent with spaces" file.toString
    place.1 place.2

theorem exec_tabCharacters (htree : Resource.IsModuleTree subject host root) {files : List Path}
    (hexec : (textFiles subject).exec host = (.ok files, host))
    (hfiles : ∀ file ∈ files, IsTextFile subject host.volume root file) (known : Findings) :
    ((tabCharacters subject).run known).exec host =
      (.ok (.found (files.flatMap fun file =>
          (tabs (textAt host.volume root file)).map (tabViolation file))
        [("files", .int files.length)], known), host) := by
  unfold tabCharacters
  rw [Checking.exec_bind_ok (Checking.exec_lift_ok hexec known), exec_inFiles htree hfiles]
  rfl

/-- The check looks into all text files and reports the first tabs of lines, in order, where the lines of
a text end at any character that ends a line.  These are the lines and columns that an editor shows exactly
if no characters but carriage returns and line feeds end lines before a tab. -/
theorem tabCharacters_reports_first_tabs (htree : Resource.IsModuleTree subject host root)
    (known : Findings) :
    ∃ files, (textFiles subject).exec host = (.ok files, host) ∧
      (∀ file, file ∈ files ↔ IsTextFile subject host.volume root file) ∧
      ((tabCharacters subject).run known).exec host =
        (.ok (.found (files.flatMap fun file =>
            (tabs (textAt host.volume root file)).map (tabViolation file))
          [("files", .int files.length)], known), host) ∧
      ∀ file ∈ files, let text := textAt host.volume root file
        ListsFirstTabs isLineBreak text (tabs text) ∧
          (ListsFirstTabs endsEditorLine text (tabs text) ↔ HasEditorLines text) := by
  obtain ⟨files, hexec, hfiles⟩ := exec_textFiles htree
  exact ⟨files, hexec, hfiles, exec_tabCharacters htree hexec (fun file => (hfiles file).mp) known,
    fun file _ => ⟨tabs_listsFirstTabs _, tabs_listsFirstTabs_editor_iff⟩⟩

/-- A text with a form feed before its tab. -/
def formFeedText : List Char := "a\x0cb\tc\n".toList

/-- A module with one script, in which the text stands. -/
def formFeedHost : Host := scriptHost [(["m", "a.ps1"], .file (Text.Utf8.encode formFeedText))]

def formFeedFile : Path := ⟨.relative, ["a.ps1"]⟩

theorem isModuleTree_formFeedHost : Resource.IsModuleTree (.ofModule "m") formFeedHost ["m"] where
  proper := ⟨by decide, Volume.isTree_of_entries (by decide), by decide⟩
  readable := by
    unfold Volume.HasReadableNames
    decide
  leads := ⟨rfl, rfl⟩
  noNull := by decide

theorem textAt_formFeedHost : textAt formFeedHost.volume ["m"] formFeedFile = formFeedText := by
  decide

theorem isTextFile_formFeedHost {file : Path} :
    IsTextFile (.ofModule "m") formFeedHost.volume ["m"] file ↔ file = formFeedFile := by
  constructor
  · rintro ⟨⟨hrelative, hparts, ⟨content, hfound⟩, -⟩, -⟩
    obtain ⟨pathRoot, parts⟩ := file
    cases hrelative
    have hmem : (["m"] ++ parts, Node.file content) ∈ formFeedHost.volume.entries :=
      Volume.mem_of_find?_eq_some (by simp) hfound
    obtain ⟨rfl, -⟩ : parts = ["a.ps1"] ∧ content = Text.Utf8.encode formFeedText := by
      simpa [formFeedHost, scriptHost, Host.holding] using hmem
    rfl
  · rintro rfl
    exact ⟨⟨rfl, by decide, ⟨_, rfl⟩, by decide⟩, by decide⟩

theorem tabCharacters_reports_first_tabs_formFeed :
    Resource.IsModuleTree (.ofModule "m") formFeedHost ["m"] ∧
      ListsFirstTabs isLineBreak (textAt formFeedHost.volume ["m"] formFeedFile) [(2, 2)] ∧
      ¬ ListsFirstTabs endsEditorLine (textAt formFeedHost.volume ["m"] formFeedFile) [(2, 2)] := by
  have htabs : tabs (textAt formFeedHost.volume ["m"] formFeedFile) = [(2, 2)] := by decide
  obtain ⟨files, -, hfiles, -, hlists⟩ :=
    tabCharacters_reports_first_tabs isModuleTree_formFeedHost .none
  obtain ⟨hfirst, hshown⟩ := hlists formFeedFile ((hfiles _).mpr (isTextFile_formFeedHost.mpr rfl))
  rw [htabs] at hfirst hshown
  refine ⟨isModuleTree_formFeedHost, hfirst, fun hlists => ?_⟩
  have hlines := hshown.mp hlists ['a', '\x0c', 'b'] ['c', '\n'] (by decide) '\x0c' (by decide) rfl
  revert hlines
  decide

theorem exec_textFiles_formFeedHost :
    (textFiles (.ofModule "m")).exec formFeedHost = (.ok [formFeedFile], formFeedHost) := by
  have hbelow : (below (Subject.ofModule "m").root).exec formFeedHost =
      (.ok [(formFeedFile, .file (Text.Utf8.encode formFeedText))], formFeedHost) := rfl
  have hall : (File.all (Subject.ofModule "m").root Config.default.excludedDirectories).exec
      formFeedHost = (.ok [formFeedFile], formFeedHost) := by
    unfold File.all
    rw [exec_bind_ok hbelow]
    show (Except.ok ([formFeedFile].mergeSort _), _) = _
    rw [List.mergeSort_singleton]
  have hfiles := File.exec_withExtension_of_all hall Config.default.textExtensions
  rwa [List.filter_cons_of_pos (by decide)] at hfiles

/-- The tab behind the form feed is on the first line that an editor shows, and reported on the second
one. -/
theorem tab_behind_form_feed :
    ((tabCharacters (.ofModule "m")).run .none).exec formFeedHost =
        (.ok (.found [tabViolation formFeedFile (2, 2)] [("files", .int 1)], .none), formFeedHost) ∧
      textAt formFeedHost.volume ["m"] formFeedFile = formFeedText ∧
      IsFirstTab endsEditorLine formFeedText (1, 4) ∧
      ¬ ListsFirstTabs endsEditorLine formFeedText [(2, 2)] := by
  have hshown : IsFirstTab endsEditorLine formFeedText (1, 4) :=
    ⟨[], ['a', '\x0c', 'b'], ['c', '\n'], by decide, nofun, by simp [endsEditorLine], rfl⟩
  have htabs : tabs (textAt formFeedHost.volume ["m"] formFeedFile) = [(2, 2)] := by decide
  refine ⟨?_, textAt_formFeedHost, hshown, fun hlists => ?_⟩
  · rw [exec_tabCharacters isModuleTree_formFeedHost exec_textFiles_formFeedHost
      (List.forall_mem_singleton.mpr (isTextFile_formFeedHost.mpr rfl)), List.flatMap_singleton, htabs]
    rfl
  · have hmem := (hlists.mem_iff (1, 4)).mpr hshown
    simp at hmem

end Check.Formatting

end DscAudit

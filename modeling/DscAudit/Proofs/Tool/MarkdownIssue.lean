import DscAudit.Proofs.Decimal.Text
import DscAudit.Proofs.File.Path
import DscAudit.Proofs.File.Volume
import DscAudit.Proofs.Resource.Reading
import DscAudit.Proofs.Text.Character
import DscAudit.Proofs.Text.Cutting
import DscAudit.Tool.MarkdownIssue

/-!
# Printed issues are read again

The lint task prints each issue on a line of its own, among other lines.  The path of an issue ends where
its suffix and a colon follow each other for the first time, so a path that does not hold them itself is
found whole, and behind it there is only one way to go on.  What is printed otherwise is ignored as long as
it does not hold a suffix with a colon.

A path is shown relative to the module.  An absolute path with a null character is shown as it is, since no
file can have it.
-/

namespace DscAudit.Tool

/-! ## What is printed -/

/-- An issue of a file in the module as it is printed. -/
structure PrintedIssue where
  /-- How the path starts, relative if it is relative to the module. -/
  start : PathRoot
  /-- The path of the file within the module. -/
  parts : List String
  line : Nat
  column : Option Nat
  /-- The number of the rule. -/
  digits : List Char
  otherName : Option (List Char)
  message : List Char

/-- Does the text hold the suffix of a markdown file with a colon behind it, in any case? -/
def HasMark (s : List Char) : Prop := ".md:".toList <:+: s.map Char.toLower

instance (s : List Char) : Decidable (HasMark s) :=
  inferInstanceAs (Decidable (".md:".toList <:+: s.map Char.toLower))

/-- A text on one line, without blanks at its ends. -/
structure IsOneLine (s : List Char) : Prop where
  unbroken : ∀ c ∈ s, Text.isLineBreak c = false
  trimmed : Text.trim s = s

theorem IsOneLine.of_all {s : List Char} (hunbroken : (s.all fun c => !Text.isLineBreak c) = true)
    (htrimmed : Text.trim s = s) : IsOneLine s :=
  ⟨fun c hc => by simpa using List.all_eq_true.mp hunbroken c hc, htrimmed⟩

namespace PrintedIssue

/-- The path of the file, from the parts of the path of the module. -/
def path (base : List String) (printed : PrintedIssue) : Path :=
  ⟨printed.start, (if printed.start = .relative then [] else base) ++ printed.parts⟩

def columnText : Option Nat → List Char
  | none => []
  | some column => ':' :: Nat.toDigits 10 column

def otherNameText : Option (List Char) → List Char
  | none => []
  | some name => '/' :: name

/-- What stands on the line behind the path. -/
def behindPath (printed : PrintedIssue) : List Char :=
  ':' :: ' ' :: (Nat.toDigits 10 printed.line ++ columnText printed.column ++
    ':' :: ' ' :: 'M' :: 'D' :: (printed.digits ++ otherNameText printed.otherName ++
      ' ' :: printed.message))

/-- The line of the issue. -/
def text (base : List String) (printed : PrintedIssue) : List Char :=
  (printed.path base).toString.toList ++ printed.behindPath

/-- The issue itself, with a path. -/
def issue (printed : PrintedIssue) (path : String) : MarkdownIssue where
  path := path
  line := printed.line
  column := printed.column.getD 0
  rule := String.ofList ('M' :: 'D' :: printed.digits)
  otherName := String.ofList (printed.otherName.getD [])
  message := String.ofList printed.message

/-- The path is a normal one of a markdown file, and everything is such as it can be printed. -/
structure IsLegible (base : List String) (printed : PrintedIssue) : Prop where
  parts : ∀ part ∈ (printed.path base).parts, Path.IsPart part
  resolved : printed.start ≠ .relative → ".." ∉ printed.parts
  suffix : ∃ front, front ≠ [] ∧ (printed.path base).toString.toList = front ++ ".md".toList
  unmarked : ¬ HasMark (printed.path base).toString.toList
  pathOneLine : IsOneLine (printed.path base).toString.toList
  digits : printed.digits.length = 3 ∧ ∀ c ∈ printed.digits, Text.isDigit c = true
  otherName : ∀ name, printed.otherName = some name →
    name ≠ [] ∧ ∀ c ∈ name, MarkdownIssue.isAliasPart c = true
  message : printed.message ≠ [] ∧ IsOneLine printed.message

end PrintedIssue

/-! ## Behind the path -/

namespace MarkdownIssue

open Text (digitsValue isBlank isLineBreak trim trimStart afterWord?)

theorem digits?_append {digits rest : List Char} (hne : digits ≠ [])
    (hdigits : ∀ c ∈ digits, Text.isDigit c = true) (hrest : ∀ c ∈ rest.head?, Text.isDigit c = false) :
    digits? (digits ++ rest) = some (digits, rest) := by
  obtain ⟨htake, hdrop⟩ := Text.takeWhile_append_of_head? hdigits hrest
  have hempty : digits.isEmpty = false := by simpa using hne
  simp only [digits?, htake, hdrop, hempty, Bool.false_eq_true, if_false]

theorem isDigit_toDigits {n : Nat} : ∀ c ∈ Nat.toDigits 10 n, Text.isDigit c = true :=
  fun c hc => Text.isDigit_of_ascii (Decimal.isDigit_toDigits c hc)

theorem digitsValue_toDigits (n : Nat) : digitsValue (Nat.toDigits 10 n) = n := by
  rw [Text.digitsValue_eq_ofDigitChars Decimal.isDigit_toDigits]
  exact Nat.ofDigitChars_ten_toDigits

theorem columnOf_append (column : Option Nat) (rest : List Char) :
    columnOf (PrintedIssue.columnText column ++ ':' :: ' ' :: rest) =
      (column.getD 0, ':' :: ' ' :: rest) := by
  cases column with
  | none => rfl
  | some n =>
    have hstop : ∀ c ∈ (':' :: ' ' :: rest).head?, Text.isDigit c = false := by
      rintro _ ⟨⟩
      decide
    have hdigits := digits?_append Nat.toDigits_ne_nil (isDigit_toDigits (n := n)) hstop
    rw [PrintedIssue.columnText, List.cons_append, columnOf, hdigits]
    dsimp only
    rw [digitsValue_toDigits]
    rfl

theorem rule?_append {digits : List Char} (hlength : digits.length = 3)
    (hdigits : ∀ c ∈ digits, Text.isDigit c = true) (rest : List Char) :
    rule? ('M' :: 'D' :: (digits ++ rest)) = some ('M' :: 'D' :: digits, rest) := by
  obtain ⟨a, b, c, rfl⟩ := List.length_eq_three.mp hlength
  have hall : [a, b, c].all Text.isDigit = true := List.all_eq_true.mpr hdigits
  have hword : afterWord? "md".toList ('M' :: 'D' :: a :: b :: c :: rest) =
      some (a :: b :: c :: rest) := rfl
  simp only [rule?, List.cons_append, List.nil_append, hword, hall, if_true]

theorem otherNameOf_append {otherName : Option (List Char)}
    (hname : ∀ name, otherName = some name → name ≠ [] ∧ ∀ c ∈ name, isAliasPart c = true)
    (rest : List Char) :
    otherNameOf (PrintedIssue.otherNameText otherName ++ ' ' :: rest) =
      (otherName.getD [], ' ' :: rest) := by
  cases otherName with
  | none => rfl
  | some name =>
    obtain ⟨hne, hparts⟩ := hname name rfl
    have hstop : ∀ c ∈ (' ' :: rest).head?, isAliasPart c = false := by
      rintro _ ⟨⟩
      decide
    obtain ⟨htake, hdrop⟩ := Text.takeWhile_append_of_head? hparts hstop
    have hempty : name.isEmpty = false := by simpa using hne
    simp only [PrintedIssue.otherNameText, List.cons_append, otherNameOf, htake, hdrop, hempty,
      Bool.false_eq_true, if_false, Option.getD_some]

theorem trimStart_of_head? {s : List Char} (hs : ∀ c ∈ s.head?, isBlank c = false) : trimStart s = s := by
  cases s with
  | nil => rfl
  | cons c s => exact List.dropWhile_cons_of_neg (by simp [hs c rfl])

theorem afterBlanks?_space {s : List Char} (hs : ∀ c ∈ s.head?, isBlank c = false) :
    Text.afterBlanks? (' ' :: s) = some s :=
  congrArg some (trimStart_of_head? hs)

theorem lineNumber?_append (n : Nat) {rest : List Char}
    (hrest : ∀ c ∈ rest.head?, Text.isDigit c = false) :
    digits? (trimStart (' ' :: (Nat.toDigits 10 n ++ rest))) = some (Nat.toDigits 10 n, rest) := by
  obtain ⟨c, more, hdigits, hc⟩ := (Decimal.isWholeText_toDigits n).exists_cons
  have hshown : ∀ d ∈ (Nat.toDigits 10 n ++ rest).head?, isBlank d = false := by
    rw [hdigits]
    rintro _ ⟨⟩
    exact Text.isBlank_of_isDigit (Text.isDigit_of_ascii hc)
  have htrim : trimStart (' ' :: (Nat.toDigits 10 n ++ rest)) = Nat.toDigits 10 n ++ rest :=
    trimStart_of_head? hshown
  rw [htrim, digits?_append Nat.toDigits_ne_nil isDigit_toDigits hrest]

variable {printed : PrintedIssue} {base : List String}

/-- What is printed behind the path is read again. -/
theorem behindPath?_behindPath (hlegible : printed.IsLegible base) (path : List Char) :
    behindPath? path printed.behindPath = some (printed.issue (String.ofList path)) := by
  obtain ⟨hlength, hdigits⟩ := hlegible.digits
  obtain ⟨hmessage, hline⟩ := hlegible.message
  -- the pieces from the last one to the first one
  obtain ⟨named, hnamed⟩ : ∃ named, named =
      PrintedIssue.otherNameText printed.otherName ++ ' ' :: printed.message := ⟨_, rfl⟩
  obtain ⟨ruled, hruled⟩ : ∃ ruled, ruled = 'M' :: 'D' :: (printed.digits ++ named) := ⟨_, rfl⟩
  obtain ⟨columned, hcolumned⟩ : ∃ columned, columned =
      PrintedIssue.columnText printed.column ++ ':' :: ' ' :: ruled := ⟨_, rfl⟩
  have hsplit : printed.behindPath =
      ':' :: ' ' :: (Nat.toDigits 10 printed.line ++ columned) := by
    simp [PrintedIssue.behindPath, hcolumned, hruled, hnamed]
  have hstop : ∀ c ∈ columned.head?, Text.isDigit c = false := by
    rw [hcolumned]
    cases printed.column <;> (rintro _ ⟨⟩; decide)
  have hcolumn : columnOf columned = (printed.column.getD 0, ':' :: ' ' :: ruled) := by
    rw [hcolumned, columnOf_append]
  have hrule : Text.afterBlanks? (' ' :: ruled) = some ruled := by
    refine afterBlanks?_space ?_
    rw [hruled]
    rintro _ ⟨⟩
    decide
  have hread : rule? ruled = some ('M' :: 'D' :: printed.digits, named) := by
    rw [hruled, rule?_append hlength hdigits]
  have hname : otherNameOf named = (printed.otherName.getD [], ' ' :: printed.message) := by
    rw [hnamed, otherNameOf_append hlegible.otherName]
  have hbehind : Text.afterBlanks? (' ' :: printed.message) = some printed.message :=
    afterBlanks?_space (Text.not_isBlank_of_trim_eq hline.trimmed).1
  have hempty : printed.message.isEmpty = false := by simpa using hmessage
  rw [hsplit, behindPath?, lineNumber?_append printed.line hstop]
  simp only [Option.bind_eq_bind, Option.bind_some, hcolumn, withoutColon, hrule, hread, hname, hbehind,
    hempty, Bool.false_eq_true, if_false, digitsValue_toDigits, hline.trimmed]
  rfl

/-! ## Where the path ends -/

theorem toLower_of_sameInAnyCase {letter c : Char} (hletter : letter ∉ ['i', 's', 'k'])
    (hc : Text.sameInAnyCase letter c = true) : c.toLower = letter := by
  simp only [List.mem_cons, List.not_mem_nil, or_false, not_or] at hletter
  obtain ⟨hi, hs, hk⟩ := hletter
  simpa [Text.sameInAnyCase, hi, hs, hk] using hc

theorem map_toLower_of_spelled {word spelled : List Char}
    (hword : ∀ letter ∈ word, letter ∉ ['i', 's', 'k'])
    (hspelled : List.Forall₂ (fun letter c => Text.sameInAnyCase letter c = true) word spelled) :
    spelled.map Char.toLower = word := by
  induction hspelled with
  | nil => rfl
  | cons hc _ ih =>
    obtain ⟨hletter, hword⟩ := List.forall_mem_cons.mp hword
    rw [List.map_cons, toLower_of_sameInAnyCase hletter hc, ih hword]

/-- What is found at a place of a line begins with the mark. -/
theorem startsWith_mark {s path behind : List Char} {found : MarkdownIssue}
    (hword : afterWord? ".md".toList s = some behind) (hbehind : behindPath? path behind = some found) :
    ".md:".toList <+: s.map Char.toLower := by
  obtain ⟨more, rfl⟩ : ∃ more, behind = ':' :: more := by
    unfold behindPath? at hbehind
    split at hbehind
    · exact ⟨_, rfl⟩
    · cases hbehind
  obtain ⟨spelled, hspelled, rfl⟩ := Text.afterWord?_eq_some_iff.1 hword
  refine ⟨more.map Char.toLower, ?_⟩
  rw [List.map_append, map_toLower_of_spelled (by simp) hspelled]
  rfl

/-- Where the mark does not begin, no path ends. -/
theorem ofLineFrom?_cons {begun s : List Char} {c : Char}
    (hunmarked : ¬ ".md:".toList <+: (c :: s).map Char.toLower) :
    ofLineFrom? begun (c :: s) = ofLineFrom? (c :: begun) s := by
  rw [ofLineFrom?]
  split
  · rfl
  · split
    · rename_i behind hword
      cases hbehind : behindPath? (begun.reverse ++ (c :: s).take 3) behind with
      | none => rfl
      | some found => exact absurd (startsWith_mark hword hbehind) hunmarked
    · rfl

theorem hasMark_of_ofLineFrom? {begun s : List Char} {found : MarkdownIssue}
    (hfound : ofLineFrom? begun s = some found) : HasMark s := by
  induction s generalizing begun with
  | nil => cases hfound
  | cons c s ih =>
    by_cases hmark : ".md:".toList <+: (c :: s).map Char.toLower
    · exact hmark.isInfix
    · rw [ofLineFrom?_cons hmark] at hfound
      exact (ih hfound).trans (List.suffix_cons _ _).isInfix

/-- A line without the mark is no issue. -/
theorem ofLine?_of_not_hasMark {s : List Char} (hs : ¬ HasMark s) : ofLine? s = none := by
  by_contra hsome
  obtain ⟨found, hfound⟩ := Option.ne_none_iff_exists'.1 hsome
  exact hs ((hasMark_of_ofLineFrom? hfound).trans ((Text.trim_infix s).map _))

/-- Behind a path that does not hold the mark itself the issue is found. -/
theorem ofLineFrom?_append {begun front tail : List Char} {found : MarkdownIssue}
    (hne : begun ≠ [] ∨ front ≠ []) (hunmarked : ¬ HasMark (front ++ ".md".toList))
    (hbehind : behindPath? (begun.reverse ++ (front ++ ".md".toList)) (':' :: tail) = some found) :
    ofLineFrom? begun (front ++ ".md".toList ++ ':' :: tail) = some found := by
  induction front generalizing begun with
  | nil =>
    have hempty : begun.isEmpty = false := by simpa using hne
    have hword : afterWord? ".md".toList ('.' :: 'm' :: 'd' :: ':' :: tail) = some (':' :: tail) := rfl
    show ofLineFrom? begun ('.' :: 'm' :: 'd' :: ':' :: tail) = some found
    rw [ofLineFrom?, hempty, hword]
    exact Option.or_eq_some_iff.mpr (.inl hbehind)
  | cons c front ih =>
    -- the mark cannot begin here, since it would end within the path
    have hnot : ¬ ".md:".toList <+: (c :: front ++ ".md".toList ++ ':' :: tail).map Char.toLower := by
      intro hmark
      rw [List.map_append] at hmark
      refine hunmarked (List.IsPrefix.isInfix ?_)
      exact List.prefix_of_prefix_length_le hmark (List.prefix_append _ _) (by simp)
    have hrest : ¬ HasMark (front ++ ".md".toList) :=
      fun hmark => hunmarked (hmark.trans (List.suffix_cons _ _).isInfix)
    exact (ofLineFrom?_cons hnot).trans (ih (.inl (List.cons_ne_nil c begun)) hrest (by simpa using hbehind))

/-- The line of an issue has no blanks at its ends. -/
theorem trim_text (hlegible : printed.IsLegible base) :
    Text.trim (printed.text base) = printed.text base := by
  obtain ⟨front, hne, hsuffix⟩ := hlegible.suffix
  obtain ⟨hmessage, hline⟩ := hlegible.message
  obtain ⟨c, cs, rfl⟩ := List.exists_cons_of_ne_nil hne
  have hfirst : (printed.path base).toString.toList.head? = some c := by rw [hsuffix]; rfl
  have hlast := List.getLast?_eq_some_getLast hmessage
  have hc := (Text.not_isBlank_of_trim_eq hlegible.pathOneLine.trimmed).1 c hfirst
  have hd := (Text.not_isBlank_of_trim_eq hline.trimmed).2 _ hlast
  have hhead : (printed.text base).head? = some c := by
    rw [PrintedIssue.text, List.head?_append, hfirst]
    rfl
  have hend : (printed.text base).getLast? = some (printed.message.getLast hmessage) := by
    obtain ⟨before, hbefore⟩ : ∃ before, printed.text base = before ++ ' ' :: printed.message :=
      ⟨(printed.path base).toString.toList ++ ':' :: ' ' :: (Nat.toDigits 10 printed.line ++
        PrintedIssue.columnText printed.column ++ ':' :: ' ' :: 'M' :: 'D' :: (printed.digits ++
          PrintedIssue.otherNameText printed.otherName)),
        by simp [PrintedIssue.text, PrintedIssue.behindPath]⟩
    rw [hbefore, List.getLast?_append, List.getLast?_cons, hlast]
    rfl
  exact @Text.trim_append [] _ c _ (List.forall_mem_nil _) hhead hc hend hd

/-- The line of an issue is read as the issue. -/
theorem ofLine?_text (hlegible : printed.IsLegible base) :
    ofLine? (printed.text base) = some (printed.issue (printed.path base).toString) := by
  obtain ⟨front, hne, hsuffix⟩ := hlegible.suffix
  have hunmarked := hlegible.unmarked
  obtain ⟨tail, htail⟩ : ∃ tail, printed.behindPath = ':' :: tail := ⟨_, rfl⟩
  have hbehind := behindPath?_behindPath hlegible (printed.path base).toString.toList
  rw [String.ofList_toList] at hbehind
  rw [ofLine?, trim_text hlegible, PrintedIssue.text]
  rw [hsuffix] at hunmarked hbehind ⊢
  rw [htail] at hbehind ⊢
  exact ofLineFrom?_append (.inr hne) hunmarked hbehind

/-! ## Shown paths -/

/-- The path of an issue is shown relative to the module. -/
theorem shownPath_path {root directory : Path}
    (hlegible : printed.IsLegible (root.resolve directory).parts)
    (hnull : printed.start ≠ .relative → root.hasNull = false ∧
      (printed.path (root.resolve directory).parts).hasNull = false) :
    shownPath root directory (printed.path (root.resolve directory).parts).toString =
      Path.toString ⟨.relative, printed.parts⟩ := by
  have hread := Path.ofString_toString hlegible.parts
  have htrim := hlegible.pathOneLine.trimmed
  simp only [shownPath, htrim, String.ofList_toList, hread]
  by_cases hstart : printed.start = .relative
  · have hpath : printed.path (root.resolve directory).parts = ⟨.relative, printed.parts⟩ := by
      simp [PrintedIssue.path, hstart]
    rw [hpath]
    rfl
  · have hpath : printed.path (root.resolve directory).parts =
        ⟨printed.start, (root.resolve directory).parts ++ printed.parts⟩ := by
      simp [PrintedIssue.path, hstart]
    have habsolute : (printed.path (root.resolve directory).parts).isAbsolute = true := by
      rw [hpath]
      simpa [Path.isAbsolute] using hstart
    have hnormal : (printed.path (root.resolve directory).parts).IsNormal := by
      refine ⟨habsolute, ?_⟩
      rw [hpath, List.mem_append, not_or]
      exact ⟨Path.doublePoint_not_mem_collapse _, hlegible.resolved hstart⟩
    have hresolve : ((printed.path (root.resolve directory).parts).resolve directory).relativeTo?
        (root.resolve directory) = some ⟨.relative, printed.parts⟩ :=
      Path.relativeTo?_resolve ((hnormal.parts_resolve directory).trans (congrArg Path.parts hpath))
    rw [habsolute, (hnull hstart).1, (hnull hstart).2, hresolve]
    rfl

/-! ## Output -/

theorem isLineBreak_of_isAliasPart {c : Char} (hc : isAliasPart c = true) : isLineBreak c = false := by
  simp only [isAliasPart, Bool.or_eq_true, beq_iff_eq] at hc
  rcases hc with (hword | rfl) | rfl
  · exact Text.isLineBreak_of_isBlank (Text.isBlank_of_isWordChar hword)
  · decide
  · decide

theorem isLineBreak_of_isDigit {c : Char} (hc : Text.isDigit c = true) : isLineBreak c = false :=
  Text.isLineBreak_of_isBlank (Text.isBlank_of_isDigit hc)

/-- The line of an issue is one line. -/
theorem unbroken_text (hlegible : printed.IsLegible base) :
    ∀ c ∈ printed.text base, isLineBreak c = false := by
  have hnumber (n : Nat) : ∀ c ∈ Nat.toDigits 10 n, isLineBreak c = false :=
    fun c hc => isLineBreak_of_isDigit (isDigit_toDigits c hc)
  have hcolumn : ∀ c ∈ PrintedIssue.columnText printed.column, isLineBreak c = false := by
    cases printed.column with
    | none => exact List.forall_mem_nil _
    | some column => exact List.forall_mem_cons.mpr ⟨by decide, hnumber column⟩
  have hdigits : ∀ c ∈ printed.digits, isLineBreak c = false :=
    fun c hc => isLineBreak_of_isDigit (hlegible.digits.2 c hc)
  have hname : ∀ c ∈ PrintedIssue.otherNameText printed.otherName, isLineBreak c = false := by
    cases hother : printed.otherName with
    | none => exact List.forall_mem_nil _
    | some name =>
      exact List.forall_mem_cons.mpr ⟨by decide,
        fun c hc => isLineBreak_of_isAliasPart ((hlegible.otherName name hother).2 c hc)⟩
  simp only [PrintedIssue.text, PrintedIssue.behindPath, List.forall_mem_append, List.forall_mem_cons]
  exact ⟨hlegible.pathOneLine.unbroken, by decide, by decide, ⟨hnumber _, hcolumn⟩, by decide, by decide,
    by decide, by decide, ⟨hdigits, hname⟩, by decide, hlegible.message.2.unbroken⟩

end MarkdownIssue

/-- A line of the output: an issue, or something else. -/
inductive OutputLine where
  | issue (printed : PrintedIssue)
  | other (s : List Char)

namespace OutputLine

def text (base : List String) : OutputLine → List Char
  | issue printed => printed.text base
  | other s => s

/-- An issue that can be printed, or a line without the mark. -/
def IsLegible (base : List String) : OutputLine → Prop
  | issue printed => printed.IsLegible base
  | other s => (∀ c ∈ s, Text.isLineBreak c = false) ∧ ¬ HasMark s

/-- The issue, with the path of its file within the module. -/
def issue? : OutputLine → Option MarkdownIssue
  | issue printed => some (printed.issue (Path.toString ⟨.relative, printed.parts⟩))
  | other _ => none

end OutputLine

namespace MarkdownIssue

variable {root directory : Path}

/-- Lines with the ends behind them, and a last one with none. -/
def outputOf (base : List String) (lines : List (OutputLine × List Char)) (last : OutputLine) : List Char :=
  lines.flatMap (fun line => line.1.text base ++ line.2) ++ last.text base

/-- An issue as it is shown for the module. -/
def shownFor (root directory : Path) (issue : MarkdownIssue) : MarkdownIssue :=
  { issue with path := shownPath root directory issue.path }

theorem readAll_eq (root directory : Path) (output : List Char) :
    readAll root directory output = (Text.onLines ofLine? output).map (shownFor root directory) := rfl

theorem readAll_text {line : OutputLine}
    (hlegible : line.IsLegible (root.resolve directory).parts)
    (hnull : ∀ printed, line = .issue printed → printed.start ≠ .relative →
      root.hasNull = false ∧ (printed.path (root.resolve directory).parts).hasNull = false) :
    readAll root directory (line.text (root.resolve directory).parts) = line.issue?.toList := by
  cases line with
  | issue printed =>
    have hshown := shownPath_path hlegible (hnull printed rfl)
    rw [readAll_eq, OutputLine.text, Text.onLines_of_unbroken rfl (unbroken_text hlegible),
      ofLine?_text hlegible, Option.toList_some, List.map_singleton]
    dsimp only [shownFor, PrintedIssue.issue]
    rw [hshown]
    rfl
  | other s =>
    rw [readAll_eq, OutputLine.text, Text.onLines_of_unbroken rfl hlegible.1,
      ofLine?_of_not_hasMark hlegible.2]
    rfl

/-- A line with its end is read apart from what is behind it. -/
theorem readAll_line {line : OutputLine} {ending : List Char}
    (hlegible : line.IsLegible (root.resolve directory).parts) (hending : Text.IsLineEnd ending)
    (t : List Char) :
    readAll root directory (line.text (root.resolve directory).parts ++ ending ++ t) =
      readAll root directory (line.text (root.resolve directory).parts) ++ readAll root directory t := by
  have hunbroken : ∀ c ∈ line.text (root.resolve directory).parts, Text.isLineBreak c = false := by
    cases line with
    | issue printed => exact unbroken_text hlegible
    | other s => exact hlegible.1
  rw [readAll_eq, readAll_eq, readAll_eq, Text.onLines_line rfl hunbroken hending,
    Text.onLines_of_unbroken rfl hunbroken, List.map_append]

/-- What is printed is read again: of all lines exactly the issues, one after the other, with the paths of
their files within the module. -/
theorem readAll_outputOf {lines : List (OutputLine × List Char)} {last : OutputLine}
    (hlegible : ∀ line ∈ lines.map (·.1) ++ [last], line.IsLegible (root.resolve directory).parts)
    (hends : ∀ line ∈ lines, Text.IsLineEnd line.2)
    (hnull : ∀ printed, .issue printed ∈ lines.map (·.1) ++ [last] → printed.start ≠ .relative →
      root.hasNull = false ∧ (printed.path (root.resolve directory).parts).hasNull = false) :
    readAll root directory (outputOf (root.resolve directory).parts lines last) =
      (lines.map (·.1) ++ [last]).filterMap OutputLine.issue? := by
  induction lines with
  | nil =>
    have hlast := readAll_text (hlegible last (by simp)) fun printed heq =>
      hnull printed (by simp [heq])
    rw [outputOf, List.flatMap_nil, List.nil_append, hlast]
    cases last <;> rfl
  | cons line lines ih =>
    rw [List.forall_mem_cons] at hends
    rw [List.map_cons, List.cons_append, List.forall_mem_cons] at hlegible
    have hfirst := readAll_text hlegible.1 fun printed heq => hnull printed (by simp [heq])
    have hrest := ih hlegible.2 hends.2 fun printed hprinted =>
      hnull printed (List.mem_cons_of_mem _ hprinted)
    have hsplit : outputOf (root.resolve directory).parts (line :: lines) last =
        line.1.text (root.resolve directory).parts ++ line.2 ++
          outputOf (root.resolve directory).parts lines last := by
      simp [outputOf]
    rw [hsplit, readAll_line hlegible.1 hends.1, hfirst, hrest, List.map_cons, List.cons_append,
      List.filterMap_cons]
    cases line.1.issue? <;> rfl

def spacesIssue : PrintedIssue where
  start := .slash
  parts := ["README.md"]
  line := 3
  column := none
  digits := "009".toList
  otherName := some "no-trailing-spaces".toList
  message := "Trailing spaces".toList

def lengthIssue : PrintedIssue where
  start := .relative
  parts := ["docs", "Guide.md"]
  line := 10
  column := some 5
  digits := "013".toList
  otherName := none
  message := "Line length".toList

theorem isLegible_spacesIssue : spacesIssue.IsLegible ["r"] where
  parts := by decide
  resolved := by decide
  suffix := ⟨"/r/README".toList, by decide, by decide⟩
  unmarked := by decide
  pathOneLine := .of_all (by decide) (by decide)
  digits := ⟨rfl, List.all_eq_true.mp (by decide)⟩
  otherName := by
    rintro name ⟨⟩
    exact ⟨by decide, List.all_eq_true.mp (by decide)⟩
  message := ⟨by decide, .of_all (by decide) (by decide)⟩

theorem isLegible_lengthIssue : lengthIssue.IsLegible ["r"] where
  parts := by decide
  resolved := by decide
  suffix := ⟨"docs/Guide".toList, by decide, by decide⟩
  unmarked := by decide
  pathOneLine := .of_all (by decide) (by decide)
  digits := ⟨rfl, List.all_eq_true.mp (by decide)⟩
  otherName := nofun
  message := ⟨by decide, .of_all (by decide) (by decide)⟩

/-- Two issues with a line of the task between them. -/
theorem readAll_outputOf_two_issues :
    readAll ⟨.slash, ["r"]⟩ ⟨.slash, []⟩ (outputOf ["r"]
      [(.issue spacesIssue, ['\r', '\n']), (.other "[12:00:00] Finished".toList, ['\n'])]
      (.issue lengthIssue)) =
    [spacesIssue.issue "README.md", lengthIssue.issue "docs/Guide.md"] := by
  have hother : OutputLine.IsLegible ["r"] (.other "[12:00:00] Finished".toList) :=
    ⟨(IsOneLine.of_all (by decide) (by decide)).unbroken, by decide⟩
  have hread := @readAll_outputOf ⟨.slash, ["r"]⟩ ⟨.slash, []⟩
    [(.issue spacesIssue, ['\r', '\n']), (.other "[12:00:00] Finished".toList, ['\n'])]
    (.issue lengthIssue)
    (by
      rintro line (_ | ⟨_, _ | ⟨_, _ | ⟨_, ⟨⟩⟩⟩⟩)
      · exact isLegible_spacesIssue
      · exact hother
      · exact isLegible_lengthIssue)
    (by
      rintro line (_ | ⟨_, _ | ⟨_, ⟨⟩⟩⟩)
      · exact .inr rfl
      · exact .inl ⟨'\n', rfl, rfl⟩)
    (by
      rintro printed (_ | ⟨_, _ | ⟨_, _ | ⟨_, ⟨⟩⟩⟩⟩) hstart
      · decide
      · exact absurd rfl hstart)
  have hfirst : Path.toString ⟨.relative, spacesIssue.parts⟩ = "README.md" := by decide
  have hsecond : Path.toString ⟨.relative, lengthIssue.parts⟩ = "docs/Guide.md" := by decide
  rw [← hfirst, ← hsecond]
  exact hread

/-- An issue of a file that cannot be there. -/
def nullIssue : PrintedIssue where
  start := .slash
  parts := ["a\x00.md"]
  line := 1
  column := none
  digits := "001".toList
  otherName := none
  message := "m".toList

theorem isLegible_nullIssue : nullIssue.IsLegible ["r"] where
  parts := by decide
  resolved := by decide
  suffix := ⟨"/r/a\x00".toList, by decide, by decide⟩
  unmarked := by decide
  pathOneLine := .of_all (by decide) (by decide)
  digits := ⟨rfl, List.all_eq_true.mp (by decide)⟩
  otherName := nofun
  message := ⟨by decide, .of_all (by decide) (by decide)⟩

/-- With a null character in it an absolute path is shown as it is printed. -/
theorem readAll_outputOf_null :
    nullIssue.IsLegible ["r"] ∧
      readAll ⟨.slash, ["r"]⟩ ⟨.slash, []⟩ (outputOf ["r"] [] (.issue nullIssue)) =
        [nullIssue.issue "/r/a\x00.md"] ∧
      readAll ⟨.slash, ["r"]⟩ ⟨.slash, []⟩ (outputOf ["r"] [] (.issue nullIssue)) ≠
        [nullIssue.issue "a\x00.md"] := by
  have hshown : shownPath ⟨.slash, ["r"]⟩ ⟨.slash, []⟩ (nullIssue.path ["r"]).toString =
      "/r/a\x00.md" := by decide
  have hread : readAll ⟨.slash, ["r"]⟩ ⟨.slash, []⟩ (outputOf ["r"] [] (.issue nullIssue)) =
      [nullIssue.issue "/r/a\x00.md"] := by
    rw [outputOf, List.flatMap_nil, List.nil_append, OutputLine.text, readAll_eq,
      Text.onLines_of_unbroken rfl (unbroken_text isLegible_nullIssue), ofLine?_text isLegible_nullIssue,
      Option.toList_some, List.map_singleton]
    dsimp only [shownFor, PrintedIssue.issue]
    rw [hshown]
  refine ⟨isLegible_nullIssue, hread, fun hrelative => ?_⟩
  rw [hread] at hrelative
  have hpath := congrArg MarkdownIssue.path (List.singleton_inj.mp hrelative)
  exact absurd hpath (by decide)

end MarkdownIssue

end DscAudit.Tool

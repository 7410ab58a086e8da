import DscAudit.Proofs.Text.Character
import DscAudit.Text.Infix
import DscAudit.Text.Lines

/-!
# Cutting a text

A text is cut into lines wherever a character stands that ends one.  Of what is found on the lines nothing
reaches over such a character, and a line end of two characters counts as one, since nothing is found on an
empty line.
-/

namespace DscAudit.Text

theorem linesFrom_nil (begun : List Char) :
    linesFrom begun [] = if begun.isEmpty then [] else [begun.reverse] := rfl

theorem linesFrom_pair (begun rest : List Char) :
    linesFrom begun ('\r' :: '\n' :: rest) = begun.reverse :: linesFrom [] rest := rfl

theorem linesFrom_cons {c : Char} {s : List Char} (hpair : c = '\r' → s.head? ≠ some '\n')
    (begun : List Char) : linesFrom begun (c :: s) =
      if isLineBreak c then begun.reverse :: linesFrom [] s else linesFrom (c :: begun) s := by
  rw [linesFrom.eq_def]
  split
  · next heq => cases heq
  · next heq =>
    cases heq
    exact absurd rfl (hpair rfl)
  · next heq =>
    cases heq
    rfl

theorem linesFrom_unbroken {c : Char} (hc : isLineBreak c = false) (begun s : List Char) :
    linesFrom begun (c :: s) = linesFrom (c :: begun) s := by
  rw [linesFrom_cons, if_neg (by rw [hc]; exact Bool.false_ne_true)]
  rintro rfl
  cases hc

theorem linesFrom_break {c : Char} (hc : isLineBreak c = true) {s : List Char}
    (hpair : c = '\r' → s.head? ≠ some '\n') (begun : List Char) :
    linesFrom begun (c :: s) = begun.reverse :: linesFrom [] s := by
  rw [linesFrom_cons hpair, if_pos hc]

theorem linesFrom_append {s : List Char} (hs : ∀ c ∈ s, isLineBreak c = false) (begun t : List Char) :
    linesFrom begun (s ++ t) = linesFrom (s.reverse ++ begun) t := by
  induction s generalizing begun with
  | nil => rfl
  | cons c s ih =>
    obtain ⟨hc, hs⟩ := List.forall_mem_cons.1 hs
    rw [List.cons_append, linesFrom_unbroken hc, ih hs, List.reverse_cons, List.append_assoc]
    rfl

theorem lines_of_unbroken {s : List Char} (hne : s ≠ []) (hs : ∀ c ∈ s, isLineBreak c = false) :
    lines s = [s] := by
  have hline := linesFrom_append hs [] []
  rw [List.append_nil, List.append_nil] at hline
  rw [lines, hline, linesFrom_nil, if_neg (by simpa using hne), List.reverse_reverse]

theorem lines_of_break {s : List Char} (hs : ∀ c ∈ s, isLineBreak c = false) {c : Char}
    (hc : isLineBreak c = true) (hreturn : c ≠ '\r') (t : List Char) :
    lines (s ++ c :: t) = s :: lines t := by
  rw [lines, linesFrom_append hs, List.append_nil, linesFrom_break hc fun h => absurd h hreturn,
    List.reverse_reverse]
  rfl

theorem exists_first_break {s : List Char} (hs : ∃ c ∈ s, isLineBreak c = true) :
    ∃ front c rest, s = front ++ c :: rest ∧ (∀ d ∈ front, isLineBreak d = false) ∧
      isLineBreak c = true := by
  induction s with
  | nil =>
    obtain ⟨c, hc, -⟩ := hs
    cases hc
  | cons d s ih =>
    by_cases hd : isLineBreak d = true
    · exact ⟨[], d, s, rfl, List.forall_mem_nil _, hd⟩
    · have hrest : ∃ c ∈ s, isLineBreak c = true := by
        obtain ⟨c, hc, hbreak⟩ := hs
        rcases List.mem_cons.1 hc with rfl | hc
        · exact absurd hbreak hd
        · exact ⟨c, hc, hbreak⟩
      obtain ⟨front, c, rest, rfl, hfront, hc⟩ := ih hrest
      exact ⟨d :: front, c, rest, rfl, List.forall_mem_cons.2 ⟨Bool.of_not_eq_true hd, hfront⟩, hc⟩

/-- What ends a line: one character, or a carriage return and a line feed. -/
def IsLineEnd (ending : List Char) : Prop :=
  (∃ c, isLineBreak c = true ∧ ending = [c]) ∨ ending = ['\r', '\n']

/-- What a text has in front of its first line end, all of it if it has none. -/
def firstLine (s : List Char) : List Char := s.takeWhile fun c => !isLineBreak c

/-- What a text has behind its last line end, all of it if it has none. -/
def lastLine (s : List Char) : List Char := (s.reverse.takeWhile fun c => !isLineBreak c).reverse

theorem unbroken_firstLine (s : List Char) : ∀ c ∈ firstLine s, isLineBreak c = false :=
  fun _ hc => by simpa using List.mem_takeWhile_imp hc

theorem unbroken_lastLine (s : List Char) : ∀ c ∈ lastLine s, isLineBreak c = false :=
  fun _ hc => by simpa using List.mem_takeWhile_imp (List.mem_reverse.mp hc)

/-- What is found on the lines of a text. -/
def onLines {α : Type} (f : List Char → Option α) (s : List Char) : List α := (lines s).filterMap f

section

variable {α : Type} {f : List Char → Option α} (hblank : f [] = none)
include hblank

/-- The characters of a line end bring nothing, be they one or two. -/
theorem filterMap_linesFrom_break {c : Char} (hc : isLineBreak c = true) (begun s : List Char) :
    (linesFrom begun (c :: s)).filterMap f = (f begun.reverse).toList ++ onLines f s := by
  by_cases hpair : c = '\r' → s.head? ≠ some '\n'
  · rw [linesFrom_break hc hpair, List.filterMap_cons]
    cases f begun.reverse <;> rfl
  · simp only [Classical.not_imp, not_not] at hpair
    obtain ⟨rfl, hhead⟩ := hpair
    obtain ⟨rest, rfl⟩ := List.head?_eq_some_iff.1 hhead
    have hrest : onLines f ('\n' :: rest) = onLines f rest := by
      rw [onLines, lines, linesFrom_break rfl (fun h => absurd h (by decide)), List.filterMap_cons, List.reverse_nil, hblank]
      rfl
    rw [linesFrom_pair, List.filterMap_cons, hrest]
    cases f begun.reverse <;> rfl

/-- No line reaches over a character that ends one. -/
theorem onLines_append {c : Char} (hc : isLineBreak c = true) (s t : List Char) :
    onLines f (s ++ c :: t) = onLines f s ++ onLines f t := by
  have hbegun (begun : List Char) : (linesFrom begun (s ++ c :: t)).filterMap f =
      (linesFrom begun s).filterMap f ++ onLines f t := by
    induction s generalizing begun with
    | nil =>
      rw [List.nil_append, filterMap_linesFrom_break hblank hc, linesFrom_nil]
      cases begun with
      | nil => simp [hblank]
      | cons d begun =>
        rw [List.isEmpty_cons, if_neg Bool.false_ne_true, List.filterMap_cons, List.filterMap_nil]
        cases f (d :: begun).reverse <;> rfl
    | cons d s ih =>
      by_cases hd : isLineBreak d = true
      · have hrest := ih []
        rw [List.cons_append, filterMap_linesFrom_break hblank hd, filterMap_linesFrom_break hblank hd,
          List.append_assoc]
        exact congrArg _ hrest
      · have hd : isLineBreak d = false := Bool.of_not_eq_true hd
        rw [List.cons_append, linesFrom_unbroken hd, linesFrom_unbroken hd, ih]
  exact hbegun []

theorem onLines_of_unbroken {s : List Char} (hs : ∀ c ∈ s, isLineBreak c = false) :
    onLines f s = (f s).toList := by
  by_cases hne : s = []
  · rw [hne, hblank]
    rfl
  · rw [onLines, lines_of_unbroken hne hs, List.filterMap_cons]
    cases f s <;> rfl

/-- A line with its end brings what is found on it, and what is behind it stays. -/
theorem onLines_line {s ending : List Char} (hs : ∀ c ∈ s, isLineBreak c = false)
    (hending : IsLineEnd ending) (t : List Char) :
    onLines f (s ++ ending ++ t) = (f s).toList ++ onLines f t := by
  rcases hending with ⟨c, hc, rfl⟩ | rfl
  · rw [List.append_assoc, List.singleton_append, onLines_append hblank hc,
      onLines_of_unbroken hblank hs]
  · have hfeed : onLines f ('\n' :: t) = onLines f t := by
      rw [← List.nil_append ('\n' :: t), onLines_append hblank rfl]
      rfl
    rw [List.append_assoc, List.cons_append, List.singleton_append, onLines_append hblank rfl,
      onLines_of_unbroken hblank hs, hfeed]

/-! ## Where two texts meet -/

/-- Lines behind the first line end of a text are apart from what comes before it. -/
theorem onLines_append_firstLine (s t : List Char) :
    onLines f (s ++ t) =
      onLines f (s ++ firstLine t) ++ onLines f (t.dropWhile fun c => !isLineBreak c) := by
  have hsplit : firstLine t ++ t.dropWhile (fun c => !isLineBreak c) = t := List.takeWhile_append_dropWhile
  have hstop := List.head?_dropWhile_not (fun c => !isLineBreak c) t
  conv_lhs => rw [← hsplit, ← List.append_assoc]
  cases hrest : t.dropWhile fun c => !isLineBreak c with
  | nil =>
    rw [List.append_nil]
    exact (List.append_nil _).symm
  | cons c rest =>
    have hc : isLineBreak c = true := by simpa [hrest] using hstop
    have hbehind : onLines f (c :: rest) = onLines f rest := onLines_append hblank hc [] rest
    rw [onLines_append hblank hc, hbehind]

/-- Lines up to the last line end of a text are apart from what comes behind it. -/
theorem onLines_append_lastLine (s t : List Char) :
    onLines f (s ++ t) =
      onLines f (s.reverse.dropWhile fun c => !isLineBreak c).reverse ++ onLines f (lastLine s ++ t) := by
  have hsplit : (s.reverse.dropWhile fun c => !isLineBreak c).reverse ++ lastLine s = s := by
    rw [lastLine, ← List.reverse_append, List.takeWhile_append_dropWhile, List.reverse_reverse]
  have hstop := List.head?_dropWhile_not (fun c => !isLineBreak c) s.reverse
  conv_lhs => rw [← hsplit, List.append_assoc]
  cases hrest : s.reverse.dropWhile fun c => !isLineBreak c with
  | nil => rfl
  | cons c rest =>
    have hc : isLineBreak c = true := by simpa [hrest] using hstop
    have hbefore : onLines f (rest.reverse ++ [c]) = onLines f rest.reverse := by
      rw [onLines_append hblank hc]
      exact List.append_nil _
    rw [List.reverse_cons, hbefore, List.append_assoc, List.singleton_append, onLines_append hblank hc]

/-! ## Blanks -/

variable (htrim : ∀ line, f (trim line) = f line)
include htrim

/-- What is found on lines that are trimmed is not changed by a blank in front of the text. -/
theorem onLines_cons_of_isBlank {c : Char} (hc : isBlank c = true) (s : List Char) :
    onLines f (c :: s) = onLines f s := by
  by_cases hbreak : isLineBreak c = true
  · exact onLines_append hblank hbreak [] s
  · have hline : ∀ d ∈ c :: firstLine s, isLineBreak d = false :=
      List.forall_mem_cons.mpr ⟨Bool.of_not_eq_true hbreak, unbroken_firstLine s⟩
    have hsame : f (c :: firstLine s) = f (firstLine s) := by
      rw [← htrim (c :: firstLine s), trim_cons_of_isBlank hc, htrim]
    have hfront := onLines_append_firstLine hblank [c] s
    have hwhole := onLines_append_firstLine hblank [] s
    rw [List.singleton_append, List.singleton_append, onLines_of_unbroken hblank hline, hsame] at hfront
    rw [List.nil_append, List.nil_append, onLines_of_unbroken hblank (unbroken_firstLine s)] at hwhole
    rw [hfront, hwhole]

/-- Nor by one behind the text. -/
theorem onLines_concat_of_isBlank {c : Char} (hc : isBlank c = true) (s : List Char) :
    onLines f (s ++ [c]) = onLines f s := by
  by_cases hbreak : isLineBreak c = true
  · rw [onLines_append hblank hbreak]
    exact List.append_nil _
  · have hline : ∀ d ∈ lastLine s ++ [c], isLineBreak d = false :=
      List.forall_mem_append.mpr ⟨unbroken_lastLine s,
        List.forall_mem_singleton.mpr (Bool.of_not_eq_true hbreak)⟩
    have hsame : f (lastLine s ++ [c]) = f (lastLine s) := by
      rw [← htrim (lastLine s ++ [c]), trim_concat_of_isBlank hc, htrim]
    have hbehind := onLines_append_lastLine hblank s [c]
    have hwhole := onLines_append_lastLine hblank s []
    rw [onLines_of_unbroken hblank hline, hsame] at hbehind
    rw [List.append_nil, List.append_nil, onLines_of_unbroken hblank (unbroken_lastLine s)] at hwhole
    rw [hbehind, hwhole]

theorem onLines_blanks_append {blanks : List Char} (hblanks : ∀ c ∈ blanks, isBlank c = true)
    (s : List Char) : onLines f (blanks ++ s) = onLines f s := by
  induction blanks with
  | nil => rfl
  | cons c blanks ih =>
    rw [List.forall_mem_cons] at hblanks
    rw [List.cons_append, onLines_cons_of_isBlank hblank htrim hblanks.1, ih hblanks.2]

theorem onLines_append_blanks {blanks : List Char} (hblanks : ∀ c ∈ blanks, isBlank c = true)
    (s : List Char) : onLines f (s ++ blanks) = onLines f s := by
  induction blanks using List.reverseRecOn with
  | nil => rw [List.append_nil]
  | append_singleton blanks c ih =>
    rw [List.forall_mem_append, List.forall_mem_singleton] at hblanks
    rw [← List.append_assoc, onLines_concat_of_isBlank hblank htrim hblanks.2, ih hblanks.1]

/-- A text may as well be trimmed as a whole beforehand. -/
theorem onLines_trim (s : List Char) : onLines f (trim s) = onLines f s := by
  obtain ⟨blanks, hend, hblanks, -⟩ := exists_trimEnd (s.dropWhile isBlank)
  change s.dropWhile isBlank = trim s ++ blanks at hend
  have hfront : ∀ c ∈ s.takeWhile isBlank, isBlank c = true := fun _ hc => List.mem_takeWhile_imp hc
  have hsplit : s.takeWhile isBlank ++ (trim s ++ blanks) = s := by
    rw [← hend, List.takeWhile_append_dropWhile]
  conv_rhs => rw [← hsplit]
  rw [onLines_blanks_append hblank htrim hfront, onLines_append_blanks hblank htrim hblanks]

end

/-!
## Pieces of a text between separators

Cutting a text where a separator stands and putting the separators back undo each other.
-/

variable {separator : Char}

theorem splitAt_of_not_mem {s : List Char} (hs : separator ∉ s) : splitAt separator s = [s] := by
  induction s with
  | nil => rfl
  | cons c s ih =>
    rw [List.mem_cons, not_or] at hs
    have hc : (c == separator) = false := by simpa using fun heq => hs.1 heq.symm
    simp [splitAt, hc, ih hs.2]

theorem splitAt_append {s : List Char} (hs : separator ∉ s) (rest : List Char) :
    splitAt separator (s ++ separator :: rest) = s :: splitAt separator rest := by
  induction s with
  | nil => simp [splitAt]
  | cons c s ih =>
    rw [List.mem_cons, not_or] at hs
    have hc : (c == separator) = false := by simpa using fun heq => hs.1 heq.symm
    simp [splitAt, hc, ih hs.2]

theorem splitAt_intercalate {parts : List (List Char)} (hne : parts ≠ [])
    (hparts : ∀ part ∈ parts, separator ∉ part) :
    splitAt separator ([separator].intercalate parts) = parts := by
  induction parts with
  | nil => exact absurd rfl hne
  | cons part parts ih =>
    have hpart := hparts part List.mem_cons_self
    cases parts with
    | nil => rw [List.intercalate_singleton, splitAt_of_not_mem hpart]
    | cons next parts =>
      rw [List.intercalate_cons_cons, List.append_assoc, List.singleton_append,
        splitAt_append hpart, ih (by simp)]
      intro other hother
      exact hparts other (List.mem_cons_of_mem _ hother)

theorem forall_mem_intercalate {p : Char → Prop} {parts : List (List Char)} (hseparator : p separator)
    (hparts : ∀ part ∈ parts, ∀ c ∈ part, p c) : ∀ c ∈ [separator].intercalate parts, p c := by
  induction parts with
  | nil => simp
  | cons part parts ih =>
    rw [List.forall_mem_cons] at hparts
    cases parts with
    | nil => simpa using hparts.1
    | cons next parts =>
      rw [List.intercalate_cons_cons, List.forall_mem_append, List.forall_mem_append]
      exact ⟨⟨hparts.1, List.forall_mem_singleton.mpr hseparator⟩, ih hparts.2⟩

theorem intercalate_splitAt (separator : Char) (s : List Char) :
    [separator].intercalate (splitAt separator s) = s := by
  induction s with
  | nil => rfl
  | cons c s ih =>
    rw [splitAt]
    split
    · rename_i hc
      obtain ⟨piece, pieces, hpieces⟩ := List.exists_cons_of_ne_nil (splitAt_ne_nil separator s)
      rw [hpieces] at ih ⊢
      rw [beq_iff_eq] at hc
      rw [List.intercalate_cons_cons, ih, hc]
      rfl
    · split
      · rename_i hnil
        exact absurd hnil (splitAt_ne_nil separator s)
      · rename_i piece pieces hpieces
        rw [hpieces] at ih
        cases pieces with
        | nil => simpa using ih
        | cons next pieces =>
          rw [List.intercalate_cons_cons] at ih ⊢
          rw [← ih]
          rfl

theorem mem_of_mem_splitAt {c : Char} {s piece : List Char}
    (hpiece : piece ∈ splitAt separator s) (hc : c ∈ piece) : c ∈ s := by
  induction s generalizing piece with
  | nil =>
    obtain rfl := List.mem_singleton.mp hpiece
    cases hc
  | cons d s ih =>
    rw [splitAt] at hpiece
    split at hpiece
    · rcases List.mem_cons.mp hpiece with rfl | hpiece
      · cases hc
      · exact List.mem_cons_of_mem _ (ih hpiece hc)
    · split at hpiece
      · rename_i hnil
        exact absurd hnil (splitAt_ne_nil separator s)
      · rename_i first pieces hpieces
        rcases List.mem_cons.mp hpiece with rfl | hpiece
        · rcases List.mem_cons.mp hc with rfl | hc
          · exact List.mem_cons_self
          · exact List.mem_cons_of_mem _ (ih (hpieces ▸ List.mem_cons_self) hc)
        · exact List.mem_cons_of_mem _ (ih (hpieces ▸ List.mem_cons_of_mem _ hpiece) hc)

end DscAudit.Text

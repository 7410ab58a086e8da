import DscAudit.Text.CharacterClass
import DscAudit.Text.Digit
import DscAudit.Text.LetterCase
import DscAudit.Text.Lines
import Mathlib

/-!
# Characters and runs of them

The classes of characters that the readers tell apart, and the texts that they cut off with them.
-/

namespace DscAudit.Text

/-! ## Runs -/

theorem takeWhile_append_of_head? {p : Char → Bool} {word rest : List Char}
    (hword : ∀ c ∈ word, p c = true) (hrest : ∀ c ∈ rest.head?, p c = false) :
    (word ++ rest).takeWhile p = word ∧ (word ++ rest).dropWhile p = rest := by
  rw [List.takeWhile_append_of_pos hword, List.dropWhile_append_of_pos hword]
  cases rest with
  | nil => simp
  | cons c rest =>
      have hc : p c = false := hrest c rfl
      simp [hc]

section Trimming

variable {p : Char → Bool}

theorem trimEndWhile_append {text after : List Char} {c : Char} (hlast : text.getLast? = some c)
    (hc : p c = false) (hafter : ∀ b ∈ after, p b = true) : trimEndWhile p (text ++ after) = text := by
  obtain ⟨front, rfl⟩ := List.getLast?_eq_some_iff.1 hlast
  have hreverse : ∀ b ∈ after.reverse, p b = true := fun b hb => hafter b (List.mem_reverse.1 hb)
  rw [trimEndWhile, List.reverse_append, List.dropWhile_append_of_pos hreverse]
  simp [hc]

theorem trimWhile_append {before text after : List Char} {c d : Char}
    (hbefore : ∀ b ∈ before, p b = true) (hafter : ∀ b ∈ after, p b = true)
    (hfirst : text.head? = some c) (hc : p c = false) (hlast : text.getLast? = some d)
    (hd : p d = false) : trimWhile p (before ++ text ++ after) = text := by
  have hstart : (before ++ text ++ after).dropWhile p = text ++ after := by
    rw [List.append_assoc, List.dropWhile_append_of_pos hbefore]
    obtain ⟨rest, rfl⟩ := List.head?_eq_some_iff.1 hfirst
    rw [List.cons_append, List.dropWhile_cons_of_neg (by simp [hc])]
  rw [trimWhile, hstart]
  exact trimEndWhile_append hlast hd hafter

theorem exists_trimEndWhile (p : Char → Bool) (s : List Char) :
    ∃ after, s = trimEndWhile p s ++ after ∧ (∀ c ∈ after, p c = true) ∧
      ∀ c ∈ (trimEndWhile p s).getLast?, p c = false := by
  refine ⟨(s.reverse.takeWhile p).reverse, ?_, fun c hc => ?_, fun c hc => ?_⟩
  · rw [trimEndWhile, ← List.reverse_append, List.takeWhile_append_dropWhile, List.reverse_reverse]
  · exact List.mem_takeWhile_imp (List.mem_reverse.1 hc)
  · rw [trimEndWhile, List.getLast?_reverse] at hc
    have hnot := List.head?_dropWhile_not p s.reverse
    rw [hc] at hnot
    simpa using hnot

theorem exists_trimWhile (p : Char → Bool) (s : List Char) :
    ∃ before after, s = before ++ trimWhile p s ++ after ∧ (∀ c ∈ before, p c = true) ∧
      ∀ c ∈ after, p c = true := by
  obtain ⟨after, hend, hafter, -⟩ := exists_trimEndWhile p (s.dropWhile p)
  refine ⟨s.takeWhile p, after, ?_, fun c hc => List.mem_takeWhile_imp hc, hafter⟩
  rw [List.append_assoc, trimWhile, ← hend, List.takeWhile_append_dropWhile]

end Trimming

theorem trimEnd_append {text blanks : List Char} {c : Char} (hlast : text.getLast? = some c)
    (hc : isBlank c = false) (hblanks : ∀ b ∈ blanks, isBlank b = true) :
    trimEnd (text ++ blanks) = text := trimEndWhile_append hlast hc hblanks

theorem trim_append {blanks text : List Char} {c d : Char}
    (hblanks : ∀ b ∈ blanks, isBlank b = true) (hfirst : text.head? = some c)
    (hc : isBlank c = false) (hlast : text.getLast? = some d) (hd : isBlank d = false) :
    trim (blanks ++ text) = text := by
  have htrim := trimWhile_append hblanks (List.forall_mem_nil _) hfirst hc hlast hd
  rwa [List.append_nil] at htrim

theorem exists_trimEnd (s : List Char) :
    ∃ blanks, s = trimEnd s ++ blanks ∧ (∀ c ∈ blanks, isBlank c = true) ∧
      ∀ c ∈ (trimEnd s).getLast?, isBlank c = false := exists_trimEndWhile isBlank s

/-- What is left after trimming loses nothing more. -/
theorem trim_trim (s : List Char) : trim (trim s) = trim s := by
  obtain ⟨blanks, hsplit, -, hlast⟩ := exists_trimEnd (s.dropWhile isBlank)
  change s.dropWhile isBlank = trim s ++ blanks at hsplit
  change ∀ c ∈ (trim s).getLast?, isBlank c = false at hlast
  by_cases hne : trim s = []
  · rw [hne]
    rfl
  · obtain ⟨c, rest, hcons⟩ := List.exists_cons_of_ne_nil hne
    have hfirst : isBlank c = false := by
      have hstop := List.head?_dropWhile_not isBlank s
      rw [hsplit, hcons] at hstop
      simpa using hstop
    have hhead : (trim s).head? = some c := congrArg List.head? hcons
    have hend := List.getLast?_eq_some_getLast hne
    exact @trim_append [] _ c _ nofun hhead hfirst hend (hlast _ hend)

theorem trim_infix (s : List Char) : trim s <:+: s := by
  obtain ⟨blanks, hs, -⟩ := exists_trimEnd (s.dropWhile isBlank)
  have hend : trim s <+: s.dropWhile isBlank := ⟨blanks, hs.symm⟩
  exact hend.isInfix.trans (List.dropWhile_suffix isBlank).isInfix

theorem trimEnd_concat (s : List Char) (c : Char) :
    trimEnd (s ++ [c]) = if isBlank c then trimEnd s else s ++ [c] := by
  rw [trimEnd, trimEndWhile, List.reverse_append, List.reverse_singleton,
    List.singleton_append]
  by_cases hc : isBlank c = true
  · rw [List.dropWhile_cons_of_pos hc, if_pos hc]
    rfl
  · rw [List.dropWhile_cons_of_neg hc, if_neg hc, List.reverse_cons, List.reverse_reverse]

theorem trim_cons_of_isBlank {c : Char} (hc : isBlank c = true) (s : List Char) :
    trim (c :: s) = trim s := by
  rw [trim, trimWhile, List.dropWhile_cons_of_pos hc]
  rfl

theorem trim_concat_of_isBlank {c : Char} (hc : isBlank c = true) (s : List Char) :
    trim (s ++ [c]) = trim s := by
  show trimEnd ((s ++ [c]).dropWhile isBlank) = trimEnd (s.dropWhile isBlank)
  rw [List.dropWhile_append]
  split
  · rename_i hempty
    rw [List.isEmpty_iff.mp hempty, List.dropWhile_cons_of_pos hc]
    rfl
  · rw [trimEnd_concat, if_pos hc]

/-- Trimming keeps all characters that are not blank. -/
theorem filter_trim (s : List Char) :
    (trim s).filter (fun c => !isBlank c) = s.filter fun c => !isBlank c := by
  obtain ⟨blanks, hsplit, hblanks, -⟩ := exists_trimEnd (s.dropWhile isBlank)
  change s.dropWhile isBlank = trim s ++ blanks at hsplit
  have hfront : (s.takeWhile isBlank).filter (fun c => !isBlank c) = [] :=
    List.filter_eq_nil_iff.mpr fun c hc => by simpa using List.mem_takeWhile_imp hc
  have hend : blanks.filter (fun c => !isBlank c) = [] :=
    List.filter_eq_nil_iff.mpr fun c hc => by simpa using hblanks c hc
  calc (trim s).filter (fun c => !isBlank c)
      = (s.takeWhile isBlank ++ (trim s ++ blanks)).filter (fun c => !isBlank c) := by
        rw [List.filter_append, List.filter_append, hfront, hend, List.nil_append, List.append_nil]
    _ = s.filter fun c => !isBlank c := by rw [← hsplit, List.takeWhile_append_dropWhile]

theorem trim_ne_nil_iff {s : List Char} : trim s ≠ [] ↔ ∃ c ∈ s, isBlank c = false := by
  constructor
  · intro hne
    by_contra hnone
    have hall : ∀ c ∈ s, isBlank c = true := fun c hc => by
      by_contra hblank
      exact hnone ⟨c, hc, Bool.eq_false_iff.mpr hblank⟩
    rw [trim, trimWhile, List.dropWhile_eq_nil_iff.mpr hall] at hne
    exact hne rfl
  · rintro ⟨c, hc, hblank⟩ hempty
    have hmem : c ∈ (trim s).filter fun c => !isBlank c := by
      rw [filter_trim, List.mem_filter]
      exact ⟨hc, by rw [hblank]; rfl⟩
    rw [hempty] at hmem
    cases hmem

/-- A text with a character that is not blank is trimmed at its own end only. -/
theorem exists_trim_append (s : List Char) {t : List Char} (ht : ∃ c ∈ t, isBlank c = false) :
    ∃ tail, trim (s ++ t) = trim s ++ tail ∧ ∃ c ∈ tail, isBlank c = false := by
  obtain ⟨c, hc, hblank⟩ := ht
  by_cases hempty : s.dropWhile isBlank = []
  · have hmem : c ∈ (trim (s ++ t)).filter fun c => !isBlank c := by
      rw [filter_trim, List.mem_filter]
      exact ⟨List.mem_append_right s hc, by simp [hblank]⟩
    refine ⟨trim (s ++ t), ?_, c, List.mem_of_mem_filter hmem, hblank⟩
    rw [trim, trimWhile, trim, trimWhile, hempty]
    rfl
  · obtain ⟨blanks, hs, -, -⟩ := exists_trimEnd (s.dropWhile isBlank)
    obtain ⟨behind, ht, hbehind, hlast⟩ := exists_trimEnd t
    have hmem : c ∈ trimEnd t := by
      rw [ht, List.mem_append] at hc
      refine hc.resolve_right fun hc => ?_
      rw [hbehind c hc] at hblank
      cases hblank
    have hend := List.getLast?_eq_some_getLast (List.ne_nil_of_mem hmem)
    refine ⟨blanks ++ trimEnd t, ?_, c, List.mem_append_right blanks hmem, hblank⟩
    have hdrop : (s ++ t).dropWhile isBlank = trim s ++ (blanks ++ trimEnd t) ++ behind := by
      rw [List.dropWhile_append, if_neg (by simpa using hempty), List.append_assoc, List.append_assoc, ← ht,
        ← List.append_assoc]
      exact congrArg (· ++ t) hs
    have hwhole : (trim s ++ (blanks ++ trimEnd t)).getLast? =
        some ((trimEnd t).getLast (List.ne_nil_of_mem hmem)) := by
      rw [List.getLast?_append, List.getLast?_append, hend]
      rfl
    show trimEnd ((s ++ t).dropWhile isBlank) = _
    rw [hdrop, trimEnd_append hwhole (hlast _ hend) hbehind]

/-- A text that loses nothing at its ends has no blanks there. -/
theorem not_isBlank_of_trim_eq {s : List Char} (hs : trim s = s) :
    (∀ c ∈ s.head?, isBlank c = false) ∧ ∀ c ∈ s.getLast?, isBlank c = false := by
  obtain ⟨blanks, hsplit, -, hlast⟩ := exists_trimEnd (s.dropWhile isBlank)
  change s.dropWhile isBlank = trim s ++ blanks at hsplit
  change ∀ c ∈ (trim s).getLast?, isBlank c = false at hlast
  rw [hs] at hsplit hlast
  refine ⟨fun c hc => ?_, hlast⟩
  obtain ⟨rest, rfl⟩ := List.head?_eq_some_iff.1 hc
  by_contra hblank
  -- what is left of the text would be shorter than the text
  have hlength := congrArg List.length hsplit
  rw [List.dropWhile_cons_of_pos (Bool.of_not_eq_false hblank)] at hlength
  have hle := (List.dropWhile_suffix isBlank (l := rest)).length_le
  simp only [List.length_append, List.length_cons] at hlength
  omega

/-- A text without blanks loses nothing but the blanks behind it. -/
theorem trim_of_forall_not_isBlank {text blanks : List Char} (hne : text ≠ [])
    (htext : ∀ c ∈ text, isBlank c = false) (hblanks : ∀ b ∈ blanks, isBlank b = true) :
    trim (text ++ blanks) = text := by
  obtain ⟨c, rest, rfl⟩ := List.exists_cons_of_ne_nil hne
  have hstart : (c :: rest ++ blanks).dropWhile isBlank = c :: rest ++ blanks := by
    rw [List.cons_append, List.dropWhile_cons_of_neg (by simp [htext c List.mem_cons_self])]
  have hlast := List.getLast?_eq_some_getLast hne
  rw [trim, trimWhile, hstart]
  exact trimEnd_append hlast (htext _ (List.getLast_mem hne)) hblanks

/-! ## Classes -/

/-- A character of a class is not among characters of which none is in it. -/
theorem not_mem_of_any {p : Char → Bool} {s : List Char} {c : Char} (h : s.any p = false)
    (hc : p c = true) : c ∉ s := by
  intro hmem
  exact List.any_eq_false.1 h c hmem hc

/-- No character is blank and part of a word. -/
theorem isBlank_of_isWordChar {c : Char} (h : isWordChar c = true) :
    isBlank c = false := by
  have hall : (blankRanges.all fun blank => (letterRanges ++ numberRanges).all fun range =>
      blank.2 < range.1 || range.2 < blank.1) = true := by decide +kernel
  have hranges : ∀ blank ∈ blankRanges, ∀ range ∈ letterRanges ++ numberRanges,
      blank.2 < range.1 ∨ range.2 < blank.1 := by
    intro blank hblank range hrange
    have hapart := List.all_eq_true.mp (List.all_eq_true.mp hall blank hblank) range hrange
    simpa using hapart
  by_contra hcontra
  obtain ⟨blank, hblank, hlow, hhigh⟩ := inRanges_iff.1 (Bool.of_not_eq_false hcontra)
  unfold isWordChar at h
  split at h
  · next hlt =>
    have hascii : ∀ n < 128, isBlank (Char.ofNat n) = true →
        ((Char.ofNat n).isAlphanum || Char.ofNat n == '_') = false := by decide
    have hc := hascii c.toNat hlt
    rw [Char.ofNat_toNat] at hc
    rw [hc (Bool.of_not_eq_false hcontra)] at h
    cases h
  · rw [Bool.or_eq_true, inRanges_iff, inRanges_iff] at h
    obtain ⟨range, hrange, hfirst, hlast⟩ :
        ∃ range ∈ letterRanges ++ numberRanges, range.1 ≤ c.toNat ∧ c.toNat ≤ range.2 := by
      rcases h with ⟨range, hrange, hbounds⟩ | ⟨range, hrange, hbounds⟩
      · exact ⟨range, List.mem_append_left _ hrange, hbounds⟩
      · exact ⟨range, List.mem_append_right _ hrange, hbounds⟩
    rcases hranges blank hblank range hrange with hlt | hlt <;> omega

theorem isBlank_of_isLetter {c : Char} (h : isLetter c = true) : isBlank c = false :=
  isBlank_of_isWordChar (isWordChar_of_isLetter h)

theorem lower_of_ascii {s : List Char} (h : ∀ c ∈ s, c.toNat < 128) :
    lower s = s.map Char.toLower := by
  have hafter : ∀ before, lowerAfter before s = s.map Char.toLower := by
    induction s with
    | nil => exact fun before => rfl
    | cons c s ih =>
        intro before
        have hc := h c List.mem_cons_self
        have hdotted : (c == '\u0130') = false := by
          rw [beq_eq_false_iff_ne]
          rintro rfl
          exact absurd hc (by decide)
        have hsigma : (c == '\u03A3') = false := by
          rw [beq_eq_false_iff_ne]
          rintro rfl
          exact absurd hc (by decide)
        rw [lowerAfter, hdotted, hsigma, ih (fun d hd => h d (List.mem_cons_of_mem c hd)),
          lowerChar, if_pos hc]
        rfl
  exact hafter []

theorem isDigit_iff_toNat {c : Char} : c.isDigit = true ↔ 48 ≤ c.toNat ∧ c.toNat ≤ 57 := by
  simp [Char.isDigit, UInt32.le_iff_toNat_le]

theorem digitValue?_of_lt {c : Char} (h : c.toNat < 128) :
    digitValue? c = if c.isDigit = true then some (c.toNat - 48) else none := by
  have hzeros : ∀ start ∈ zeroDigits, start = 48 ∨ 128 ≤ start := by decide
  unfold digitValue?
  split
  · next hc =>
    rw [isDigit_iff_toNat] at hc
    have hfind : (zeroDigits.find? fun start => start ≤ c.toNat && c.toNat < start + 10) =
        some 48 := by
      rw [zeroDigits, List.find?_cons_of_pos]
      simp
      omega
    rw [hfind]
    rfl
  · next hc =>
    rw [isDigit_iff_toNat] at hc
    rw [Option.map_eq_none_iff, List.find?_eq_none]
    intro start hstart
    have := hzeros start hstart
    simp only [Bool.and_eq_true, decide_eq_true_eq]
    omega

theorem isDigit_of_ascii {c : Char} (h : c.isDigit = true) : isDigit c = true := by
  have hlt : c.toNat < 128 := by
    have := (isDigit_iff_toNat.1 h).2
    omega
  rw [isDigit, digitValue?_of_lt hlt, if_pos h]
  rfl

/-- No character is blank and a digit. -/
theorem isBlank_of_isDigit {c : Char} (h : isDigit c = true) : isBlank c = false := by
  have hranges : ∀ blank ∈ blankRanges, ∀ start ∈ zeroDigits,
      blank.2 < start ∨ start + 10 ≤ blank.1 := by decide
  by_contra hcontra
  obtain ⟨blank, hblank, hlow, hhigh⟩ := inRanges_iff.1 (Bool.of_not_eq_false hcontra)
  obtain ⟨value, hvalue⟩ := Option.isSome_iff_exists.1 h
  obtain ⟨start, hstart, -⟩ := Option.map_eq_some_iff.1 hvalue
  have hdigit := List.find?_some hstart
  simp only [Bool.and_eq_true, decide_eq_true_eq] at hdigit
  rcases hranges blank hblank start (List.mem_of_find?_eq_some hstart) with hlt | hlt <;> omega

theorem isBlank_of_isLineBreak {c : Char} (h : isLineBreak c = true) : isBlank c = true := by
  simp only [isLineBreak, Bool.or_eq_true, beq_iff_eq] at h
  rcases h with ((((((((rfl | rfl) | rfl) | rfl) | rfl) | rfl) | rfl) | rfl) | rfl) | rfl <;> decide

/-- A character that is not blank ends no line. -/
theorem isLineBreak_of_isBlank {c : Char} (h : isBlank c = false) : isLineBreak c = false := by
  by_contra hcontra
  rw [isBlank_of_isLineBreak (Bool.of_not_eq_false hcontra)] at h
  cases h

theorem digitsValue_eq_ofDigitChars {digits : List Char} (h : ∀ c ∈ digits, c.isDigit = true) :
    digitsValue digits = Nat.ofDigitChars 10 digits 0 := by
  have hstep : ∀ (init : Nat), digits.foldl
      (fun value c => 10 * value + (digitValue? c).getD 0) init =
        Nat.ofDigitChars 10 digits init := by
    induction digits with
    | nil => exact fun init => rfl
    | cons c digits ih =>
        intro init
        have hc := h c List.mem_cons_self
        have hlt : c.toNat < 128 := by
          have := (isDigit_iff_toNat.1 hc).2
          omega
        rw [List.foldl_cons, ih fun d hd => h d (List.mem_cons_of_mem c hd),
          digitValue?_of_lt hlt, if_pos hc, Nat.ofDigitChars_cons]
        rfl
  exact hstep 0

end DscAudit.Text

import DscAudit.Proofs.Text.Cutting
import DscAudit.Proofs.Text.LowerCase
import DscAudit.Text.CharacterClass
import DscAudit.Text.Lines
import Mathlib.Tactic

/-!
# Lines of a text

A text is its lines with line feeds between them.  Lower case is made line by line, since no letter looks
beyond a line feed for its neighbours.  A position names one of the lines, and a column within it or just
behind it.

A text with a carriage return in front of each line feed has the same lines as the text itself, and every
offset moves to one with the same position.  Where a line feed counts like any other character of a class,
so does the carriage return, and what is cut off at such characters is the same in both texts.
-/

namespace DscAudit.Text

/-! ## Lines in lower case -/

theorem startsCased_append_newline (s rest : List Char) :
    startsCased (s ++ '\n' :: rest) = startsCased s := by
  unfold startsCased
  induction s with
  | nil => rfl
  | cons c s ih =>
    by_cases hc : isCaseIgnorable c = true
    · rw [List.cons_append, List.dropWhile_cons_of_pos hc, List.dropWhile_cons_of_pos hc]
      exact ih
    · rw [List.cons_append, List.dropWhile_cons_of_neg hc, List.dropWhile_cons_of_neg hc]

/-- What stands on an earlier line has no say in how letters look in lower case. -/
theorem lowerAfter_append_newline (before context s : List Char) :
    lowerAfter (before ++ '\n' :: context) s = lowerAfter before s := by
  induction s generalizing before with
  | nil => rfl
  | cons c s ih =>
    rw [lowerAfter, lowerAfter, startsCased_append_newline, ← List.cons_append, ih]

theorem lowerAfter_line (before s rest : List Char) :
    lowerAfter before (s ++ '\n' :: rest) = lowerAfter before s ++ '\n' :: lower rest := by
  induction s generalizing before with
  | nil =>
    rw [List.nil_append, lowerAfter_cons_of_ascii (by decide), ← List.nil_append ('\n' :: before),
      lowerAfter_append_newline]
    rfl
  | cons c s ih =>
    rw [List.cons_append, lowerAfter, lowerAfter, startsCased_append_newline, ih, List.append_assoc]

theorem lower_line (s rest : List Char) : lower (s ++ '\n' :: rest) = lower s ++ '\n' :: lower rest :=
  lowerAfter_line [] s rest

/-! ## Physical lines -/

/-- A line in lower case is part of its text in lower case. -/
theorem lower_infix_of_mem {line : List Char} {lines : List (List Char)} (h : line ∈ lines) :
    lower line <:+: lower (['\n'].intercalate lines) := by
  induction lines with
  | nil => cases h
  | cons first lines ih =>
    cases lines with
    | nil => rw [List.mem_singleton.1 h, List.intercalate_singleton]
    | cons second lines =>
      rw [List.intercalate_cons_cons, List.append_assoc, List.singleton_append, lower_line]
      rcases List.mem_cons.1 h with rfl | hmem
      · exact (List.prefix_append _ _).isInfix
      · exact (ih hmem).trans ((List.suffix_cons _ _).trans (List.suffix_append _ _)).isInfix

/-- Some lines of a text, from the first one on, and what stands behind them. -/
theorem exists_intercalate_append {lines more : List (List Char)} (hne : lines ≠ []) :
    ∃ rest, ['\n'].intercalate (lines ++ more) = ['\n'].intercalate lines ++ rest ∧
      (rest = [] ∨ ∃ behind, rest = '\n' :: behind) := by
  induction lines with
  | nil => exact absurd rfl hne
  | cons first lines ih =>
    cases lines with
    | nil =>
      cases more with
      | nil => exact ⟨[], by simp, .inl rfl⟩
      | cons second more =>
        refine ⟨'\n' :: ['\n'].intercalate (second :: more), ?_, .inr ⟨_, rfl⟩⟩
        rw [List.singleton_append, List.intercalate_cons_cons, List.intercalate_singleton,
          List.append_assoc]
        rfl
    | cons second lines =>
      obtain ⟨rest, hrest, hend⟩ := ih (List.cons_ne_nil _ _)
      refine ⟨rest, ?_, hend⟩
      rw [List.cons_append, List.cons_append, List.intercalate_cons_cons, List.intercalate_cons_cons,
        ← List.cons_append, hrest]
      simp only [List.append_assoc]

theorem exists_splitAt_newline_eq (s : List Char) :
    ∃ lines, splitAt '\n' s = s.takeWhile (· != '\n') :: lines := by
  induction s with
  | nil => exact ⟨[], rfl⟩
  | cons c s ih =>
    obtain ⟨lines, hlines⟩ := ih
    rw [splitAt]
    by_cases hc : c = '\n'
    · exact ⟨splitAt '\n' s, by simp [hc]⟩
    · exact ⟨lines, by simp [hc, hlines]⟩

/-! ## Positions -/

theorem positionAt_line_le (text : List Char) (offset : Nat) :
    1 ≤ (positionAt text offset).line ∧
      (positionAt text offset).line ≤ 1 + text.count '\n' :=
  ⟨Nat.le_add_right _ _,
    Nat.add_le_add_left ((List.take_sublist offset text).count_le '\n') 1⟩

theorem length_takeWhile_append_singleton_le (p : Char → Bool) (s : List Char) (c : Char) :
    ((s ++ [c]).takeWhile p).length ≤ (s.takeWhile p).length + 1 := by
  rw [List.takeWhile_append]
  split
  · rename_i hall
    have hone := (List.takeWhile_sublist p (l := [c])).length_le
    rw [List.length_append, hall]
    simpa using hone
  · omega

theorem takeWhile_append_of_mem {p : Char → Bool} {s : List Char} {c : Char} (hc : c ∈ s)
    (hp : p c = false) (more : List Char) : (s ++ more).takeWhile p = s.takeWhile p := by
  rw [List.takeWhile_append, if_neg]
  intro hlength
  have hall : s.takeWhile p = s := (List.takeWhile_sublist p).eq_of_length hlength
  rw [← hall] at hc
  rw [List.mem_takeWhile_imp hc] at hp
  cases hp

/-- The line on which some characters end holds what stands before their end on it. -/
theorem exists_line (before rest : List Char) :
    ∃ line, (splitAt '\n' (before ++ rest))[before.count '\n']? = some line ∧
      (before.reverse.takeWhile (· != '\n')).length ≤ line.length := by
  induction before with
  | nil =>
      obtain ⟨line, lines, hlines⟩ :=
        List.exists_cons_of_ne_nil (splitAt_ne_nil '\n' rest)
      exact ⟨line, by rw [List.nil_append, hlines]; rfl, Nat.zero_le _⟩
  | cons c before ih =>
      obtain ⟨line, hline, hlength⟩ := ih
      rw [List.cons_append, splitAt, List.reverse_cons]
      by_cases hc : c = '\n'
      · subst hc
        refine ⟨line, ?_, Nat.le_trans ?_ hlength⟩
        · rw [if_pos (beq_self_eq_true '\n'), List.count_cons_self, List.getElem?_cons_succ, hline]
        · rw [List.takeWhile_append]
          split <;> simp_all
      · rw [if_neg (by simpa using hc), List.count_cons_of_ne hc]
        obtain ⟨first, lines, hlines⟩ :=
          List.exists_cons_of_ne_nil (splitAt_ne_nil '\n' (before ++ rest))
        rw [hlines] at hline ⊢
        cases hcount : before.count '\n' with
        | zero =>
            rw [hcount] at hline
            cases hline
            have hone := length_takeWhile_append_singleton_le (· != '\n') before.reverse c
            exact ⟨c :: line, rfl, by rw [List.length_cons]; omega⟩
        | succ count =>
            rw [hcount] at hline
            have hmem : '\n' ∈ before.reverse :=
              List.mem_reverse.2 (List.count_pos_iff.1 (by omega))
            exact ⟨line, hline, by rw [takeWhile_append_of_mem hmem rfl]; exact hlength⟩

/-- A column lies within its line or just behind it. -/
theorem positionAt_column_le (text : List Char) (offset : Nat) :
    ∃ line, (splitAt '\n' text)[(positionAt text offset).line - 1]? = some line ∧
      1 ≤ (positionAt text offset).column ∧
      (positionAt text offset).column ≤ line.length + 1 := by
  obtain ⟨line, hline, hlength⟩ := exists_line (text.take offset) (text.drop offset)
  rw [List.take_append_drop] at hline
  simp only [positionAt, Nat.add_sub_cancel_left]
  exact ⟨line, hline, Nat.le_add_right _ _, by omega⟩

end DscAudit.Text

/-! ## Line ends with carriage returns -/

namespace DscAudit.Text

/-- The text with a carriage return in front of each line feed. -/
def withReturns (s : List Char) : List Char := s.flatMap fun c => if c = '\n' then ['\r', '\n'] else [c]

/-- The offset in the text with carriage returns of what stands at an offset of the text. -/
def moved (text : List Char) (offset : Nat) : Nat := (withReturns (text.take offset)).length

@[simp] theorem withReturns_nil : withReturns [] = [] := rfl

@[simp] theorem withReturns_newline (s : List Char) :
    withReturns ('\n' :: s) = '\r' :: '\n' :: withReturns s := rfl

theorem withReturns_cons {c : Char} (h : c ≠ '\n') (s : List Char) :
    withReturns (c :: s) = c :: withReturns s := by
  rw [withReturns, List.flatMap_cons, if_neg h]
  rfl

@[simp] theorem withReturns_append (s t : List Char) :
    withReturns (s ++ t) = withReturns s ++ withReturns t := List.flatMap_append

theorem withReturns_of_not_mem {s : List Char} (h : '\n' ∉ s) : withReturns s = s := by
  induction s with
  | nil => rfl
  | cons c s ih =>
    rw [List.mem_cons, not_or] at h
    rw [withReturns_cons (Ne.symm h.1), ih h.2]

theorem exists_of_withReturns {s t : List Char} {c : Char} (h : withReturns s = c :: t) (hc : c ≠ '\r') :
    ∃ rest, s = c :: rest ∧ t = withReturns rest := by
  cases s with
  | nil => cases h
  | cons d s =>
    by_cases hd : d = '\n'
    · subst hd
      exact absurd (List.cons.inj h).1.symm hc
    · rw [withReturns_cons hd] at h
      obtain ⟨rfl, rfl⟩ := List.cons.inj h
      exact ⟨s, rfl, rfl⟩

/-- A word without line ends comes first in both texts or in none. -/
theorem isPrefixOf_withReturns {word : List Char} (hword : ∀ c ∈ word, c ≠ '\r' ∧ c ≠ '\n')
    (s : List Char) : word.isPrefixOf (withReturns s) = word.isPrefixOf s := by
  induction word generalizing s with
  | nil => rfl
  | cons p word ih =>
    obtain ⟨⟨hreturn, hfeed⟩, hword⟩ := List.forall_mem_cons.1 hword
    cases s with
    | nil => rfl
    | cons c s =>
      by_cases hc : c = '\n'
      · subst hc
        rw [withReturns_newline, List.isPrefixOf_cons_cons, List.isPrefixOf_cons_cons, beq_false_of_ne hreturn,
          beq_false_of_ne hfeed, Bool.false_and, Bool.false_and]
      · rw [withReturns_cons hc, List.isPrefixOf_cons_cons, List.isPrefixOf_cons_cons, ih hword]

/-! ## Offsets -/

section Offsets

variable {text s : List Char} {offset stop : Nat} {c : Char}

@[simp] theorem moved_zero (text : List Char) : moved text 0 = 0 := rfl

theorem moved_add (h : text.drop offset = s) (count : Nat) :
    moved text (offset + count) = moved text offset + moved s count := by
  rw [moved, moved, moved, List.take_add, h, withReturns_append, List.length_append]

theorem moved_cons (h : c ≠ '\n') (s : List Char) (count : Nat) :
    moved (c :: s) (count + 1) = moved s count + 1 := by
  rw [moved, moved, List.take_succ_cons, withReturns_cons h, List.length_cons]

@[simp] theorem moved_newline (s : List Char) (count : Nat) :
    moved ('\n' :: s) (count + 1) = moved s count + 2 := rfl

theorem moved_succ (h : text.drop offset = c :: s) (hc : c ≠ '\n') :
    moved text (offset + 1) = moved text offset + 1 := by
  rw [moved_add h, moved_cons hc, moved_zero]

theorem moved_succ_newline (h : text.drop offset = '\n' :: s) :
    moved text (offset + 1) = moved text offset + 2 := by
  rw [moved_add h, moved_newline, moved_zero]

theorem moved_length (text : List Char) : moved text text.length = (withReturns text).length := by
  rw [moved, List.take_length]

theorem moved_of_not_mem (h : '\n' ∉ s) (t : List Char) : moved (s ++ t) s.length = s.length := by
  rw [moved, List.take_left, withReturns_of_not_mem h]

theorem moved_mono (text : List Char) {offset stop : Nat} (h : offset ≤ stop) :
    moved text offset ≤ moved text stop := by
  obtain ⟨count, rfl⟩ := Nat.exists_eq_add_of_le h
  rw [moved_add rfl]
  exact Nat.le_add_right _ _

theorem moved_lt_succ (h : offset < text.length) : moved text offset < moved text (offset + 1) := by
  obtain ⟨c, s, hdrop⟩ :=
    List.exists_cons_of_ne_nil (List.drop_eq_nil_iff.not.2 (Nat.not_le.2 h))
  by_cases hc : c = '\n'
  · subst hc
    rw [moved_succ_newline hdrop]
    omega
  · rw [moved_succ hdrop hc]
    omega

theorem moved_lt_iff (h : stop ≤ text.length) : moved text offset < moved text stop ↔ offset < stop := by
  constructor
  · exact fun hlt => Nat.lt_of_not_le fun hle => Nat.not_lt.2 (moved_mono text hle) hlt
  · exact fun hlt => (moved_lt_succ (hlt.trans_le h)).trans_le (moved_mono text hlt)

theorem drop_moved (text : List Char) (offset : Nat) :
    (withReturns text).drop (moved text offset) = withReturns (text.drop offset) := by
  have hsplit := congrArg withReturns (List.take_append_drop offset text)
  rw [withReturns_append] at hsplit
  rw [← hsplit, moved, List.drop_left]

theorem take_moved (text : List Char) (offset : Nat) :
    (withReturns text).take (moved text offset) = withReturns (text.take offset) := by
  have hsplit := congrArg withReturns (List.take_append_drop offset text)
  rw [withReturns_append] at hsplit
  rw [← hsplit, moved, List.take_left]

/-- Between two places of the text with carriage returns stands what stands between those of the text. -/
theorem moved_sub (h : text.drop offset = s) (hle : offset ≤ stop) :
    moved text stop - moved text offset = moved s (stop - offset) := by
  obtain ⟨count, rfl⟩ := Nat.exists_eq_add_of_le hle
  rw [moved_add h, Nat.add_sub_cancel_left, Nat.add_sub_cancel_left]

end Offsets

/-! ## Positions -/

theorem count_withReturns (s : List Char) : (withReturns s).count '\n' = s.count '\n' := by
  induction s with
  | nil => rfl
  | cons c s ih =>
    by_cases hc : c = '\n'
    · subst hc
      rw [withReturns_newline, List.count_cons_of_ne (by decide), List.count_cons_self,
        List.count_cons_self, ih]
    · rw [withReturns_cons hc, List.count_cons_of_ne hc, List.count_cons_of_ne hc, ih]

theorem takeWhile_reverse_withReturns (s : List Char) :
    (withReturns s).reverse.takeWhile (· != '\n') = s.reverse.takeWhile (· != '\n') := by
  induction s using List.reverseRecOn with
  | nil => rfl
  | append_singleton s c ih =>
    rw [withReturns_append, List.reverse_append, List.reverse_append]
    by_cases hc : c = '\n'
    · subst hc
      rfl
    · have hone : withReturns [c] = [c] := withReturns_cons hc []
      have hall : ∀ d ∈ [c], (d != '\n') = true := List.forall_mem_singleton.2 (bne_iff_ne.2 hc)
      rw [hone, List.reverse_singleton, List.takeWhile_append_of_pos hall,
        List.takeWhile_append_of_pos hall, ih]

/-- An offset keeps its line and column. -/
theorem positionAt_moved (text : List Char) (offset : Nat) :
    positionAt (withReturns text) (moved text offset) = positionAt text offset := by
  rw [positionAt, positionAt, take_moved, count_withReturns, takeWhile_reverse_withReturns]

/-! ## Parts of a text -/

section Classes

variable {p : Char → Bool}

theorem takeWhile_withReturns (h : p '\r' = p '\n') (s : List Char) :
    (withReturns s).takeWhile p = withReturns (s.takeWhile p) := by
  induction s with
  | nil => rfl
  | cons c s ih =>
    by_cases hc : c = '\n'
    · subst hc
      cases hp : p '\n' with
      | true =>
        rw [withReturns_newline, List.takeWhile_cons_of_pos (h.trans hp),
          List.takeWhile_cons_of_pos hp, List.takeWhile_cons_of_pos hp, ih, withReturns_newline]
      | false =>
        rw [withReturns_newline, List.takeWhile_cons_of_neg (by simp [h, hp]),
          List.takeWhile_cons_of_neg (by simp [hp])]
        rfl
    · rw [withReturns_cons hc]
      cases hp : p c with
      | true =>
        rw [List.takeWhile_cons_of_pos hp, List.takeWhile_cons_of_pos hp, ih, withReturns_cons hc]
      | false =>
        rw [List.takeWhile_cons_of_neg (by simp [hp]), List.takeWhile_cons_of_neg (by simp [hp])]
        rfl

theorem dropWhile_withReturns (h : p '\r' = p '\n') (s : List Char) :
    (withReturns s).dropWhile p = withReturns (s.dropWhile p) := by
  have hsplit := congrArg withReturns (List.takeWhile_append_dropWhile (p := p) (l := s))
  rw [withReturns_append, ← takeWhile_withReturns h] at hsplit
  exact List.append_cancel_left
    ((List.takeWhile_append_dropWhile (p := p) (l := withReturns s)).trans hsplit.symm)

theorem moved_length_takeWhile (h : p '\r' = p '\n') (s : List Char) :
    moved s (s.takeWhile p).length = ((withReturns s).takeWhile p).length := by
  rw [takeWhile_withReturns h, moved, ← List.prefix_iff_eq_take.1 (List.takeWhile_prefix p)]

end Classes

/-! ## Texts with some of the carriage returns -/

/-- The second text is the first one with carriage returns in front of some of its line feeds. -/
inductive Returned : List Char → List Char → Prop
  | nil : Returned [] []
  | char (c : Char) {s t : List Char} (h : Returned s t) : Returned (c :: s) (c :: t)
  | line {s t : List Char} (h : Returned s t) : Returned ('\n' :: s) ('\r' :: '\n' :: t)

theorem returned_withReturns (s : List Char) : Returned s (withReturns s) := by
  induction s with
  | nil => exact .nil
  | cons c s ih =>
    by_cases hc : c = '\n'
    · subst hc
      exact .line ih
    · rw [withReturns_cons hc]
      exact .char c ih

theorem trimEndWhile_cons (p : Char → Bool) (c : Char) (s : List Char) :
    trimEndWhile p (c :: s) =
      if trimEndWhile p s = [] then if p c = true then [] else [c] else c :: trimEndWhile p s := by
  rw [trimEndWhile, trimEndWhile, List.reverse_cons, List.dropWhile_append]
  simp only [List.isEmpty_iff, List.reverse_eq_nil_iff]
  split
  · cases hp : p c <;> simp [hp]
  · simp

namespace Returned

variable {s t s' t' : List Char} {p : Char → Bool}

theorem refl (s : List Char) : Returned s s := by
  induction s with
  | nil => exact .nil
  | cons c s ih => exact .char c ih

theorem append (h : Returned s t) (h' : Returned s' t') : Returned (s ++ s') (t ++ t') := by
  induction h with
  | nil => exact h'
  | char c _ ih => exact .char c ih
  | line _ ih => exact .line ih

theorem eq_nil_iff (h : Returned s t) : s = [] ↔ t = [] := by
  cases h <;> simp

/-- The two texts are the same, or there are line feeds in both. -/
theorem eq_or_mem (h : Returned s t) : s = t ∨ '\n' ∈ s ∧ '\n' ∈ t := by
  induction h with
  | nil => exact .inl rfl
  | char c _ ih =>
    rcases ih with rfl | ⟨hs, ht⟩
    · exact .inl rfl
    · exact .inr ⟨List.mem_cons_of_mem c hs, List.mem_cons_of_mem c ht⟩
  | line _ _ => exact .inr ⟨by simp, by simp⟩

/-- Both texts have a property that none with a line feed has, or neither. -/
theorem iff_of_not_mem (h : Returned s t) {good : List Char → Prop}
    (hgood : ∀ u, good u → '\n' ∉ u) : good s ↔ good t := by
  rcases h.eq_or_mem with rfl | ⟨hs, ht⟩
  · exact Iff.rfl
  · exact iff_of_false (fun hgs => hgood s hgs hs) fun hgt => hgood t hgt ht

theorem takeWhile (h : Returned s t) (hp : p '\r' = p '\n') :
    Returned (s.takeWhile p) (t.takeWhile p) := by
  induction h with
  | nil => exact .nil
  | char c _ ih =>
    rw [List.takeWhile_cons, List.takeWhile_cons]
    cases p c with
    | true => exact .char c ih
    | false => exact .nil
  | line _ ih =>
    rw [List.takeWhile_cons, List.takeWhile_cons, List.takeWhile_cons, hp]
    cases p '\n' with
    | true => exact .line ih
    | false => exact .nil

theorem dropWhile (h : Returned s t) (hp : p '\r' = p '\n') :
    Returned (s.dropWhile p) (t.dropWhile p) := by
  induction h with
  | nil => exact .nil
  | char c h ih =>
    rw [List.dropWhile_cons, List.dropWhile_cons]
    cases p c with
    | true => exact ih
    | false => exact .char c h
  | line h ih =>
    rw [List.dropWhile_cons, List.dropWhile_cons, List.dropWhile_cons, hp]
    cases p '\n' with
    | true => exact ih
    | false => exact .line h

theorem trimEndWhile (h : Returned s t) (hp : p '\r' = p '\n') :
    Returned (trimEndWhile p s) (trimEndWhile p t) := by
  induction h with
  | nil => exact .nil
  | @char c s t _ ih =>
    rw [trimEndWhile_cons, trimEndWhile_cons]
    by_cases hs : Text.trimEndWhile p s = []
    · rw [if_pos hs, if_pos (ih.eq_nil_iff.1 hs)]
      cases p c with
      | true => exact .nil
      | false => exact .char c .nil
    · rw [if_neg hs, if_neg (ih.eq_nil_iff.not.1 hs)]
      exact .char c ih
  | @line s t _ ih =>
    rw [trimEndWhile_cons, trimEndWhile_cons p '\r', trimEndWhile_cons, hp]
    by_cases hs : Text.trimEndWhile p s = []
    · rw [if_pos hs, if_pos (ih.eq_nil_iff.1 hs)]
      cases p '\n' with
      | true => exact .nil
      | false => exact .line .nil
    · rw [if_neg hs, if_neg (ih.eq_nil_iff.not.1 hs), if_neg (List.cons_ne_nil _ _)]
      exact .line ih

theorem trimWhile (h : Returned s t) (hp : p '\r' = p '\n') :
    Returned (trimWhile p s) (trimWhile p t) := (h.dropWhile hp).trimEndWhile hp

end Returned

end DscAudit.Text

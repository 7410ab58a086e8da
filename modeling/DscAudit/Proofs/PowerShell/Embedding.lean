import DscAudit.Proofs.PowerShell.Keyword
import DscAudit.Proofs.PowerShell.LineEndBlock

/-!
# Scripts within longer scripts

A script may stand within a longer one, behind some characters and in front of a line end.  What is read of
it there is what is read of it alone, farther on.  A lexeme of the script ends where it ended, but for an
escape at the very end of the script and the mark of a here-string on its last line: both would reach into
what stands behind.  Inside brackets neither can happen, since the closing bracket comes first.
-/

namespace DscAudit.PowerShell

/-! ## Readings that carry over -/

/-- Whatever the first reading finds, the second one finds something that corresponds to it. -/
def CarriesOver {α β : Type} (good : α → β → Prop) (read : Except Fault α) (read' : Except Fault β) :
    Prop :=
  ∀ found, read = .ok found → ∃ found', read' = .ok found' ∧ good found found'

namespace CarriesOver

variable {α α' β β' : Type} {good : α → β → Prop} {good' : α' → β' → Prop} {read : Except Fault α}
  {read' : Except Fault β}

theorem ok {found : α} {found' : β} (h : good found found') :
    CarriesOver good (.ok found) (.ok found') := by
  rintro _ ⟨⟩
  exact ⟨found', rfl, h⟩

theorem error (fault : Fault) : CarriesOver good (.error fault) read' := by
  intro a h
  cases h

theorem bind {further : α → Except Fault α'} {further' : β → Except Fault β'}
    (h : CarriesOver good read read') (hfurther : ∀ found found', read = .ok found →
      good found found' → CarriesOver good' (further found) (further' found')) :
    CarriesOver good' (read >>= further) (read' >>= further') := by
  intro last hlast
  obtain ⟨found, hfound, hlast⟩ := bind_eq_ok.1 hlast
  obtain ⟨found', hfound', hgood⟩ := h found hfound
  rw [hfound']
  exact hfurther found found' hfound hgood last hlast

end CarriesOver

/-! ## Lexemes in front of a line end -/

/-- The text is empty or starts with a line feed. -/
def StartsLine (s : List Char) : Prop := ∀ c ∈ s.head?, c = '\n'

theorem startsLine_newline (s : List Char) : StartsLine ('\n' :: s) :=
  fun _ hc => (Option.some.inj hc).symm

theorem StartsLine.head?_append {behind : List Char} (h : StartsLine behind) (s : List Char) {c : Char}
    (hc : c ≠ '\n') : (s ++ behind).head? = some c ↔ s.head? = some c := by
  cases s with
  | nil => exact iff_of_false (fun hhead => hc (h c hhead)) (by simp)
  | cons d s => rfl

/-- What stands behind the text has a say in where the lexeme at its front ends. -/
inductive Unfinished : List Char → Prop
  | escape : Unfinished ['\x60']
  | hereString {quote : Char} {indent : List Char} (hquote : quote = '\x27' ∨ quote = '"')
      (hindent : ∀ c ∈ indent, Lexeme.isIndent c = true) : Unfinished ('@' :: quote :: indent)

section

variable {behind rest : List Char} {c : Char}

/-- A lexeme ends before a line end as it ends at the end of the text. -/
theorem Scans.append {kind : LexemeKind} {text : List Char} (h : Scans kind text rest)
    (hfinished : ¬ Unfinished (text ++ rest)) (hbehind : StartsLine behind) :
    Scans kind text (rest ++ behind) := by
  obtain ⟨hlexeme | ⟨-, rfl, rfl⟩, hends⟩ := h.isLexeme
  swap
  · exact absurd .escape hfinished
  refine hlexeme.scans ?_
  cases kind with
  | plain =>
    refine ⟨fun htext => (hbehind.head?_append rest (by decide)).not.2 (hends.1 htext), ?_⟩
    intro htext quote more heq hquote
    have hne : quote ≠ '\n' := by rcases hquote with rfl | rfl <;> decide
    obtain ⟨onLine, rfl⟩ := List.head?_eq_some_iff.1
      ((hbehind.head?_append rest hne).1 (by rw [heq]; rfl))
    rw [List.cons_append] at heq
    cases heq
    -- another character than a blank follows on the line of the text itself
    obtain ⟨d, hd, hindent⟩ : ∃ d ∈ onLine, Lexeme.isIndent d = false := by
      by_contra hnone
      subst htext
      refine hfinished (.hereString hquote fun d hd => ?_)
      by_contra hcontra
      exact hnone ⟨d, hd, Bool.not_eq_true _ ▸ hcontra⟩
    obtain ⟨front, tail, rfl⟩ := List.append_of_mem hd
    rw [List.append_assoc, List.cons_append, opensHereString_append hindent front _ tail]
    exact hends.2 htext quote _ rfl hquote
  | lineComment =>
    intro d hd
    cases rest with
    | nil => exact hbehind d hd
    | cons e rest => exact hends d hd
  | singleQuoted => exact (hbehind.head?_append rest (by decide)).not.2 hends
  | doubleQuoted => exact (hbehind.head?_append rest (by decide)).not.2 hends
  | blockComment => trivial
  | escape => trivial
  | hereString => trivial

/-- The lexeme in a longer text. -/
def Lexeme.within {s : List Char} (lexeme : Lexeme s) (behind : List Char) : Lexeme (s ++ behind) :=
  ⟨lexeme.kind, lexeme.length, lexeme.length_pos, by
    rw [List.length_append]
    exact Nat.le_add_right_of_le lexeme.length_le⟩

@[simp] theorem Lexeme.within_kind {s : List Char} (lexeme : Lexeme s) (behind : List Char) :
    (lexeme.within behind).kind = lexeme.kind := rfl

@[simp] theorem Lexeme.within_length {s : List Char} (lexeme : Lexeme s) (behind : List Char) :
    (lexeme.within behind).length = lexeme.length := rfl

theorem Lexeme.drop_within (lexeme : Lexeme (c :: rest)) (behind : List Char) :
    (c :: (rest ++ behind)).drop lexeme.length = (c :: rest).drop lexeme.length ++ behind :=
  List.drop_append_of_le_length lexeme.length_le

theorem scan_within {lexeme : Lexeme (c :: rest)} (hscan : Lexeme.scan c rest = .ok lexeme)
    (hfinished : ¬ Unfinished (c :: rest)) (hbehind : StartsLine behind) :
    Lexeme.scan c (rest ++ behind) = .ok (lexeme.within behind) := by
  have hscans := scans_of_scan hscan
  rw [← List.take_append_drop lexeme.length (c :: rest)] at hfinished
  obtain ⟨d, more, lexeme', heq, hscan', hkind, hlength⟩ := hscans.append hfinished hbehind
  rw [← List.append_assoc, List.take_append_drop] at heq
  cases heq
  rw [List.length_take_of_le lexeme.length_le] at hlength
  obtain ⟨kind, length, _, _⟩ := lexeme'
  dsimp only at hkind hlength
  subst hkind hlength
  exact hscan'

theorem scanAt_within (offset offset' : Nat) (hfinished : ¬ Unfinished (c :: rest))
    (hbehind : StartsLine behind) :
    CarriesOver (fun lexeme lexeme' => lexeme' = Lexeme.within lexeme behind)
      (Lexeme.scanAt offset c rest) (Lexeme.scanAt offset' c (rest ++ behind)) := by
  intro lexeme hlexeme
  rw [scanAt_eq_ok_iff] at hlexeme
  exact ⟨_, scanAt_eq_ok_iff.2 (scan_within hlexeme hfinished hbehind), rfl⟩

theorem startsComment_within (hbehind : StartsLine behind) (c : Char) (rest : List Char) :
    startsComment (c :: (rest ++ behind)) = startsComment (c :: rest) := by
  cases rest with
  | cons d rest =>
    unfold startsComment
    split <;> simp_all
  | nil =>
    cases behind with
    | nil => rfl
    | cons d behind =>
      cases hbehind d rfl
      unfold startsComment
      split <;> simp_all

theorem not_unfinished_of_startsComment (h : startsComment (c :: rest) = true) :
    ¬ Unfinished (c :: rest) := by
  intro hunfinished
  cases hunfinished <;> simp [startsComment] at h

theorem continuesLine_within (hescape : c :: rest ≠ ['\x60']) (behind : List Char) :
    continuesLine (c :: (rest ++ behind)) = continuesLine (c :: rest) := by
  cases rest with
  | cons d rest =>
    unfold continuesLine
    split <;> simp_all
  | nil =>
    have hc : c ≠ '\x60' := by
      rintro rfl
      exact hescape rfl
    unfold continuesLine
    split <;> simp_all

end

/-! ## Places before a bracket -/

/-- The place in a longer text, where as many characters more stand in front of it and others behind its
text. -/
def Cursor.embedded (behind : List Char) (count : Nat) (place : Cursor) : Cursor :=
  ⟨place.offset + count, place.rest ++ behind⟩

def Part.embedded (behind : List Char) (count : Nat) (part : Part) : Part :=
  ⟨part.start.embedded behind count, part.stop + count⟩

/-- Behind the place where a reader has to stop the text goes on with more than blanks and quotes, so no lexeme
before it is unfinished. -/
def Cursor.Guarded (stop : Nat) (place : Cursor) : Prop :=
  place.offset < stop → ∃ c ∈ place.rest.drop (stop - place.offset),
    Lexeme.isIndent c = false ∧ c ∉ ['\x27', '"']

def Part.Guarded (part : Part) : Prop := part.start.Guarded part.stop

namespace Cursor.Guarded

variable {stop offset : Nat} {s rest : List Char} {c : Char}

theorem length_lt (h : Cursor.Guarded stop ⟨offset, s⟩) (hlt : offset < stop) :
    stop - offset < s.length := by
  obtain ⟨c, hc, -⟩ := h hlt
  have hpos := List.length_pos_of_mem hc
  rw [List.length_drop] at hpos
  exact Nat.lt_of_sub_pos hpos

theorem past_of_nil (h : Cursor.Guarded stop ⟨offset, []⟩) : stop ≤ offset := by
  by_contra hlt
  exact absurd (h.length_lt (Nat.lt_of_not_le hlt)) (Nat.not_lt_zero _)

theorem drop (h : Cursor.Guarded stop ⟨offset, s⟩) (length : Nat) :
    Cursor.Guarded stop ⟨offset + length, s.drop length⟩ := by
  intro hlt
  dsimp only at hlt ⊢
  obtain ⟨c, hc, hguard⟩ := h (by dsimp only; omega)
  refine ⟨c, ?_, hguard⟩
  rw [List.drop_drop]
  have hsum : length + (stop - (offset + length)) = stop - offset := by omega
  rwa [hsum]

theorem tail (h : Cursor.Guarded stop ⟨offset, c :: rest⟩) : Cursor.Guarded stop ⟨offset + 1, rest⟩ :=
  h.drop 1

/-- A reader may be stopped earlier. -/
theorem mono {stop' : Nat} (h : Cursor.Guarded stop ⟨offset, s⟩) (hle : stop' ≤ stop) :
    Cursor.Guarded stop' ⟨offset, s⟩ := by
  intro hlt
  dsimp only at hlt ⊢
  obtain ⟨c, hc, hguard⟩ := h (by dsimp only; omega)
  have hsum : stop - offset = stop' - offset + (stop - stop') := by omega
  dsimp only at hc
  rw [hsum, ← List.drop_drop] at hc
  exact ⟨c, List.mem_of_mem_drop hc, hguard⟩

theorem past (h : stop ≤ offset) : Cursor.Guarded stop ⟨offset, s⟩ :=
  fun hlt => absurd hlt (Nat.not_lt.2 h)

theorem finished (h : Cursor.Guarded stop ⟨offset, c :: rest⟩) (hlt : offset < stop) :
    ¬ Unfinished (c :: rest) := by
  obtain ⟨d, hd, hindent, hquote⟩ := h hlt
  obtain ⟨count, hcount⟩ := Nat.exists_eq_add_of_lt hlt
  dsimp only at hd
  rw [hcount, Nat.add_assoc, Nat.add_sub_cancel_left, List.drop_succ_cons] at hd
  have hmem := List.mem_of_mem_drop hd
  intro hunfinished
  cases hunfinished with
  | escape => cases hmem
  | hereString hmark hall =>
    rcases List.mem_cons.1 hmem with rfl | hmem
    · rcases hmark with rfl | rfl <;> exact hquote (by decide)
    · rw [hall d hmem] at hindent
      cases hindent

theorem not_escape (h : Cursor.Guarded stop ⟨offset, c :: rest⟩) (hlt : offset < stop) :
    c :: rest ≠ ['\x60'] := by
  intro heq
  have hfinished := h.finished hlt
  rw [heq] at hfinished
  exact hfinished .escape

theorem textTo_embedded (h : Cursor.Guarded stop ⟨offset, s⟩) (behind : List Char) (count : Nat) :
    (Cursor.embedded behind count ⟨offset, s⟩).textTo (stop + count) =
      Cursor.textTo ⟨offset, s⟩ stop := by
  rw [Cursor.textTo, Cursor.textTo, Cursor.embedded, Nat.add_sub_add_right]
  refine List.take_append_of_le_length ?_
  by_cases hlt : offset < stop
  · exact (h.length_lt hlt).le
  · exact (Nat.sub_eq_zero_of_le (Nat.not_lt.1 hlt)).le.trans (Nat.zero_le _)

end Cursor.Guarded

section

variable {opening expected : Char} {offset close : Nat} {s : List Char}

theorem eq_of_isCloser {c : Char} (h : isCloser c = true) : c = ')' ∨ c = ']' ∨ c = '\x7d' := by
  simpa only [isCloser, Bool.or_eq_true, beq_iff_eq, or_assoc] using h

/-- The bracket that closes is found in the longer text, too: nothing behind it has a say. -/
theorem closing_embedded (hcloser : isCloser expected = true) (behind : List Char) (count : Nat) :
    CarriesOver (fun close close' => close' = close + count) (closing opening expected ⟨offset, s⟩)
      (closing opening expected ⟨offset + count, s ++ behind⟩) := by
  intro close hclose
  obtain ⟨inside, word, last, rfl, rfl, hreading, hword⟩ := (closing_eq_ok_iff hcloser).1 hclose
  have hplain : IsLexeme .plain [expected] := .plain (by
    rcases eq_of_isCloser hcloser with rfl | rfl | rfl <;> decide)
  refine ⟨_, (closing_eq_ok_iff hcloser).2 ⟨inside, word, last ++ behind, ?_, rfl, ?_, hword⟩, ?_⟩
  · rw [List.append_assoc, List.cons_append]
  · exact hreading.replace_behind hplain _
  · omega

/-- The text inside brackets ends before the bracket that closes them. -/
theorem Cursor.Guarded.of_closing (hcloser : isCloser expected = true)
    (h : closing opening expected ⟨offset, s⟩ = .ok close) : Cursor.Guarded close ⟨offset, s⟩ := by
  obtain ⟨inside, word, last, rfl, rfl, -, -⟩ := (closing_eq_ok_iff hcloser).1 h
  intro _
  refine ⟨expected, ?_, ?_⟩
  · dsimp only
    rw [Nat.add_sub_cancel_left, List.drop_left]
    exact List.mem_cons_self
  · rcases eq_of_isCloser hcloser with rfl | rfl | rfl <;> decide

/-- A guard behind the brackets guards the place behind them. -/
theorem Cursor.Guarded.group {stop : Nat} {c : Char} (hguard : Cursor.Guarded stop ⟨offset, c :: s⟩)
    (hclose : closing opening expected ⟨offset + 1, s⟩ = .ok close) :
    Cursor.Guarded stop ⟨close + 1, s.drop (close - offset)⟩ := by
  have hlt : offset < close := (closing_eq_iff.1 hclose).bounds.1
  have hbehind := hguard.drop (close - offset + 1)
  have hsum : offset + (close - offset + 1) = close + 1 := by omega
  rwa [hsum, List.drop_succ_cons] at hbehind

theorem drop_behind_embedded (hcloser : isCloser expected = true)
    (h : closing opening expected ⟨offset + 1, s⟩ = .ok close) (behind : List Char) (count : Nat) :
    (s ++ behind).drop (close + count - (offset + count)) = s.drop (close - offset) ++ behind := by
  obtain ⟨inside, word, last, rfl, rfl, -, -⟩ := (closing_eq_ok_iff hcloser).1 h
  rw [Nat.add_sub_add_right]
  refine List.drop_append_of_le_length ?_
  rw [List.length_append, List.length_cons]
  omega

end

/-! ## Code before a bracket -/

section

variable {behind s : List Char} {stop offset : Nat}

/-- The places correspond, and the reader that has to stop goes on there. -/
def Corresponds (behind : List Char) (count stop : Nat) (place place' : Cursor) : Prop :=
  place' = place.embedded behind count ∧ place.Guarded stop

theorem Corresponds.lt_iff {count : Nat} {place place' : Cursor}
    (h : Corresponds behind count stop place place') (last : Nat) :
    place'.offset < last + count ↔ place.offset < last := by
  rw [h.1]
  exact Nat.add_lt_add_iff_right

theorem skipTriviaFrom_embedded (hbehind : StartsLine behind) (count : Nat)
    (hguard : Cursor.Guarded stop ⟨offset, s⟩) :
    CarriesOver (Corresponds behind count stop) (skipTriviaFrom stop offset s)
      (skipTriviaFrom (stop + count) (offset + count) (s ++ behind)) := by
  fun_induction skipTriviaFrom stop offset s with
  | case1 offset =>
    have hpast := hguard.past_of_nil
    rw [skipTriviaFrom_past (Nat.add_le_add_right hpast count), Cursor.clip, Nat.min_eq_right hpast]
    exact .ok ⟨rfl, .past (Nat.le_refl _)⟩
  | case2 offset c rest hlt hblank ih =>
    rw [List.cons_append, skipTriviaFrom_blank hblank (Nat.add_lt_add_right hlt count),
      Nat.add_right_comm]
    exact ih hguard.tail
  | case3 offset c rest hlt hblank hcomment ih =>
    rw [List.cons_append, skipTriviaFrom, if_pos (Nat.add_lt_add_right hlt count), if_neg hblank,
      startsComment_within hbehind, if_pos hcomment]
    refine (scanAt_within _ _ (hguard.finished hlt) hbehind).bind fun lexeme lexeme' _ heq => ?_
    subst heq
    dsimp only
    rw [Lexeme.within_length, lexeme.drop_within, Nat.add_right_comm]
    exact ih lexeme (hguard.drop _)
  | case4 offset c rest hlt hblank hcomment hcontinues ih =>
    rw [Bool.and_eq_true, decide_eq_true_eq] at hcontinues
    obtain ⟨d, more, heq, hend⟩ := exists_of_continuesLine hcontinues.1
    cases heq
    rw [List.cons_append, List.cons_append, skipTriviaFrom_continued hend (by omega),
      Nat.add_right_comm]
    exact ih (hguard.drop 2)
  | case5 offset c rest hlt hblank hcomment hcontinues =>
    rw [List.cons_append, skipTriviaFrom, if_pos (Nat.add_lt_add_right hlt count), if_neg hblank,
      startsComment_within hbehind, if_neg hcomment, continuesLine_within (hguard.not_escape hlt),
      Nat.add_right_comm, decide_eq_decide.2 (Nat.add_lt_add_iff_right), if_neg hcontinues]
    exact .ok ⟨rfl, hguard⟩
  | case6 offset c rest hlt =>
    have hpast := Nat.not_lt.1 hlt
    rw [skipTriviaFrom_past (Nat.add_le_add_right hpast count), Cursor.clip, Nat.min_eq_right hpast]
    exact .ok ⟨rfl, .past (Nat.le_refl _)⟩

theorem codeEndFrom_embedded (hbehind : StartsLine behind) (count : Nat) {last : Nat}
    (hguard : Cursor.Guarded stop ⟨offset, s⟩) :
    CarriesOver (fun found found' => found' = found + count) (codeEndFrom stop last offset s)
      (codeEndFrom (stop + count) (last + count) (offset + count) (s ++ behind)) := by
  fun_induction codeEndFrom stop last offset s with
  | case1 last offset =>
    rw [codeEndFrom_past (Nat.add_le_add_right hguard.past_of_nil count)]
    exact .ok rfl
  | case2 last offset c rest hlt hcontinues ih =>
    obtain ⟨d, more, heq, hend⟩ := exists_of_continuesLine hcontinues
    cases heq
    rw [List.cons_append, List.cons_append, codeEndFrom_continued hend (Nat.add_lt_add_right hlt count),
      Nat.add_right_comm]
    exact ih (hguard.drop 2)
  | case3 last offset c rest hlt hcontinues ih =>
    rw [List.cons_append, codeEndFrom, if_pos (Nat.add_lt_add_right hlt count),
      continuesLine_within (hguard.not_escape hlt), if_neg hcontinues]
    refine (scanAt_within _ _ (hguard.finished hlt) hbehind).bind fun lexeme lexeme' _ heq => ?_
    subst heq
    have hmore := ih lexeme (hguard.drop _)
    dsimp only at hmore ⊢
    rw [Lexeme.within_kind, Lexeme.within_length, lexeme.drop_within, Nat.add_right_comm,
      Nat.add_min_add_right]
    by_cases hskip : (lexeme.kind.isComment ||
        decide (lexeme.kind = .plain) && Text.isBlank c) = true
    · rw [dif_pos hskip] at hmore
      rwa [if_pos hskip, if_pos hskip]
    · rw [dif_neg hskip] at hmore
      rwa [if_neg hskip, if_neg hskip]
  | case4 last offset c rest hlt =>
    rw [codeEndFrom_past (Nat.add_le_add_right (Nat.not_lt.1 hlt) count)]
    exact .ok rfl

theorem codeTextFrom_embedded (hbehind : StartsLine behind) (count : Nat)
    (hguard : Cursor.Guarded stop ⟨offset, s⟩) :
    CarriesOver (fun text text' => text' = text) (codeTextFrom stop offset s)
      (codeTextFrom (stop + count) (offset + count) (s ++ behind)) := by
  fun_induction codeTextFrom stop offset s with
  | case1 offset =>
    rw [codeTextFrom_past (Nat.add_le_add_right hguard.past_of_nil count)]
    exact .ok rfl
  | case2 offset c rest hlt ih =>
    rw [List.cons_append, codeTextFrom, if_pos (Nat.add_lt_add_right hlt count)]
    refine (scanAt_within _ _ (hguard.finished hlt) hbehind).bind fun lexeme lexeme' _ heq => ?_
    subst heq
    have htake : (c :: (rest ++ behind)).take (min lexeme.length (stop - offset)) =
        (c :: rest).take (min lexeme.length (stop - offset)) :=
      List.take_append_of_le_length ((Nat.min_le_left _ _).trans lexeme.length_le)
    dsimp only
    rw [Lexeme.within_kind, Lexeme.within_length, lexeme.drop_within, Nat.add_right_comm, Nat.add_sub_add_right, htake]
    refine (ih lexeme (hguard.drop _)).bind fun more more' _ heq => ?_
    subst heq
    exact .ok rfl
  | case3 offset c rest hlt =>
    rw [codeTextFrom_past (Nat.add_le_add_right (Nat.not_lt.1 hlt) count)]
    exact .ok rfl

theorem splitFrom_embedded (hbehind : StartsLine behind) (count : Nat) {part : Cursor}
    (hpart : part.Guarded stop) (hguard : Cursor.Guarded stop ⟨offset, s⟩) :
    CarriesOver (fun parts parts' => parts' = parts.map (Part.embedded behind count) ∧
        ∀ part ∈ parts, part.Guarded) (splitFrom stop part offset s)
      (splitFrom (stop + count) (part.embedded behind count) (offset + count) (s ++ behind)) := by
  have hlast {part : Cursor} (hpart : part.Guarded stop) :
      CarriesOver (fun parts parts' => parts' = parts.map (Part.embedded behind count) ∧
        ∀ part ∈ parts, part.Guarded) (.ok [⟨part, stop⟩])
        (.ok [⟨part.embedded behind count, stop + count⟩]) :=
    .ok ⟨rfl, List.forall_mem_singleton.2 hpart⟩
  fun_induction splitFrom stop part offset s with
  | case1 part offset =>
    rw [splitFrom_past (Nat.add_le_add_right hguard.past_of_nil count)]
    exact hlast hpart
  | case2 part offset c rest hlt ihGroup ihComma ihPlain ihLexeme =>
    rw [List.cons_append, splitFrom, if_pos (Nat.add_lt_add_right hlt count)]
    refine (scanAt_within _ _ (hguard.finished hlt) hbehind).bind fun lexeme lexeme' _ heq => ?_
    subst heq
    dsimp only
    rw [Lexeme.within_kind, Nat.add_right_comm offset]
    by_cases hkind : lexeme.kind = .plain
    · rw [if_pos hkind, if_pos hkind]
      cases hopener : closer? c with
      | some expected =>
        have hcloser := isCloser_of_closer? hopener
        refine (closing_embedded hcloser behind count).bind fun close close' hclose heq => ?_
        subst heq
        rw [drop_behind_embedded hcloser hclose, Nat.add_right_comm]
        exact ihGroup lexeme close hpart (hguard.group hclose)
      | none =>
        dsimp only
        by_cases hcomma : c = ','
        · rw [if_pos hcomma, if_pos hcomma]
          refine (ihComma lexeme hguard.tail hguard.tail).bind fun parts parts' _ hparts => ?_
          obtain ⟨rfl, hparts⟩ := hparts
          exact .ok ⟨rfl, List.forall_mem_cons.2 ⟨hpart.mono hlt.le, hparts⟩⟩
        · rw [if_neg hcomma, if_neg hcomma]
          exact ihPlain lexeme hpart hguard.tail
    · rw [if_neg hkind, if_neg hkind, Lexeme.within_length, lexeme.drop_within, Nat.add_right_comm]
      exact ihLexeme lexeme hpart (hguard.drop _)
  | case3 part offset c rest hlt =>
    rw [splitFrom_past (Nat.add_le_add_right (Nat.not_lt.1 hlt) count)]
    exact hlast hpart

theorem findArguments_embedded (count : Nat) (hguard : Cursor.Guarded stop ⟨offset, s⟩) :
    CarriesOver (fun found found' => found' = found.map (Cursor.embedded behind count) ∧
        ∀ opening ∈ found, opening.offset < stop ∧ opening.Guarded stop ∧
          ∃ inside, opening.rest = '(' :: inside)
      (findArguments stop offset s)
      (findArguments (stop + count) (offset + count) (s ++ behind)) := by
  fun_induction findArguments stop offset s with
  | case1 offset =>
    rw [findArguments_past (Nat.add_le_add_right hguard.past_of_nil count)]
    exact .ok ⟨rfl, by simp⟩
  | case2 offset rest hlt =>
    rw [List.cons_append, findArguments_paren (Nat.add_lt_add_right hlt count)]
    refine .ok ⟨rfl, ?_⟩
    rintro _ ⟨⟩
    exact ⟨hlt, hguard, rest, rfl⟩
  | case3 offset rest hlt hround ih =>
    rw [List.cons_append, findArguments_square (Nat.add_lt_add_right hlt count), Nat.add_right_comm]
    refine (closing_embedded rfl behind count).bind fun close close' hclose heq => ?_
    subst heq
    rw [drop_behind_embedded rfl hclose, Nat.add_right_comm]
    exact ih close (hguard.group hclose)
  | case4 offset c rest hlt hround hsquare ih =>
    rw [List.cons_append, findArguments_other hround hsquare (Nat.add_lt_add_right hlt count),
      Nat.add_right_comm]
    exact ih hguard.tail
  | case5 offset c rest hlt =>
    rw [findArguments_past (Nat.add_le_add_right (Nat.not_lt.1 hlt) count)]
    exact .ok ⟨rfl, by simp⟩

end

end DscAudit.PowerShell

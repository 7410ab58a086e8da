import DscAudit.Proofs.PowerShell.Nesting
import DscAudit.Proofs.PowerShell.Piece

/-!
# Code and what stands between it

The readers skip gaps of blanks and comments, find where code ends, and copy code with a space for
each comment.  Along pieces each of these functions goes piece by piece.
-/

namespace DscAudit.PowerShell

/-! ## Single pieces -/

def Piece.isBlank (piece : Piece) : Bool := piece.kind == .plain && piece.text.all Text.isBlank

/-- Where code ends these pieces do not count. -/
def Piece.isTrivia (piece : Piece) : Bool :=
  piece.kind.isComment || piece.isBlank || continuesLine piece.text

/-- A comment is shown as a space. -/
def Piece.shown (piece : Piece) : List Char := if piece.kind.isComment then [' '] else piece.text

theorem continuesLine_append {kind : LexemeKind} {text : List Char} (h : IsLexeme kind text)
    (behind : List Char) : continuesLine (text ++ behind) = continuesLine text := by
  have hhead : ∀ (c : Char) (s : List Char), c ≠ '\x60' → continuesLine (c :: s) = false := by
    intro c s hc
    unfold continuesLine
    split
    · next heq => exact absurd (List.cons.inj heq).1 hc
    · rfl
  cases h with
  | @plain c hc =>
      have hescape : c ≠ '\x60' := by
        rintro rfl
        simp at hc
      rw [List.singleton_append, hhead c _ hescape, hhead c _ hescape]
  | escape => rfl
  | lineComment => rfl
  | blockComment => rfl
  | singleQuoted => rfl
  | doubleQuoted => rfl
  | hereString => rfl

theorem eq_of_continuesLine {kind : LexemeKind} {text : List Char} (h : IsLexeme kind text)
    (hcontinues : continuesLine text = true) : ∃ c, text = ['\x60', c] := by
  cases h with
  | plain => simp [continuesLine] at hcontinues
  | escape c => exact ⟨c, rfl⟩
  | lineComment => cases hcontinues
  | blockComment => cases hcontinues
  | singleQuoted => cases hcontinues
  | doubleQuoted => cases hcontinues
  | hereString => cases hcontinues

section Steps

variable {piece : Piece} {behind : List Char} {offset stop last : Nat}

theorem Piece.length_pos (piece : Piece) : 0 < piece.text.length :=
  List.length_pos_iff.2 piece.text_ne_nil

theorem codeEndFrom_piece (hends : Ends piece.kind piece.text behind)
    (hstop : offset + piece.text.length ≤ stop) :
    codeEndFrom stop last offset (piece.text ++ behind) =
      codeEndFrom stop (if piece.isTrivia then last else offset + piece.text.length)
        (offset + piece.text.length) behind := by
  have hpos := piece.length_pos
  by_cases hcontinues : continuesLine piece.text = true
  · have htrivia : piece.isTrivia = true := by
      rw [Piece.isTrivia, hcontinues, Bool.or_true]
    have happend := continuesLine_append piece.isLexeme behind
    obtain ⟨c, htext⟩ := eq_of_continuesLine piece.isLexeme hcontinues
    rw [hcontinues, htext, List.cons_append] at happend
    rw [if_pos htrivia, htext, List.cons_append, codeEndFrom, if_pos (by omega), if_pos happend]
    rfl
  · obtain ⟨c, rest, lexeme, heq, hscan, hkind, hlength⟩ := piece.isLexeme.scans hends
    have hdrop := drop_lexeme heq hlength
    have hnot : ¬ continuesLine (c :: rest) = true := by
      rw [← heq, continuesLine_append piece.isLexeme]
      exact hcontinues
    have hblank : (decide (lexeme.kind = .plain) && Text.isBlank c) = piece.isBlank := by
      by_cases hplain : lexeme.kind = .plain
      · have hsingle := hlength
        rw [length_of_plain hscan hplain] at hsingle
        obtain ⟨d, hd⟩ := List.length_eq_one_iff.1 hsingle.symm
        rw [hd] at heq
        rw [Piece.isBlank, hd, ← hkind, hplain, (List.cons.inj heq).1]
        simp
      · rw [Piece.isBlank, ← hkind]
        simp [hplain]
    have htrivia : (lexeme.kind.isComment || decide (lexeme.kind = .plain) && Text.isBlank c) =
        piece.isTrivia := by
      rw [hblank, hkind, Piece.isTrivia, Bool.eq_false_iff.2 hcontinues, Bool.or_false]
    rw [heq, codeEndFrom, if_pos (by omega), if_neg hnot]
    simp only [scanAt_eq_ok_iff.2 hscan, bind, Except.bind]
    rw [htrivia, hdrop, hlength, Nat.min_eq_left hstop]

theorem codeTextFrom_scans {kind : LexemeKind} {text : List Char} (h : Scans kind text behind)
    (hstop : offset + text.length ≤ stop) :
    codeTextFrom stop offset (text ++ behind) =
      (codeTextFrom stop (offset + text.length) behind).map
        ((if kind.isComment then [' '] else text) ++ ·) := by
  obtain ⟨c, rest, lexeme, heq, hscan, hkind, hlength⟩ := h
  have hpos := lexeme.length_pos
  have hdrop := drop_lexeme heq hlength
  have htake : (c :: rest).take (min lexeme.length (stop - offset)) = text := by
    have hmin : min lexeme.length (stop - offset) = text.length := by omega
    rw [hmin, ← heq, List.take_left]
  rw [heq, codeTextFrom, if_pos (by omega)]
  simp only [scanAt_eq_ok_iff.2 hscan, bind, Except.bind]
  rw [hdrop, hlength, hkind, ← hlength, htake, hlength]
  cases codeTextFrom stop (offset + text.length) behind <;> rfl

theorem codeTextFrom_piece (hends : Ends piece.kind piece.text behind)
    (hstop : offset + piece.text.length ≤ stop) :
    codeTextFrom stop offset (piece.text ++ behind) =
      (codeTextFrom stop (offset + piece.text.length) behind).map (piece.shown ++ ·) :=
  codeTextFrom_scans (piece.isLexeme.scans hends) hstop

theorem skipTriviaFrom_piece (hends : Ends piece.kind piece.text behind)
    (hpiece : piece.kind.isComment = true ∨ piece.isBlank = true)
    (hstop : offset + piece.text.length ≤ stop) :
    skipTriviaFrom stop offset (piece.text ++ behind) =
      skipTriviaFrom stop (offset + piece.text.length) behind := by
  have hpos := piece.length_pos
  obtain ⟨c, rest, lexeme, heq, hscan, hkind, hlength⟩ := piece.isLexeme.scans hends
  have hdrop := drop_lexeme heq hlength
  rcases hpiece with hcomment | hblank
  · have hstart : Text.isBlank c = false ∧ startsComment (c :: rest) = true := by
      obtain ⟨kind, text, h⟩ := piece
      cases h with
      | lineComment =>
          cases heq
          exact ⟨by decide, rfl⟩
      | blockComment =>
          cases heq
          exact ⟨by decide, rfl⟩
      | _ => cases hcomment
    rw [heq, skipTriviaFrom, if_pos (by omega), if_neg (by rw [hstart.1]; exact Bool.false_ne_true),
      if_pos hstart.2]
    simp only [scanAt_eq_ok_iff.2 hscan, bind, Except.bind]
    rw [hdrop, hlength]
  · rw [Piece.isBlank, Bool.and_eq_true, beq_iff_eq] at hblank
    rw [hblank.1] at hkind
    rw [length_of_plain hscan hkind] at hlength
    obtain ⟨d, hd⟩ := List.length_eq_one_iff.1 hlength.symm
    rw [hd, List.all_cons, List.all_nil, Bool.and_true] at hblank
    rw [hd, List.length_singleton] at hstop
    rw [hd, List.singleton_append, skipTriviaFrom, if_pos (by omega), if_pos hblank.2]
    rfl

theorem skipTriviaFrom_trivia (hends : Ends piece.kind piece.text behind)
    (htrivia : piece.isTrivia = true) (hstop : offset + piece.text.length ≤ stop) :
    skipTriviaFrom stop offset (piece.text ++ behind) =
      skipTriviaFrom stop (offset + piece.text.length) behind := by
  rw [Piece.isTrivia, Bool.or_eq_true, Bool.or_eq_true] at htrivia
  rcases htrivia with hfiller | hcontinues
  · exact skipTriviaFrom_piece hends hfiller hstop
  · have happend := continuesLine_append piece.isLexeme behind
    obtain ⟨c, htext⟩ := eq_of_continuesLine piece.isLexeme hcontinues
    rw [hcontinues, htext, List.cons_append] at happend
    rw [htext, List.length_cons, List.length_singleton] at hstop
    have hblank : Text.isBlank '\x60' = false := by decide
    have hstart : startsComment ('\x60' :: ([c] ++ behind)) = false := rfl
    have hboth : (continuesLine ('\x60' :: ([c] ++ behind)) && offset + 1 < stop) = true := by
      rw [happend, Bool.true_and, decide_eq_true_eq]
      omega
    rw [htext, List.cons_append, skipTriviaFrom, if_pos (by omega), hblank, hstart, if_pos hboth]
    rfl

theorem skipTriviaFrom_code (hends : Ends piece.kind piece.text behind)
    (hpiece : piece.isTrivia = false) (hlt : offset < stop) :
    skipTriviaFrom stop offset (piece.text ++ behind) = .ok ⟨offset, piece.text ++ behind⟩ := by
  rw [Piece.isTrivia, Bool.or_eq_false_iff, Bool.or_eq_false_iff] at hpiece
  obtain ⟨⟨hcomment, hblank⟩, hcontinues⟩ := hpiece
  rw [← continuesLine_append piece.isLexeme behind] at hcontinues
  obtain ⟨c, rest, lexeme, heq, hscan, hkind, hlength⟩ := piece.isLexeme.scans hends
  have hstart : startsComment (c :: rest) = false := by
    by_contra hcontra
    have hcontra := isComment_of_startsComment hscan (Bool.of_not_eq_false hcontra)
    rw [hkind, hcomment] at hcontra
    cases hcontra
  have hnot : Text.isBlank c = false := by
    by_contra hcontra
    have hcontra := Bool.of_not_eq_false hcontra
    cases hscan.symm.trans (scan_plain (plain_of_isBlank hcontra).1 rest)
    obtain ⟨d, hd⟩ := List.length_eq_one_iff.1 hlength.symm
    rw [hd] at heq
    rw [Piece.isBlank, ← hkind, hd, (List.cons.inj heq).1] at hblank
    simp [hcontra] at hblank
  rw [heq] at hcontinues ⊢
  rw [skipTriviaFrom, if_pos hlt, hnot, hstart, hcontinues]
  rfl

end Steps

/-! ## Lists of pieces -/

def shownOf (pieces : List Piece) : List Char := pieces.flatMap Piece.shown

@[simp] theorem shownOf_append (pieces more : List Piece) :
    shownOf (pieces ++ more) = shownOf pieces ++ shownOf more := List.flatMap_append

theorem codeTextFrom_past {stop offset : Nat} (h : stop ≤ offset) (s : List Char) :
    codeTextFrom stop offset s = .ok [] := by
  cases s with
  | nil => rw [codeTextFrom]
  | cons c rest => rw [codeTextFrom, if_neg (Nat.not_lt.mpr h)]

theorem codeTextFrom_stop (stop : Nat) (s : List Char) : codeTextFrom stop stop s = .ok [] :=
  codeTextFrom_past (Nat.le_refl stop) s

theorem codeEndFrom_past {stop offset : Nat} (h : stop ≤ offset) (last : Nat) (s : List Char) :
    codeEndFrom stop last offset s = .ok last := by
  cases s with
  | nil => rw [codeEndFrom]
  | cons c rest => rw [codeEndFrom, if_neg (Nat.not_lt.mpr h)]

theorem codeEndFrom_stop (stop last : Nat) (s : List Char) :
    codeEndFrom stop last stop s = .ok last :=
  codeEndFrom_past (Nat.le_refl stop) last s

theorem skipTriviaFrom_past {stop offset : Nat} (h : stop ≤ offset) (s : List Char) :
    skipTriviaFrom stop offset s = .ok ⟨stop, s⟩ := by
  cases s with
  | nil => rw [skipTriviaFrom, Cursor.clip, Nat.min_eq_right h]
  | cons c rest => rw [skipTriviaFrom, if_neg (Nat.not_lt.mpr h), Cursor.clip, Nat.min_eq_right h]

section Lists

variable {pieces : List Piece} {behind : List Char}

theorem codeText_pieces (hfits : Fits pieces behind) (offset : Nat) :
    codeTextFrom (offset + (textOf pieces).length) offset (textOf pieces ++ behind) =
      .ok (shownOf pieces) := by
  generalize hstop : offset + (textOf pieces).length = stop
  induction pieces generalizing offset with
  | nil =>
      rw [textOf_nil, List.length_nil, Nat.add_zero] at hstop
      rw [hstop, codeTextFrom_stop]
      rfl
  | cons piece pieces ih =>
      rw [textOf_cons, List.length_append] at hstop
      rw [textOf_cons, List.append_assoc, codeTextFrom_piece hfits.1 (by omega),
        ih hfits.2 (offset + piece.text.length) (by omega)]
      rfl

theorem codeEndFrom_trivia (hfits : Fits pieces behind)
    (htrivia : ∀ piece ∈ pieces, piece.isTrivia = true) {offset stop last : Nat}
    (hstop : offset + (textOf pieces).length ≤ stop) :
    codeEndFrom stop last offset (textOf pieces ++ behind) =
      codeEndFrom stop last (offset + (textOf pieces).length) behind := by
  induction pieces generalizing offset with
  | nil => rfl
  | cons piece pieces ih =>
      rw [textOf_cons, List.length_append] at hstop ⊢
      rw [List.append_assoc, codeEndFrom_piece hfits.1 (by omega),
        if_pos (htrivia piece List.mem_cons_self),
        ih hfits.2 (fun p hp => htrivia p (List.mem_cons_of_mem _ hp)) (by omega), Nat.add_assoc]

theorem exists_codeEndFrom_pieces (hfits : Fits pieces behind) {offset stop : Nat} (last : Nat)
    (hstop : offset + (textOf pieces).length ≤ stop) :
    ∃ last', codeEndFrom stop last offset (textOf pieces ++ behind) =
      codeEndFrom stop last' (offset + (textOf pieces).length) behind := by
  induction pieces generalizing offset last with
  | nil => exact ⟨last, rfl⟩
  | cons piece pieces ih =>
      rw [textOf_cons, List.length_append] at hstop ⊢
      rw [List.append_assoc, codeEndFrom_piece hfits.1 (by omega)]
      obtain ⟨last', hlast'⟩ := @ih hfits.2 (offset + piece.text.length)
        (if piece.isTrivia = true then last else offset + piece.text.length) (by omega)
      exact ⟨last', by rw [hlast', Nat.add_assoc]⟩

theorem codeEndFrom_code {piece : Piece} (hfits : Fits (pieces ++ [piece]) behind)
    (hpiece : piece.isTrivia = false) {offset stop : Nat} (last : Nat)
    (hstop : offset + (textOf (pieces ++ [piece])).length ≤ stop) :
    codeEndFrom stop last offset (textOf (pieces ++ [piece]) ++ behind) =
      codeEndFrom stop (offset + (textOf (pieces ++ [piece])).length)
        (offset + (textOf (pieces ++ [piece])).length) behind := by
  obtain ⟨hfits, hends, _⟩ := fits_append.1 hfits
  simp only [textOf_append, textOf_cons, textOf_nil, List.append_nil, List.nil_append,
    List.length_append, List.append_assoc] at hfits hends hstop ⊢
  obtain ⟨last', hlast'⟩ := @exists_codeEndFrom_pieces pieces _ hfits offset stop last (by omega)
  rw [hlast', codeEndFrom_piece hends (by omega), hpiece]
  simp only [Bool.false_eq_true, if_false, Nat.add_assoc]

theorem skipTriviaFrom_pieces (hfits : Fits pieces behind)
    (htrivia : ∀ piece ∈ pieces, piece.isTrivia = true) {offset stop : Nat}
    (hstop : offset + (textOf pieces).length ≤ stop) :
    skipTriviaFrom stop offset (textOf pieces ++ behind) =
      skipTriviaFrom stop (offset + (textOf pieces).length) behind := by
  induction pieces generalizing offset with
  | nil => rfl
  | cons piece pieces ih =>
      rw [textOf_cons, List.length_append] at hstop ⊢
      rw [List.append_assoc, skipTriviaFrom_trivia hfits.1 (htrivia piece List.mem_cons_self)
        (by omega), ih hfits.2 (fun p hp => htrivia p (List.mem_cons_of_mem _ hp)) (by omega),
        Nat.add_assoc]

end Lists

end DscAudit.PowerShell

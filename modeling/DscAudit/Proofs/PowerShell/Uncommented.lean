import DscAudit.Proofs.PowerShell.Matching
import DscAudit.Proofs.PowerShell.TwinAttribute

/-!
# Lexemes that are left without comments

A text falls into lexemes in one way.  Where a comment is replaced by a single space, nothing runs
together that was apart before: no lexeme of the code reaches into a blank, and none asks for more than
the character behind it.  So the text without its comments falls into the lexemes of the code and the
spaces, and there is no comment in it that could be replaced again.

Code ends behind the last lexeme that is neither blank, nor a comment, nor a continued line end.
-/

namespace DscAudit.PowerShell

/-! ## Texts and their lexemes -/

/-- A lexeme and its text. -/
structure Token where
  kind : LexemeKind
  text : List Char
  deriving DecidableEq

namespace Token

def space : Token := ⟨.plain, [' ']⟩

/-- What is shown of a lexeme: a comment is shown as a space. -/
def shown (token : Token) : Token := if token.kind.isComment then space else token

/-- Is the lexeme blank, a comment or a continued line end? -/
def isTrivia (token : Token) : Bool :=
  token.kind.isComment || (token.kind == .plain && token.text.all Text.isBlank) ||
    continuesLine token.text

end Token

/-- The text of lexemes one behind the other. -/
def written (tokens : List Token) : List Char := tokens.flatMap Token.text

/-- The scanner finds these lexemes at the front of a text, and what stands behind them is left. -/
inductive FallsInto : List Char → List Token → List Char → Prop
  | nil (rest : List Char) : FallsInto rest [] rest
  | cons {kind : LexemeKind} {text s rest : List Char} {tokens : List Token}
      (hscans : Scans kind text s) (h : FallsInto s tokens rest) :
      FallsInto (text ++ s) (⟨kind, text⟩ :: tokens) rest

@[simp] theorem written_nil : written [] = [] := rfl

@[simp] theorem written_cons (token : Token) (tokens : List Token) :
    written (token :: tokens) = token.text ++ written tokens := rfl

@[simp] theorem written_append (tokens more : List Token) :
    written (tokens ++ more) = written tokens ++ written more := List.flatMap_append

@[simp] theorem Token.isComment_shown (token : Token) : token.shown.kind.isComment = false := by
  unfold shown
  split
  · rfl
  · next hcode => exact Bool.eq_false_iff.mpr hcode

theorem Token.text_shown (token : Token) :
    token.shown.text = if token.kind.isComment then [' '] else token.text := by
  unfold shown
  split <;> rfl

namespace FallsInto

variable {s rest : List Char} {tokens tokens' : List Token}

theorem eq_append (h : FallsInto s tokens rest) : s = written tokens ++ rest := by
  induction h with
  | nil => rfl
  | cons _ _ ih => rw [ih, written_cons, List.append_assoc]

theorem head {kind : LexemeKind} {text : List Char}
    (h : FallsInto (text ++ s) (⟨kind, text⟩ :: tokens) rest) : Scans kind text s := by
  generalize hwhole : text ++ s = whole at h
  cases h with
  | cons hscans _ => rwa [List.append_cancel_left hwhole]

/-- A text falls into lexemes in one way. -/
theorem unique (h : FallsInto s tokens []) (h' : FallsInto s tokens' []) : tokens = tokens' := by
  generalize hend : ([] : List Char) = rest at h
  induction h generalizing tokens' with
  | nil =>
    subst hend
    generalize hnil : ([] : List Char) = s' at h'
    cases h' with
    | nil => rfl
    | cons hscans' _ => exact absurd (List.append_eq_nil_iff.mp hnil.symm).1 hscans'.ne_nil
  | @cons kind text s _ tokens hscans _ ih =>
    generalize hwhole : text ++ s = whole at h'
    cases h' with
    | nil => exact absurd (List.append_eq_nil_iff.mp hwhole).1 hscans.ne_nil
    | cons hscans' h' =>
      obtain ⟨rfl, rfl, rfl⟩ := hscans.unique hscans' hwhole
      rw [ih h' hend]

end FallsInto

/-! ## Spaces in place of comments -/

theorem scans_space (behind : List Char) : Scans .plain [' '] behind :=
  ⟨' ', behind, _, rfl, scan_plain (by decide) behind, rfl, rfl⟩

/-- What stands behind the next lexeme does not matter. -/
theorem Ends.of_scans {kind next : LexemeKind} {text nextText behind behind' : List Char}
    (h : Ends kind text (nextText ++ behind)) (hnext : Scans next nextText behind)
    (hnext' : Scans next nextText behind') : Ends kind text (nextText ++ behind') := by
  obtain ⟨hlexeme | ⟨rfl, rfl, rfl⟩, -⟩ := hnext.isLexeme
  · exact @ends_of_next kind text behind behind' ⟨next, nextText, hlexeme⟩ h
  · -- a backtick at the very end is one only there
    obtain ⟨hlexeme | ⟨-, -, rfl⟩, -⟩ := hnext'.isLexeme
    · cases hlexeme
    · exact h

/-- A lexeme of the code is found also where the comments behind it are spaces. -/
theorem Scans.shown {kind : LexemeKind} {text s : List Char} {tokens : List Token}
    (hscans : Scans kind text s) (hcode : kind.isComment = false) (h : FallsInto s tokens [])
    (hshown : FallsInto (written (tokens.map Token.shown)) (tokens.map Token.shown) []) :
    Scans kind text (written (tokens.map Token.shown)) := by
  obtain ⟨hlexeme | ⟨rfl, rfl, rfl⟩, hends⟩ := hscans.isLexeme
  · refine hlexeme.scans ?_
    cases h with
    | nil => exact hends
    | @cons next nextText s _ tokens hnext h =>
      rw [List.map_cons, written_cons, Token.shown]
      split
      · exact ends_of_isBlank hcode (by decide) text _
      · next hkind =>
        rw [List.map_cons, Token.shown, if_neg hkind, written_cons] at hshown
        exact hends.of_scans hnext hshown.head
  · -- nothing stands behind a backtick at the very end
    generalize hnil : ([] : List Char) = behind at h
    cases h with
    | nil => exact hnil ▸ hscans
    | cons hnext _ => exact absurd (List.append_eq_nil_iff.mp hnil.symm).1 hnext.ne_nil

/-- The text with spaces for its comments falls into its own lexemes, but for the comments. -/
theorem FallsInto.shown {s : List Char} {tokens : List Token} (h : FallsInto s tokens []) :
    FallsInto (written (tokens.map Token.shown)) (tokens.map Token.shown) [] := by
  generalize hend : ([] : List Char) = rest at h
  induction h with
  | nil => exact hend ▸ .nil []
  | @cons kind text s _ tokens hscans h ih =>
    subst hend
    rw [List.map_cons, written_cons, Token.shown]
    split
    · exact .cons (scans_space _) (ih rfl)
    · next hcode => exact .cons (hscans.shown (Bool.eq_false_iff.mpr hcode) h (ih rfl)) (ih rfl)

/-! ## Reading along lexemes -/

theorem FallsInto.codeTextFrom_eq {s rest : List Char} {tokens : List Token} {offset stop : Nat}
    (h : FallsInto s tokens rest) (hstop : stop = offset + (written tokens).length) :
    codeTextFrom stop offset s = .ok (written (tokens.map Token.shown)) := by
  induction h generalizing offset with
  | nil =>
    rw [hstop]
    exact codeTextFrom_stop _ _
  | @cons kind text s rest tokens hscans _ ih =>
    rw [written_cons, List.length_append] at hstop
    dsimp only at hstop
    rw [codeTextFrom_scans hscans (by omega), ih (by omega), List.map_cons, written_cons,
      Token.text_shown]
    rfl

/-- A text whose comments are replaced falls into lexemes. -/
theorem exists_fallsInto {s shown : List Char} {offset stop : Nat}
    (h : codeTextFrom stop offset s = .ok shown) (hstop : stop = offset + s.length) :
    ∃ tokens, FallsInto s tokens [] ∧ shown = written (tokens.map Token.shown) := by
  induction hlength : s.length using Nat.strong_induction_on generalizing offset s shown with
  | _ length ih =>
    subst hlength
    cases s with
    | nil =>
      rw [codeTextFrom] at h
      cases h
      exact ⟨[], .nil [], rfl⟩
    | cons c rest =>
      rw [List.length_cons] at hstop
      cases hscan : Lexeme.scan c rest with
      | error cause =>
        rw [codeTextFrom, if_pos (by omega)] at h
        simp only [Lexeme.scanAt, hscan, bind, Except.bind] at h
        cases h
      | ok lexeme =>
        have hscans := scans_of_scan hscan
        have hsplit := List.take_append_drop lexeme.length (c :: rest)
        have hshorter := Lexeme.length_drop_lt lexeme
        generalize (c :: rest).take lexeme.length = text at hscans hsplit
        generalize (c :: rest).drop lexeme.length = behind at hscans hsplit hshorter
        have hwhole := congrArg List.length hsplit
        rw [List.length_append, List.length_cons] at hwhole
        rw [← hsplit, codeTextFrom_scans hscans (by omega)] at h
        obtain ⟨more, hmore, rfl⟩ := map_eq_ok.mp h
        obtain ⟨tokens, htokens, rfl⟩ := ih _ hshorter hmore (by omega) rfl
        have hfalls := FallsInto.cons hscans htokens
        rw [hsplit] at hfalls
        exact ⟨_, hfalls, by rw [List.map_cons, written_cons, Token.text_shown]⟩

theorem codeEndFrom_scans {kind : LexemeKind} {text behind : List Char} {offset stop last : Nat}
    (h : Scans kind text behind) (hstop : offset + text.length ≤ stop) :
    codeEndFrom stop last offset (text ++ behind) =
      codeEndFrom stop (if (Token.mk kind text).isTrivia then last else offset + text.length)
        (offset + text.length) behind := by
  obtain ⟨hlexeme | ⟨rfl, rfl, rfl⟩, hends⟩ := h.isLexeme
  · exact @codeEndFrom_piece ⟨kind, text, hlexeme⟩ behind offset stop last hends hstop
  · -- a backtick at the very end continues no line
    have hlt : offset < stop := hstop
    have hscan : Lexeme.scan '\x60' [] = .ok ⟨.escape, 1, Nat.one_pos, Nat.le_refl 1⟩ := rfl
    rw [List.append_nil, codeEndFrom, codeEndFrom, if_pos hlt, if_neg (by decide)]
    simp only [scanAt_eq_ok_iff.2 hscan, bind, Except.bind]
    exact (codeEndFrom.eq_def _ _ _ _).trans (congrArg Except.ok (Nat.min_eq_left hstop))

/-- Code ends behind the last lexeme that is no trivia. -/
theorem FallsInto.codeEndFrom_eq {s rest : List Char} {tokens : List Token} {offset stop : Nat}
    (h : FallsInto s tokens rest) (hstop : stop = offset + (written tokens).length) (last : Nat) :
    ∃ code trivia, tokens = code ++ trivia ∧ (∀ token ∈ trivia, token.isTrivia = true) ∧
      (∀ token ∈ code.getLast?, token.isTrivia = false) ∧
      codeEndFrom stop last offset s =
        .ok (if code = [] then last else offset + (written code).length) := by
  induction h generalizing offset last with
  | nil =>
    rw [hstop]
    exact ⟨[], [], rfl, by simp, by simp, codeEndFrom_stop _ _ _⟩
  | @cons kind text s rest tokens hscans _ ih =>
    rw [written_cons, List.length_append] at hstop
    dsimp only at hstop
    obtain ⟨code, trivia, rfl, htrivia, hcode, hend⟩ := @ih (offset + text.length) (by omega)
      (if (Token.mk kind text).isTrivia then last else offset + text.length)
    rw [codeEndFrom_scans hscans (by omega), hend]
    by_cases hnil : code = []
    · subst hnil
      rw [if_pos rfl]
      by_cases hfirst : (Token.mk kind text).isTrivia = true
      · refine ⟨[], ⟨kind, text⟩ :: trivia, rfl, ?_, by simp, by rw [if_pos hfirst, if_pos rfl]⟩
        exact List.forall_mem_cons.mpr ⟨hfirst, htrivia⟩
      · refine ⟨[⟨kind, text⟩], trivia, rfl, htrivia, by simpa using hfirst, ?_⟩
        rw [if_neg hfirst, if_neg (List.cons_ne_nil _ _), written_cons, written_nil, List.append_nil]
    · refine ⟨⟨kind, text⟩ :: code, trivia, rfl, htrivia, ?_, ?_⟩
      · obtain ⟨first, others, rfl⟩ := List.exists_cons_of_ne_nil hnil
        rwa [List.getLast?_cons_cons]
      · rw [if_neg hnil, if_neg (List.cons_ne_nil _ _), written_cons, List.length_append, Nat.add_assoc]

/-! ## Places between lexemes -/

theorem Reaches.exists_fallsInto {s : List Char} {offset place : Nat} (h : Reaches offset s place) :
    ∃ tokens, FallsInto s tokens (s.drop (place - offset)) ∧
      place = offset + (written tokens).length := by
  induction h with
  | here offset s =>
    rw [Nat.sub_self, List.drop_zero]
    exact ⟨[], .nil s, rfl⟩
  | @next c rest offset place lexeme hscan h ih =>
    have hle := h.le
    obtain ⟨tokens, htokens, hplace⟩ := ih
    have hsum : lexeme.length + (place - (offset + lexeme.length)) = place - offset := by omega
    rw [List.drop_drop, hsum] at htokens
    have hfalls := FallsInto.cons (scans_of_scan hscan) htokens
    rw [List.take_append_drop] at hfalls
    refine ⟨_, hfalls, ?_⟩
    rw [written_cons, List.length_append, List.length_take_of_le lexeme.length_le, hplace, Nat.add_assoc]

/-! ## The statement -/

/-- The second text is the first one without its comments: it falls into the lexemes of the code and
a space for each comment, in order, and into no others, so nothing is left to be removed. -/
structure LeavesCode (text shown : List Char) : Prop where
  lexemes : ∃ tokens, FallsInto text tokens [] ∧ FallsInto shown (tokens.map Token.shown) []
  noComment : ∀ tokens, FallsInto shown tokens [] → ∀ token ∈ tokens, token.kind.isComment = false
  stable : codeText (.start shown) shown.length = .ok shown

/-- The code between two places ends at a third one: between this and the last one there is nothing but
trivia, and what ends there is none. -/
structure CodeEndsAt (text : List Char) (start stop place : Nat) : Prop where
  bounds : start ≤ place ∧ place ≤ stop
  lexemes : ∃ code trivia, FallsInto (text.drop start) (code ++ trivia) (text.drop stop) ∧
    place = start + (written code).length ∧ stop = place + (written trivia).length ∧
    (∀ token ∈ trivia, token.isTrivia = true) ∧ ∀ token ∈ code.getLast?, token.isTrivia = false

theorem leavesCode_of_codeText {text shown : List Char}
    (h : codeText (.start text) text.length = .ok shown) : LeavesCode text shown := by
  obtain ⟨tokens, htokens, rfl⟩ := exists_fallsInto h (Nat.zero_add _).symm
  have hshown := htokens.shown
  refine ⟨⟨tokens, htokens, hshown⟩, fun tokens' htokens' token htoken => ?_, ?_⟩
  · rw [htokens'.unique hshown] at htoken
    obtain ⟨original, -, rfl⟩ := List.mem_map.mp htoken
    exact original.isComment_shown
  · have hcode := hshown.codeTextFrom_eq (Nat.zero_add _).symm
    have hsame : (tokens.map Token.shown).map Token.shown = tokens.map Token.shown := by
      rw [List.map_map]
      refine List.map_congr_left fun token _ => ?_
      rw [Function.comp_apply, Token.shown, if_neg (by simp)]
    rwa [hsame] at hcode

theorem exists_codeEndsAt {text : List Char} {start stop : Nat}
    (h : Reaches start (text.drop start) stop) :
    ∃ place, codeEnd ⟨start, text.drop start⟩ stop = .ok place ∧ CodeEndsAt text start stop place := by
  obtain ⟨tokens, htokens, hstop⟩ := h.exists_fallsInto
  obtain ⟨code, trivia, rfl, htrivia, hcode, hend⟩ := htokens.codeEndFrom_eq hstop start
  rw [List.drop_drop, Nat.add_sub_cancel' h.le] at htokens
  rw [written_append, List.length_append, ← Nat.add_assoc] at hstop
  refine ⟨start + (written code).length, ?_, ⟨by omega, by omega⟩, code, trivia, htokens, rfl, hstop,
    htrivia, hcode⟩
  rw [codeEnd, hend]
  split
  · next hnil => rw [hnil]; rfl
  · rfl

/-- The text that is shown for a script, if it is, falls into the lexemes of the script with a space for
each comment, and is shown unchanged.  From any place between two lexemes to another one, code ends behind
the last lexeme that is neither blank, a comment nor a continued line end. -/
theorem comments_leave_code (text : List Char) :
    (∀ shown, codeText (.start text) text.length = .ok shown → LeavesCode text shown) ∧
    ∀ origin start stop, Reaches origin (text.drop origin) start →
      Reaches origin (text.drop origin) stop → start ≤ stop →
      ∃ place, codeEnd ⟨start, text.drop start⟩ stop = .ok place ∧
        CodeEndsAt text start stop place := by
  refine ⟨fun shown h => leavesCode_of_codeText h, fun origin start stop hstart hstop hle => ?_⟩
  have hbetween := hstart.between hstop hle
  rw [List.drop_drop, Nat.add_sub_cancel' hstart.le] at hbetween
  exact exists_codeEndsAt hbetween

/-- A string with a mark in it, a block comment right behind a less-than sign, and a line comment. -/
def remarkedText : List Char := "\x27#\x27<<#\x27#>a #b".toList

theorem comments_leave_code_remarked :
    codeText (.start remarkedText) remarkedText.length = .ok "\x27#\x27< a  ".toList ∧
      LeavesCode remarkedText "\x27#\x27< a  ".toList ∧
      (Reaches 0 remarkedText 4 ∧ Reaches 0 remarkedText 13) ∧
      ∃ place, codeEnd ⟨4, remarkedText.drop 4⟩ 13 = .ok place ∧
        CodeEndsAt remarkedText 4 13 place := by
  obtain ⟨hleaves, hends⟩ := comments_leave_code remarkedText
  have hshown : codeText (.start remarkedText) remarkedText.length =
      .ok "\x27#\x27< a  ".toList := by cbv
  have hfirst : Reaches 0 remarkedText 4 := .next rfl (.next rfl (.here _ _))
  have hlast : Reaches 0 remarkedText 13 :=
    .next rfl (.next rfl (.next rfl (.next rfl (.next rfl (.next rfl (.here _ _))))))
  exact ⟨hshown, hleaves _ hshown, ⟨hfirst, hlast⟩, hends 0 4 13 hfirst hlast (by decide)⟩

end DscAudit.PowerShell

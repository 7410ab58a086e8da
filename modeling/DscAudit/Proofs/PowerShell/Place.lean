import DscAudit.Proofs.PowerShell.Blanking
import DscAudit.Text.LetterCase

/-!
# Places in a text and in the text without its comments

A place stands in the code of a text or in a comment.  Going on character by character, one stays on the
line in both texts, and what is read at a place in the code is read there with blanks in place of the
comments as well, as long as no blank and no mark of a comment is asked for.
-/

namespace DscAudit.PowerShell

/-! ## Places -/

theorem Lexemes.append {first second behind : List Char} (h : Lexemes first (second ++ behind))
    (hsecond : Lexemes second behind) : Lexemes (first ++ second) behind := by
  generalize hrest : second ++ behind = rest at h
  induction h with
  | nil => exact hsecond
  | @cons kind text before rest hscans _ ih =>
    subst hrest
    rw [List.append_assoc]
    rw [← List.append_assoc] at hscans
    exact .cons hscans (ih rfl)

theorem Lexemes.snoc {kind : LexemeKind} {before text behind : List Char}
    (h : Lexemes before (text ++ behind)) (hscans : Scans kind text behind) :
    Lexemes (before ++ text) behind := by
  have hone : Lexemes (text ++ []) behind := .cons hscans (.nil behind)
  rw [List.append_nil] at hone
  exact h.append hone

/-- A place in the code of a text, given by what stands before and behind it there and behind it in the
text with blanks for comments: between two lexemes, or within one that is no comment. -/
inductive InCode : List Char → List Char → List Char → Prop
  | between {before s t : List Char} (hlexemes : Lexemes before s) (h : Blanking s t) :
      InCode before s t
  | within {kind : LexemeKind} {before head rest s t : List Char} (hcode : kind.isComment = false)
      (hlexemes : Lexemes before (head ++ rest ++ s)) (hscans : Scans kind (head ++ rest) s)
      (hhead : head ≠ []) (hrest : rest ≠ []) (h : Blanking s t) :
      InCode (before ++ head) (rest ++ s) (rest ++ t)

/-- A place in a comment of a text, given by what stands before the comment, between its start and the
place, and behind the place. -/
inductive InComment : List Char → List Char → List Char → List Char → Prop
  | mk {kind : LexemeKind} {before head rest blanks s t : List Char}
      (hcomment : kind.isComment = true) (hlexemes : Lexemes before (head ++ rest ++ s))
      (hscans : Scans kind (head ++ rest) s) (hrest : rest ≠ [])
      (hblanks : List.Forall₂ IsBlankFor rest blanks) (h : Blanking s t) :
      InComment before head (rest ++ s) (blanks ++ t)

/-- A comment comes next. -/
structure CommentNext (front s t text behind behind' : List Char) : Prop where
  exists_kind : ∃ kind : LexemeKind, kind.isComment = true ∧ Scans kind text behind
  lexemes : Lexemes front s
  split : s = text ++ behind
  exists_blanks : ∃ blanks, List.Forall₂ IsBlankFor text blanks ∧ t = blanks ++ behind'
  blanking : Blanking behind behind'

theorem InCode.tail {front s t : List Char} {c : Char} (h : InCode front (c :: s) t) :
    (∃ t', t = c :: t' ∧ InCode (front ++ [c]) s t') ∨
      ∃ text behind behind', CommentNext front (c :: s) t text behind behind' := by
  generalize hs : c :: s = rest at h
  cases h with
  | between hlexemes h =>
    cases h with
    | nil => cases hs
    | @comment kind text blanks s' t' hscans hcomment hblanks h =>
      exact .inr ⟨text, s', t', ⟨kind, hcomment, hscans⟩, hlexemes, rfl, ⟨blanks, hblanks, rfl⟩, h⟩
    | @code kind text s' t' hscans hcode h =>
      obtain ⟨d, text, rfl⟩ := List.exists_cons_of_ne_nil hscans.ne_nil
      obtain ⟨rfl, rfl⟩ := List.cons.inj hs
      refine .inl ⟨text ++ t', rfl, ?_⟩
      by_cases htext : text = []
      · subst htext
        exact .between (hlexemes.snoc hscans) h
      · have hlexemes' : Lexemes front ([c] ++ text ++ s') := hlexemes
        exact .within hcode hlexemes' hscans (List.cons_ne_nil _ _) htext h
  | @within kind before head rest s' t' hcode hlexemes hscans hhead hrest h =>
    obtain ⟨d, rest, rfl⟩ := List.exists_cons_of_ne_nil hrest
    obtain ⟨rfl, rfl⟩ := List.cons.inj hs
    refine .inl ⟨rest ++ t', rfl, ?_⟩
    have hsplit : head ++ c :: rest = head ++ [c] ++ rest := by simp
    rw [hsplit] at hlexemes hscans
    rw [List.append_assoc]
    by_cases hempty : rest = []
    · subst hempty
      rw [List.append_nil] at hlexemes hscans
      exact .between (hlexemes.snoc hscans) h
    · exact .within hcode hlexemes hscans (by simp) hempty h

theorem InComment.tail {before head s t : List Char} {c : Char}
    (h : InComment before head (c :: s) t) :
    ∃ b t', t = b :: t' ∧ IsBlankFor c b ∧
      (InComment before (head ++ [c]) s t' ∨ InCode (before ++ head ++ [c]) s t') := by
  generalize hs : c :: s = whole at h
  obtain ⟨hcomment, hlexemes, hscans, hrest, hblanks, h⟩ := h
  cases hblanks with
  | nil => exact absurd rfl hrest
  | @cons d b rest blanks hblank hblanks =>
    obtain ⟨rfl, rfl⟩ := List.cons.inj hs
    refine ⟨b, _, rfl, hblank, ?_⟩
    have hsplit : head ++ c :: rest = head ++ [c] ++ rest := by simp
    rw [hsplit] at hlexemes hscans
    by_cases hempty : rest = []
    · subst hempty
      cases hblanks
      rw [List.append_nil] at hlexemes hscans
      rw [List.append_assoc]
      exact .inr (.between (hlexemes.snoc hscans) h)
    · exact .inl (.mk hcomment hlexemes hscans hempty hblanks h)

theorem Blanking.inCode {s t : List Char} (h : Blanking s t) : InCode [] s t := .between (.nil s) h

theorem InCode.length_eq {front s t : List Char} (h : InCode front s t) : s.length = t.length := by
  cases h with
  | between _ h => exact h.length_eq
  | within _ _ _ _ _ h => rw [List.length_append, List.length_append, h.length_eq]

theorem InComment.length_eq {before head s t : List Char} (h : InComment before head s t) :
    s.length = t.length := by
  obtain ⟨-, -, -, -, hblanks, h⟩ := h
  rw [List.length_append, List.length_append, h.length_eq, hblanks.length_eq]

/-- A comment of a text. -/
structure HasComment (s before text behind : List Char) : Prop where
  split : s = before ++ (text ++ behind)
  lexemes : Lexemes before (text ++ behind)
  exists_kind : ∃ kind : LexemeKind, kind.isComment = true ∧ Scans kind text behind

theorem CommentNext.hasComment {front s t text behind behind' : List Char}
    (h : CommentNext front s t text behind behind') : HasComment (front ++ s) front text behind where
  split := by rw [h.split]
  lexemes := h.split ▸ h.lexemes
  exists_kind := h.exists_kind

theorem CommentNext.behind {front s t text behind behind' : List Char}
    (h : CommentNext front s t text behind behind') : InCode (front ++ text) behind behind' := by
  obtain ⟨kind, -, hscans⟩ := h.exists_kind
  have hlexemes := h.lexemes
  rw [h.split] at hlexemes
  exact .between (hlexemes.snoc hscans) h.blanking

/-- A comment and the blanks in its place start with different characters. -/
theorem CommentNext.heads {front s t text behind behind' : List Char}
    (h : CommentNext front s t text behind behind') :
    (∃ rest, s = '#' :: rest ∨ s = '<' :: rest) ∧ ∃ b rest, t = b :: rest ∧ Text.isBlank b = true := by
  obtain ⟨kind, hcomment, hscans⟩ := h.exists_kind
  obtain ⟨blanks, hblanks, rfl⟩ := h.exists_blanks
  rw [h.split]
  constructor
  · rcases hscans.head_of_isComment hcomment with ⟨content, rfl, -⟩ | ⟨content, rfl⟩
    · exact ⟨_, .inl rfl⟩
    · exact ⟨_, .inr rfl⟩
  · cases hblanks with
    | nil => exact absurd rfl hscans.ne_nil
    | cons hblank _ => exact ⟨_, _, rfl, hblank.1⟩

theorem CommentNext.inComment {front s t text behind behind' : List Char}
    (h : CommentNext front s t text behind behind') : InComment front [] s t := by
  obtain ⟨kind, hcomment, hscans⟩ := h.exists_kind
  obtain ⟨blanks, hblanks, rfl⟩ := h.exists_blanks
  have hlexemes := h.lexemes
  rw [h.split] at hlexemes ⊢
  exact .mk hcomment hlexemes hscans hscans.ne_nil hblanks h.blanking

/-- A place behind another one, in the code or in a comment that starts there. -/
def IsPlace (base front s t : List Char) : Prop :=
  (base <+: front ∧ InCode front s t) ∨
    ∃ before head, front = before ++ head ∧ base <+: before ∧ InComment before head s t

theorem InCode.isPlace {front s t : List Char} (h : InCode front s t) : IsPlace front front s t :=
  .inl ⟨List.prefix_rfl, h⟩

theorem IsPlace.length_eq {base front s t : List Char} (h : IsPlace base front s t) :
    s.length = t.length := by
  rcases h with ⟨-, hcode⟩ | ⟨before, head, -, -, hcomment⟩
  · exact hcode.length_eq
  · exact hcomment.length_eq

theorem IsPlace.tail {base front s t : List Char} {c : Char} (h : IsPlace base front (c :: s) t) :
    ∃ d t', t = d :: t' ∧ (d = c ∨ IsBlankFor c d) ∧ IsPlace base (front ++ [c]) s t' := by
  have hinside {before head : List Char} (hbase : base <+: before)
      (h : InComment before head (c :: s) t) :
      ∃ d t', t = d :: t' ∧ (d = c ∨ IsBlankFor c d) ∧ IsPlace base (before ++ head ++ [c]) s t' := by
    obtain ⟨d, t', rfl, hblank, hrest | hrest⟩ := h.tail
    · exact ⟨d, t', rfl, .inr hblank, .inr ⟨before, _, List.append_assoc .., hbase, hrest⟩⟩
    · rw [List.append_assoc] at hrest ⊢
      exact ⟨d, t', rfl, .inr hblank, .inl ⟨hbase.trans (List.prefix_append ..), hrest⟩⟩
  rcases h with ⟨hbase, hcode⟩ | ⟨before, head, rfl, hbase, hcomment⟩
  · rcases hcode.tail with ⟨t', rfl, hrest⟩ | ⟨text, behind, behind', hnext⟩
    · exact ⟨c, t', rfl, .inl rfl, .inl ⟨hbase.trans (List.prefix_append ..), hrest⟩⟩
    · have hstart := hinside hbase hnext.inComment
      rwa [List.append_nil] at hstart
  · exact hinside hbase hcomment

/-- Lines end at the same places. -/
theorem newline_iff {c d : Char} (h : d = c ∨ IsBlankFor c d) : d = '\n' ↔ c = '\n' := by
  rcases h with rfl | hblank
  · rfl
  · exact hblank.2

theorem IsPlace.drop {base front s t : List Char} (h : IsPlace base front s t) (n : Nat) :
    IsPlace base (front ++ s.take n) (s.drop n) (t.drop n) := by
  induction n generalizing front s t with
  | zero => simpa using h
  | succ n ih =>
    cases s with
    | nil =>
      obtain rfl : t = [] := List.length_eq_zero_iff.1 h.length_eq.symm
      simpa using h
    | cons c s =>
      obtain ⟨d, t', rfl, -, htail⟩ := h.tail
      rw [List.take_succ_cons, List.drop_succ_cons, List.drop_succ_cons, List.append_cons]
      exact ih htail

/-- The rest of the line is equally long. -/
theorem IsPlace.length_line {base front s t : List Char} (h : IsPlace base front s t) :
    (s.takeWhile (· != '\n')).length = (t.takeWhile (· != '\n')).length := by
  induction s generalizing front t with
  | nil =>
    obtain rfl : t = [] := List.length_eq_zero_iff.1 h.length_eq.symm
    rfl
  | cons c s ih =>
    obtain ⟨d, t', rfl, hd, htail⟩ := h.tail
    have hnewline := newline_iff hd
    by_cases hc : c = '\n'
    · rw [List.takeWhile_cons_of_neg (by simp [hc]), List.takeWhile_cons_of_neg (by simp [hnewline.2 hc])]
    · have hd' : d ≠ '\n' := mt hnewline.1 hc
      rw [List.takeWhile_cons_of_pos (by simpa using hc), List.takeWhile_cons_of_pos (by simpa using hd'),
        List.length_cons, List.length_cons, ih htail]

theorem IsPlace.nextLine {base front s t : List Char} (h : IsPlace base front s t) :
    IsPlace base (front ++ s.takeWhile (· != '\n')) (s.dropWhile (· != '\n'))
      (t.dropWhile (· != '\n')) := by
  have hsplit (s : List Char) : s.take (s.takeWhile (· != '\n')).length = s.takeWhile (· != '\n') ∧
      s.drop (s.takeWhile (· != '\n')).length = s.dropWhile (· != '\n') := by
    have htake : (s.takeWhile (· != '\n') ++ s.dropWhile (· != '\n')).take
        (s.takeWhile (· != '\n')).length = s.takeWhile (· != '\n') := List.take_left
    have hdrop : (s.takeWhile (· != '\n') ++ s.dropWhile (· != '\n')).drop
        (s.takeWhile (· != '\n')).length = s.dropWhile (· != '\n') := List.drop_left
    rw [List.takeWhile_append_dropWhile] at htake hdrop
    exact ⟨htake, hdrop⟩
  have hline := h.drop (s.takeWhile (· != '\n')).length
  rwa [(hsplit s).1, (hsplit s).2, h.length_line, (hsplit t).2] at hline

/-! ## Reading at a place in the code -/

section Reading

variable {front s t : List Char}

/-- Reading on leads to a later place in the code, or up to a comment. -/
theorem InCode.dropWhile (h : InCode front s t) {p : Char → Bool}
    (hblank : ∀ c, p c = true → Text.isBlank c = true) :
    InCode (front ++ s.takeWhile p) (s.dropWhile p) (t.dropWhile p) ∨
      ∃ t' text behind behind', t'.dropWhile p = t.dropWhile p ∧
        CommentNext (front ++ s.takeWhile p) (s.dropWhile p) t' text behind behind' := by
  induction s generalizing front t with
  | nil =>
    obtain rfl : t = [] := List.length_eq_zero_iff.1 h.length_eq.symm
    exact .inl (by simpa using h)
  | cons c s ih =>
    rcases h.tail with ⟨t', rfl, htail⟩ | ⟨text, behind, behind', hnext⟩
    · by_cases hc : p c = true
      · rw [List.takeWhile_cons_of_pos hc, List.dropWhile_cons_of_pos hc,
          List.dropWhile_cons_of_pos hc, List.append_cons]
        exact ih htail
      · rw [List.takeWhile_cons_of_neg hc, List.dropWhile_cons_of_neg hc,
          List.dropWhile_cons_of_neg hc, List.append_nil]
        exact .inl h
    · have hc : ¬ p c = true := by
        intro hc
        obtain ⟨⟨rest, heq | heq⟩, -⟩ := hnext.heads
        all_goals
          cases heq
          cases hblank _ hc
      rw [List.takeWhile_cons_of_neg hc, List.dropWhile_cons_of_neg hc, List.append_nil]
      exact .inr ⟨t, text, behind, behind', rfl, hnext⟩

/-- A character that no comment and no blanks start with. -/
def StartsCode (c : Char) : Prop := Text.isBlank c = false ∧ c ∉ ['#', '<']

theorem CommentNext.not_startsCode {text behind behind' : List Char}
    (h : CommentNext front s t text behind behind') :
    (∃ c rest, s = c :: rest ∧ ¬ StartsCode c) ∧ ∃ c rest, t = c :: rest ∧ ¬ StartsCode c := by
  obtain ⟨⟨rest, heq⟩, b, rest', rfl, hb⟩ := h.heads
  refine ⟨?_, b, rest', rfl, fun hstarts => Bool.noConfusion (hb.symm.trans hstarts.1)⟩
  rcases heq with rfl | rfl
  · exact ⟨'#', rest, rfl, fun hstarts => absurd hstarts.2 (by decide)⟩
  · exact ⟨'<', rest, rfl, fun hstarts => absurd hstarts.2 (by decide)⟩

/-- A word of the code is one also with blanks in place of comments. -/
theorem InCode.afterWord? {word : List Char}
    (hword : ∀ letter ∈ word, ∀ c, Text.sameInAnyCase letter c = true → StartsCode c)
    (h : InCode front s t) :
    (Text.afterWord? word s = none ∧ Text.afterWord? word t = none) ∨
      ∃ spelled s' t', s = spelled ++ s' ∧ Text.afterWord? word s = some s' ∧
        Text.afterWord? word t = some t' ∧ InCode (front ++ spelled) s' t' := by
  induction word generalizing front s t with
  | nil => exact .inr ⟨[], s, t, rfl, rfl, rfl, by rwa [List.append_nil]⟩
  | cons letter word ih =>
    rw [List.forall_mem_cons] at hword
    cases s with
    | nil =>
      obtain rfl : t = [] := List.length_eq_zero_iff.1 h.length_eq.symm
      exact .inl ⟨rfl, rfl⟩
    | cons c s =>
      rcases h.tail with ⟨t, rfl, htail⟩ | ⟨text, behind, behind', hnext⟩
      · by_cases hc : Text.sameInAnyCase letter c = true
        · simp only [Text.afterWord?, if_pos hc]
          rcases ih hword.2 htail with hnone | ⟨spelled, s', t', rfl, hs, ht, hrest⟩
          · exact .inl hnone
          · exact .inr ⟨c :: spelled, s', t', rfl, hs, ht, by rwa [List.append_cons]⟩
        · exact .inl ⟨if_neg hc, if_neg hc⟩
      · obtain ⟨⟨d, rest, heq, hd⟩, b, rest', rfl, hb⟩ := hnext.not_startsCode
        obtain ⟨rfl, rfl⟩ := List.cons.inj heq
        exact .inl ⟨if_neg (mt (hword.1 _) hd), if_neg (mt (hword.1 _) hb)⟩

/-- A run of characters of the code ends before a comment and before blanks. -/
theorem InCode.takeWhile {p : Char → Bool} (hcode : ∀ c, p c = true → StartsCode c)
    (h : InCode front s t) : s.takeWhile p = t.takeWhile p ∧
      InCode (front ++ s.takeWhile p) (s.dropWhile p) (t.dropWhile p) := by
  induction s generalizing front t with
  | nil =>
    obtain rfl : t = [] := List.length_eq_zero_iff.1 h.length_eq.symm
    exact ⟨rfl, by simpa using h⟩
  | cons c s ih =>
    have hstop {d : Char} {rest : List Char} (hc : ¬ p c = true) (ht : t = d :: rest)
        (hd : ¬ p d = true) : (c :: s).takeWhile p = t.takeWhile p ∧
          InCode (front ++ (c :: s).takeWhile p) ((c :: s).dropWhile p) (t.dropWhile p) := by
      subst ht
      rw [List.takeWhile_cons_of_neg hc, List.takeWhile_cons_of_neg hd, List.dropWhile_cons_of_neg hc,
        List.dropWhile_cons_of_neg hd, List.append_nil]
      exact ⟨rfl, h⟩
    rcases h.tail with ⟨t', rfl, htail⟩ | ⟨text, behind, behind', hnext⟩
    · by_cases hc : p c = true
      · rw [List.takeWhile_cons_of_pos hc, List.takeWhile_cons_of_pos hc,
          List.dropWhile_cons_of_pos hc, List.dropWhile_cons_of_pos hc, List.append_cons]
        exact ⟨congrArg (List.cons c) (ih htail).1, (ih htail).2⟩
      · exact hstop hc rfl hc
    · obtain ⟨⟨d, rest, heq, hd⟩, b, rest', ht, hb⟩ := hnext.not_startsCode
      obtain ⟨rfl, rfl⟩ := List.cons.inj heq
      exact hstop (mt (hcode c) hd) ht (mt (hcode b) hb)

/-- What starts at a place in the code starts there also with blanks in place of comments. -/
theorem InCode.prefix_iff {part : List Char} (hpart : ∀ c ∈ part, StartsCode c)
    (h : InCode front s t) : part <+: s ↔ part <+: t := by
  induction part generalizing front s t with
  | nil => simp
  | cons c part ih =>
    rw [List.forall_mem_cons] at hpart
    cases s with
    | nil =>
      obtain rfl : t = [] := List.length_eq_zero_iff.1 h.length_eq.symm
      rfl
    | cons d s =>
      rcases h.tail with ⟨t', rfl, htail⟩ | ⟨text, behind, behind', hnext⟩
      · rw [List.cons_prefix_cons, List.cons_prefix_cons, ih hpart.2 htail]
      · obtain ⟨⟨e, rest, heq, he⟩, b, rest', rfl, hb⟩ := hnext.not_startsCode
        obtain ⟨rfl, rfl⟩ := List.cons.inj heq
        rw [List.cons_prefix_cons, List.cons_prefix_cons]
        constructor
        · rintro ⟨rfl, -⟩
          exact absurd hpart.1 he
        · rintro ⟨rfl, -⟩
          exact absurd hpart.1 hb

theorem InComment.not_prefix {before head part : List Char} (hne : part ≠ [])
    (hpart : ∀ c ∈ part, StartsCode c) (h : InComment before head s t) : ¬ part <+: t := by
  obtain ⟨c, part, rfl⟩ := List.exists_cons_of_ne_nil hne
  obtain ⟨-, -, -, hrest, hblanks, -⟩ := h
  cases hblanks with
  | nil => exact absurd rfl hrest
  | cons hblank _ =>
    rw [List.cons_append, List.cons_prefix_cons]
    rintro ⟨rfl, -⟩
    exact Bool.noConfusion (hblank.1.symm.trans (hpart _ List.mem_cons_self).1)

/-- What starts in a comment and holds no mark and no blank ends there. -/
theorem InComment.infix_of_prefix {before head part : List Char}
    (hpart : ∀ c ∈ part, StartsCode c ∧ c ≠ '>') (h : InComment before head s t) (hs : part <+: s) :
    ∃ text behind, HasComment (before ++ head ++ s) before text behind ∧ part <:+: text := by
  obtain ⟨hcomment, hlexemes, hscans, hrest, -, -⟩ := h
  rename_i kind rest blanks s t
  refine ⟨head ++ rest, s, ⟨by simp only [List.append_assoc], hlexemes, kind, hcomment, hscans⟩, ?_⟩
  obtain ⟨more, hmore⟩ := hs
  have hinfix (h : part <+: rest) : part <:+: head ++ rest :=
    h.isInfix.trans (List.suffix_append head rest).isInfix
  rcases List.append_eq_append_iff.1 hmore with ⟨left, rfl, -⟩ | ⟨beyond, rfl, hs⟩
  · exact hinfix (List.prefix_append part left)
  · cases beyond with
    | nil => exact hinfix (by rw [List.append_nil])
    | cons c beyond =>
      -- the part would hold the end of the comment, or of its line
      rcases hscans.end_of_isComment hcomment hrest with ⟨-, hend⟩ | ⟨rest, rfl⟩
      · rw [hs] at hend
        obtain rfl : c = '\n' := hend c rfl
        exact absurd (hpart '\n' (by simp)).1.1 (by decide)
      · exact absurd rfl (hpart '>' (by simp)).2

/-- What starts at a place starts there also with blanks in place of comments, unless it is part of a
comment. -/
theorem IsPlace.prefix_or_comment {base part : List Char} (hne : part ≠ [])
    (hpart : ∀ c ∈ part, StartsCode c ∧ c ≠ '>') (h : IsPlace base front s t) :
    (part <+: t → part <+: s) ∧
      (part <+: s → part <+: t ∨ ∃ before text behind, base <+: before ∧ before <+: front ∧
        HasComment (front ++ s) before text behind ∧ part <:+: text) := by
  have hcode : ∀ c ∈ part, StartsCode c := fun c hc => (hpart c hc).1
  rcases h with ⟨-, h⟩ | ⟨before, head, rfl, hbase, h⟩
  · exact ⟨(h.prefix_iff hcode).2, fun hs => .inl ((h.prefix_iff hcode).1 hs)⟩
  · refine ⟨fun ht => absurd ht (h.not_prefix hne hcode), fun hs => .inr ?_⟩
    obtain ⟨text, behind, hcomment, hinfix⟩ := h.infix_of_prefix hpart hs
    exact ⟨before, text, behind, hbase, List.prefix_append .., hcomment, hinfix⟩

end Reading

end DscAudit.PowerShell

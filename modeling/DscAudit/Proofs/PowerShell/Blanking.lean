import DscAudit.Proofs.PowerShell.Fitting

/-!
# Scripts without their comments

The scanner finds nothing but the lexemes of the syntax.  Where a lexeme ends depends on what stands
behind it only in so far as the two might run together, and a comment runs together with nothing that
blanks in its place would not.  So a script whose comments are replaced by blanks falls into the same
lexemes, comments apart, and its brackets match as before.
-/

namespace DscAudit.PowerShell

/-! ## What the scanner finds -/

theorem exists_of_blockCommentLength? {s : List Char} {n : Nat}
    (h : Lexeme.blockCommentLength? s = some n) :
    ∃ content behind, s = content ++ '#' :: '>' :: behind ∧ n = content.length + 2 ∧
      ¬ ['#', '>'] <:+: content := by
  fun_induction Lexeme.blockCommentLength? s generalizing n with
  | case1 => cases h
  | case2 behind =>
    cases h
    exact ⟨[], behind, rfl, rfl, by simp⟩
  | case3 c rest hopen ih =>
    obtain ⟨m, hm, rfl⟩ := Option.map_eq_some_iff.1 h
    obtain ⟨content, behind, rfl, rfl, hcontent⟩ := ih hm
    refine ⟨c :: content, behind, rfl, rfl, ?_⟩
    rw [List.infix_cons_iff]
    rintro (⟨more, hfirst⟩ | hinfix)
    · obtain ⟨rfl, rfl⟩ := List.cons.inj hfirst
      exact hopen _ rfl rfl
    · exact hcontent hinfix

theorem exists_of_singleQuotedLength? {s : List Char} {n : Nat}
    (h : Lexeme.singleQuotedLength? s = some n) :
    ∃ body behind, s = body ++ '\x27' :: behind ∧ n = body.length + 1 ∧
      QuotedBody '\x27' false body ∧ behind.head? ≠ some '\x27' := by
  fun_induction Lexeme.singleQuotedLength? s generalizing n with
  | case1 => cases h
  | case2 rest ih =>
    obtain ⟨m, hm, rfl⟩ := Option.map_eq_some_iff.1 h
    obtain ⟨body, behind, rfl, rfl, hbody, hbehind⟩ := ih hm
    exact ⟨'\x27' :: '\x27' :: body, behind, rfl, rfl, .twice hbody, hbehind⟩
  | case3 rest hsingle =>
    cases h
    refine ⟨[], rest, rfl, rfl, .nil, ?_⟩
    rw [Ne, List.head?_eq_some_iff]
    rintro ⟨more, rfl⟩
    exact hsingle more rfl
  | case4 c rest _ hquote ih =>
    obtain ⟨m, hm, rfl⟩ := Option.map_eq_some_iff.1 h
    obtain ⟨body, behind, rfl, rfl, hbody, hbehind⟩ := ih hm
    have hescape : false = true → c ≠ '\x60' := fun hfalse => absurd hfalse Bool.false_ne_true
    exact ⟨c :: body, behind, rfl, rfl, .plain hquote hescape hbody, hbehind⟩

theorem exists_of_doubleQuotedLength? {s : List Char} {n : Nat}
    (h : Lexeme.doubleQuotedLength? s = some n) :
    ∃ body behind, s = body ++ '"' :: behind ∧ n = body.length + 1 ∧
      QuotedBody '"' true body ∧ behind.head? ≠ some '"' := by
  fun_induction Lexeme.doubleQuotedLength? s generalizing n with
  | case1 => cases h
  | case2 c rest ih =>
    obtain ⟨m, hm, rfl⟩ := Option.map_eq_some_iff.1 h
    obtain ⟨body, behind, rfl, rfl, hbody, hbehind⟩ := ih hm
    exact ⟨'\x60' :: c :: body, behind, rfl, rfl, .escape c rfl hbody, hbehind⟩
  | case3 rest ih =>
    obtain ⟨m, hm, rfl⟩ := Option.map_eq_some_iff.1 h
    obtain ⟨body, behind, rfl, rfl, hbody, hbehind⟩ := ih hm
    exact ⟨'"' :: '"' :: body, behind, rfl, rfl, .twice hbody, hbehind⟩
  | case4 rest hsingle =>
    cases h
    refine ⟨[], rest, rfl, rfl, .nil, ?_⟩
    rw [Ne, List.head?_eq_some_iff]
    rintro ⟨more, rfl⟩
    exact hsingle more rfl
  | case5 c rest hescape _ hquote ih =>
    obtain ⟨m, hm, rfl⟩ := Option.map_eq_some_iff.1 h
    obtain ⟨body, behind, rfl, rfl, hbody, hbehind⟩ := ih hm
    refine ⟨c :: body, behind, rfl, rfl, .plain hquote (fun _ hc => ?_) hbody, hbehind⟩
    -- a backtick would have taken the next character with it
    cases body with
    | nil => exact hescape _ _ hc rfl
    | cons d body => exact hescape _ _ hc rfl

theorem exists_of_hereStringLength? {quote : Char} (hquote : quote = '\x27' ∨ quote = '"')
    {s : List Char} {n : Nat} (h : Lexeme.hereStringLength? quote s = some n) :
    ∃ body indent behind, s = body ++ '\n' :: (indent ++ quote :: '@' :: behind) ∧
      n = body.length + indent.length + 3 ∧ (∀ c ∈ indent, Lexeme.isIndent c = true) ∧
      ∀ front rest, body = front ++ rest → ¬ ClosesLine quote rest := by
  have hindented : Lexeme.isIndent quote = false := by
    rcases hquote with rfl | rfl <;> decide
  fun_induction Lexeme.hereStringLength? quote s generalizing n with
  | case1 => cases h
  | case2 c rest hcloses =>
    cases h
    rw [Bool.and_eq_true, beq_iff_eq] at hcloses
    obtain ⟨rfl, hcloses⟩ := hcloses
    obtain ⟨indent, behind, heq, hindent⟩ := (closesHereString_iff hindented).1 hcloses
    obtain ⟨-, rfl⟩ := List.cons.inj heq
    have htake : (indent ++ quote :: '@' :: behind).takeWhile Lexeme.isIndent = indent :=
      (Text.takeWhile_append_of_head? hindent fun d hd => by
        cases hd
        exact hindented).1
    refine ⟨[], indent, behind, rfl, by rw [htake]; simp, hindent, ?_⟩
    rintro front rest hnil ⟨indent, more, rfl, -⟩
    simp at hnil
  | case3 c rest hopen ih =>
    obtain ⟨m, hm, rfl⟩ := Option.map_eq_some_iff.1 h
    obtain ⟨body, indent, behind, rfl, rfl, hindent, hbody⟩ := ih hm
    refine ⟨c :: body, indent, behind, rfl, by simp; omega, hindent, ?_⟩
    intro front rest hsplit hcloses
    cases front with
    | cons d front => exact hbody front rest (List.cons.inj hsplit).2 hcloses
    | nil =>
      obtain rfl : c :: body = rest := hsplit
      obtain ⟨indent', more, heq, hindent'⟩ := hcloses
      obtain ⟨rfl, rfl⟩ := List.cons.inj heq
      refine hopen ?_
      rw [Bool.and_eq_true, closesHereString_iff hindented]
      exact ⟨rfl, indent', _, by simp; rfl, hindent'⟩

theorem ofLength?_ok {kind : LexemeKind} {cause : Cause} {s : List Char} {skipped : Nat}
    {n? : Option Nat} (pos : 0 < skipped) {le : ∀ n, n? = some n → skipped + n ≤ s.length}
    {lexeme : Lexeme s} (h : Lexeme.ofLength? kind cause s skipped n? pos le = .ok lexeme) :
    ∃ n, n? = some n ∧ lexeme.kind = kind ∧ lexeme.length = skipped + n := by
  unfold Lexeme.ofLength? at h
  split at h
  · cases h
    exact ⟨_, rfl, rfl, rfl⟩
  · cases h

/-- The text of a lexeme that the scanner finds is one of the syntax, a backtick at the very end
apart, and does not run together with what stands behind it. -/
theorem Scans.isLexeme {kind : LexemeKind} {text behind : List Char} (h : Scans kind text behind) :
    (IsLexeme kind text ∨ kind = .escape ∧ text = ['\x60'] ∧ behind = []) ∧ Ends kind text behind := by
  obtain ⟨c, rest, lexeme, heq, hscan, rfl, hlength⟩ := h
  have hparts {piece rest' : List Char} (hsplit : c :: rest = piece ++ rest')
      (hpiece : lexeme.length = piece.length) : text = piece ∧ behind = rest' :=
    List.append_inj (heq.trans hsplit) (hlength.symm.trans hpiece)
  unfold Lexeme.scan at hscan
  -- one case for each mark that a lexeme can start with, and one for all other characters
  split at hscan
  · rename_i rest
    obtain ⟨n, hn, hkind, hlong⟩ := ofLength?_ok _ hscan
    obtain ⟨content, behind', rfl, rfl, hcontent⟩ := exists_of_blockCommentLength? hn
    obtain ⟨rfl, rfl⟩ := @hparts ('<' :: '#' :: (content ++ ['#', '>'])) behind' (by simp)
      (by simp [hlong]; omega)
    rw [hkind]
    exact ⟨.inl (.blockComment hcontent), trivial⟩
  · cases hscan
    have hline : (rest.takeWhile (· != '\n')) ++ rest.dropWhile (· != '\n') = rest :=
      List.takeWhile_append_dropWhile
    obtain ⟨rfl, rfl⟩ := @hparts ('#' :: rest.takeWhile (· != '\n')) (rest.dropWhile (· != '\n'))
      (by rw [List.cons_append, hline]) (by simp; omega)
    refine ⟨.inl (.lineComment fun hmem => ?_), fun d hd => ?_⟩
    · simpa using List.mem_takeWhile_imp hmem
    · have hstop := List.head?_dropWhile_not (· != '\n') rest
      rw [hd] at hstop
      simpa using hstop
  · cases hscan
    cases rest with
    | nil =>
      -- a backtick at the very end
      obtain ⟨rfl, rfl⟩ := @hparts ['\x60'] [] rfl rfl
      exact ⟨.inr ⟨rfl, rfl, rfl⟩, trivial⟩
    | cons d rest =>
      obtain ⟨rfl, rfl⟩ := @hparts ['\x60', d] rest rfl (by simp)
      exact ⟨.inl (.escape d), trivial⟩
  · rename_i quote rest
    split at hscan
    · rename_i hopens
      rw [Bool.and_eq_true, Bool.or_eq_true, beq_iff_eq, beq_iff_eq] at hopens
      obtain ⟨n, hn, hkind, hlong⟩ := ofLength?_ok _ hscan
      obtain ⟨body, indent, behind', rfl, rfl, hindent, hbody⟩ :=
        exists_of_hereStringLength? hopens.1 hn
      obtain ⟨rfl, rfl⟩ := @hparts ('@' :: quote :: (body ++ '\n' :: (indent ++ [quote, '@']))) behind'
        (by simp) (by simp [hlong]; omega)
      rw [hkind]
      rw [opensHereString_append (by decide) body _ []] at hopens
      exact ⟨.inl (.hereString hopens.1 hopens.2 hindent hbody), trivial⟩
    · -- a plain character that opens no here-string
      rename_i hopens
      cases hscan
      obtain ⟨rfl, rfl⟩ := @hparts ['@'] (quote :: rest) rfl rfl
      refine ⟨.inl (.plain (by decide)), fun hless => absurd hless (by decide),
        fun _ other more heq hquote => ?_⟩
      cases heq
      rw [Bool.and_eq_true, Bool.or_eq_true, beq_iff_eq, beq_iff_eq, not_and] at hopens
      exact Bool.not_eq_true _ ▸ hopens hquote
  · obtain ⟨n, hn, hkind, hlong⟩ := ofLength?_ok _ hscan
    obtain ⟨body, behind', rfl, rfl, hbody, hbehind⟩ := exists_of_singleQuotedLength? hn
    obtain ⟨rfl, rfl⟩ := @hparts ('\x27' :: (body ++ ['\x27'])) behind' (by simp)
      (by simp [hlong]; omega)
    rw [hkind]
    exact ⟨.inl (.singleQuoted hbody), hbehind⟩
  · obtain ⟨n, hn, hkind, hlong⟩ := ofLength?_ok _ hscan
    obtain ⟨body, behind', rfl, rfl, hbody, hbehind⟩ := exists_of_doubleQuotedLength? hn
    obtain ⟨rfl, rfl⟩ := @hparts ('"' :: (body ++ ['"'])) behind' (by simp) (by simp [hlong]; omega)
    rw [hkind]
    exact ⟨.inl (.doubleQuoted hbody), hbehind⟩
  · rename_i hline hescape hsingle hdouble hcomment hat
    cases hscan
    obtain ⟨rfl, rfl⟩ := @hparts [c] rest rfl rfl
    refine ⟨.inl (.plain ?_), ?_, ?_⟩
    · simpa only [List.mem_cons, List.not_mem_nil, or_false, not_or] using
        ⟨hline, hescape, hsingle, hdouble⟩
    · intro hc
      rw [Ne, List.head?_eq_some_iff]
      rintro ⟨more, rfl⟩
      exact hcomment more (List.cons.inj hc).1 rfl
    · intro hc quote more hmore _
      exact absurd hmore (hat quote more (List.cons.inj hc).1)

theorem Scans.unique {kind kind' : LexemeKind} {text text' behind behind' : List Char}
    (h : Scans kind text behind) (h' : Scans kind' text' behind')
    (heq : text ++ behind = text' ++ behind') :
    kind = kind' ∧ text = text' ∧ behind = behind' := by
  obtain ⟨c, rest, lexeme, hsplit, hscan, rfl, hlength⟩ := h
  obtain ⟨c', rest', lexeme', hsplit', hscan', rfl, hlength'⟩ := h'
  obtain ⟨rfl, rfl⟩ := List.cons.inj (hsplit.symm.trans (heq.trans hsplit'))
  obtain rfl : lexeme = lexeme' := Except.ok.inj (hscan.symm.trans hscan')
  exact ⟨rfl, List.append_inj heq (hlength.symm.trans hlength')⟩

theorem Scans.ne_nil {kind : LexemeKind} {text behind : List Char} (h : Scans kind text behind) :
    text ≠ [] := by
  obtain ⟨c, rest, lexeme, -, -, -, hlength⟩ := h
  have hpos := lexeme.length_pos
  rintro rfl
  rw [hlength] at hpos
  cases hpos

/-- A comment starts with a mark that is no part of code. -/
theorem Scans.head_of_isComment {kind : LexemeKind} {text behind : List Char}
    (h : Scans kind text behind) (hcomment : kind.isComment = true) :
    (∃ content, text = '#' :: content ∧ '\n' ∉ content ∧ ∀ c ∈ behind.head?, c = '\n') ∨
      ∃ content, text = '<' :: '#' :: (content ++ ['#', '>']) := by
  obtain ⟨hlexeme | ⟨rfl, -⟩, hends⟩ := h.isLexeme
  · cases hlexeme with
    | lineComment hcontent => exact .inl ⟨_, rfl, hcontent, hends⟩
    | blockComment => exact .inr ⟨_, rfl⟩
    | _ => cases hcomment
  · cases hcomment

/-- A comment ends before the end of its line, or with a mark that is no part of code. -/
theorem Scans.end_of_isComment {kind : LexemeKind} {head rest behind : List Char}
    (h : Scans kind (head ++ rest) behind) (hcomment : kind.isComment = true) (hrest : rest ≠ []) :
    ('\n' ∉ head ++ rest ∧ ∀ c ∈ behind.head?, c = '\n') ∨ ∃ more, rest = more ++ ['>'] := by
  rcases h.head_of_isComment hcomment with ⟨content, htext, hcontent, hend⟩ | ⟨content, htext⟩
  · refine .inl ⟨?_, hend⟩
    rw [htext, List.mem_cons, not_or]
    exact ⟨by decide, hcontent⟩
  · obtain ⟨rest, c, rfl⟩ := (List.eq_nil_or_concat' rest).resolve_left hrest
    have hlast : (head ++ rest) ++ [c] = ('<' :: '#' :: (content ++ ['#'])) ++ ['>'] := by
      simpa using htext
    obtain rfl : c = '>' := List.singleton_inj.1 (List.append_inj' hlast rfl).2
    exact .inr ⟨rest, rfl⟩

/-! ## Blanks in place of comments -/

/-- A blank that keeps the lines of a text if it stands in place of the character. -/
def IsBlankFor (c b : Char) : Prop := Text.isBlank b = true ∧ (b = '\n' ↔ c = '\n')

/-- The second text is the first one with blanks in place of its comments. -/
inductive Blanking : List Char → List Char → Prop
  | nil : Blanking [] []
  | code {kind : LexemeKind} {text s t : List Char} (hscans : Scans kind text s)
      (hcode : kind.isComment = false) (h : Blanking s t) : Blanking (text ++ s) (text ++ t)
  | comment {kind : LexemeKind} {text blanks s t : List Char} (hscans : Scans kind text s)
      (hcomment : kind.isComment = true) (hblanks : List.Forall₂ IsBlankFor text blanks)
      (h : Blanking s t) : Blanking (text ++ s) (blanks ++ t)

theorem Blanking.behind {kind : LexemeKind} {text s t : List Char} (h : Blanking (text ++ s) t)
    (hscans : Scans kind text s) (hcode : kind.isComment = false) :
    ∃ t', t = text ++ t' ∧ Blanking s t' := by
  generalize hwhole : text ++ s = whole at h
  cases h with
  | nil => exact absurd (List.append_eq_nil_iff.1 hwhole).1 hscans.ne_nil
  | code hscans' _ h =>
    obtain ⟨-, rfl, rfl⟩ := hscans.unique hscans' hwhole
    exact ⟨_, rfl, h⟩
  | comment hscans' hcomment _ _ =>
    obtain ⟨rfl, -, -⟩ := hscans.unique hscans' hwhole
    cases hcode.symm.trans hcomment

theorem isBlank_of_mem_blanks {text blanks : List Char}
    (h : List.Forall₂ IsBlankFor text blanks) : ∀ b ∈ blanks, Text.isBlank b = true := by
  induction h with
  | nil => simp
  | cons hblank _ ih => exact List.forall_mem_cons.2 ⟨hblank.1, ih⟩

/-- Whole lexemes stand before a place. -/
inductive Lexemes : List Char → List Char → Prop
  | nil (behind : List Char) : Lexemes [] behind
  | cons {kind : LexemeKind} {text before behind : List Char}
      (hscans : Scans kind text (before ++ behind)) (h : Lexemes before behind) :
      Lexemes (text ++ before) behind

/-- A space, or a line feed in place of a line feed. -/
def spaced (c : Char) : Char := if c = '\n' then c else ' '

theorem forall₂_spaced (text : List Char) : List.Forall₂ IsBlankFor text (text.map spaced) := by
  rw [List.forall₂_map_right_iff, List.forall₂_same]
  intro c _
  unfold spaced
  split
  · rename_i hc
    exact ⟨hc ▸ by decide, Iff.rfl⟩
  · rename_i hc
    exact ⟨by decide, by simp [hc]⟩

/-- There are blanks for the comments of every text whose lexemes end. -/
theorem exists_blanking {s : List Char} (h : Lexemes s []) : ∃ t, Blanking s t := by
  generalize hend : ([] : List Char) = behind at h
  induction h with
  | nil => exact ⟨[], .nil⟩
  | @cons kind text before behind hscans _ ih =>
    subst hend
    rw [List.append_nil] at hscans
    obtain ⟨t, ht⟩ := ih rfl
    cases hkind : kind.isComment with
    | false => exact ⟨text ++ t, .code hscans hkind ht⟩
    | true => exact ⟨text.map spaced ++ t, .comment hscans hkind (forall₂_spaced text) ht⟩

theorem Blanking.length_eq {s t : List Char} (h : Blanking s t) : s.length = t.length := by
  induction h with
  | nil => rfl
  | code _ _ _ ih => rw [List.length_append, List.length_append, ih]
  | comment _ _ hblanks _ ih => rw [List.length_append, List.length_append, hblanks.length_eq, ih]

/-- No code runs together with a blank. -/
theorem ends_of_isBlank {kind : LexemeKind} (hcode : kind.isComment = false) {b : Char}
    (hb : Text.isBlank b = true) (text behind : List Char) : Ends kind text (b :: behind) := by
  have hmark : b ∉ ['#', '\x27', '"'] := Text.not_mem_of_any (by decide) hb
  simp only [List.mem_cons, List.not_mem_nil, or_false, not_or] at hmark
  cases kind with
  | plain =>
    refine ⟨fun _ hhash => hmark.1 (Option.some.inj hhash), fun _ quote rest heq hquote => ?_⟩
    obtain ⟨rfl, rfl⟩ := List.cons.inj heq
    rcases hquote with hquote | hquote
    · exact absurd hquote hmark.2.1
    · exact absurd hquote hmark.2.2
  | singleQuoted => exact fun hquote => hmark.2.1 (Option.some.inj hquote)
  | doubleQuoted => exact fun hquote => hmark.2.2 (Option.some.inj hquote)
  | lineComment => cases hcode
  | blockComment => cases hcode
  | escape => trivial
  | hereString => trivial

theorem Blanking.ends {s t : List Char} (h : Blanking s t) {kind : LexemeKind} {text : List Char}
    (hcode : kind.isComment = false) (hends : Ends kind text s) : Ends kind text t := by
  cases h with
  | nil => exact hends
  | @code next nextText s t hscans hnext h =>
    obtain ⟨hlexeme | ⟨-, -, rfl⟩, -⟩ := hscans.isLexeme
    · exact @ends_of_next kind text s t ⟨next, nextText, hlexeme⟩ hends
    · obtain rfl : t = [] := List.length_eq_zero_iff.1 h.length_eq.symm
      exact hends
  | @comment _ commentText blanks s t hscans _ hblanks _ =>
    cases hblanks with
    | nil => exact absurd rfl hscans.ne_nil
    | cons hblank _ => exact ends_of_isBlank hcode hblank.1 _ _

/-- A lexeme of the code is one also before blanks. -/
theorem Blanking.scans {s t : List Char} (h : Blanking s t) {kind : LexemeKind} {text : List Char}
    (hcode : kind.isComment = false) (hscans : Scans kind text s) : Scans kind text t := by
  obtain ⟨hlexeme | ⟨-, -, rfl⟩, hends⟩ := hscans.isLexeme
  · exact hlexeme.scans (h.ends hcode hends)
  · obtain rfl : t = [] := List.length_eq_zero_iff.1 h.length_eq.symm
    exact hscans

/-! ## Brackets -/

section Brackets

variable {expected : Char} {outer : List Char} {offset : Nat}

theorem closingFrom_blanks {blanks : List Char} (hblanks : ∀ b ∈ blanks, Text.isBlank b = true)
    (behind : List Char) :
    closingFrom expected outer offset (blanks ++ behind) =
      closingFrom expected outer (offset + blanks.length) behind := by
  induction blanks generalizing offset with
  | nil => rfl
  | cons b blanks ih =>
    rw [List.forall_mem_cons] at hblanks
    obtain ⟨hplain, hbracket⟩ := plain_of_isBlank hblanks.1
    rw [List.cons_append, closingFrom_lexeme (scan_plain hplain _) fun _ => hbracket,
      List.length_cons, Nat.add_comm blanks.length, ← Nat.add_assoc]
    exact ih hblanks.2

theorem closingFrom_scans {kind : LexemeKind} {text behind : List Char} (h : Scans kind text behind)
    (hbracket : kind = .plain → ∀ c ∈ text, isBracket c = false) :
    closingFrom expected outer offset (text ++ behind) =
      closingFrom expected outer (offset + text.length) behind := by
  obtain ⟨c, rest, lexeme, heq, hscan, rfl, hlength⟩ := h
  have hdrop := drop_lexeme heq hlength
  have hmem : lexeme.kind = .plain → c ∈ text := by
    intro hplain
    have hone : text.length = 1 := hlength.symm.trans (length_of_plain hscan hplain)
    obtain ⟨d, rfl⟩ := List.length_eq_one_iff.1 hone
    obtain ⟨rfl, -⟩ := List.cons.inj heq
    exact List.mem_singleton_self d
  rw [heq, closingFrom_lexeme hscan fun hplain => hbracket hplain c (hmem hplain), hdrop, hlength]

/-- A plain lexeme is one character. -/
theorem Scans.exists_of_plain {text behind : List Char} (h : Scans .plain text behind) :
    ∃ c, text = [c] := by
  obtain ⟨c, rest, lexeme, -, hscan, hplain, hlength⟩ := h
  exact List.length_eq_one_iff.1 (hlength.symm.trans (length_of_plain hscan hplain))

/-- Blanks in place of comments keep no bracket from the one that closes it. -/
theorem Blanking.closingFrom_eq {s t : List Char} (h : Blanking s t) :
    closingFrom expected outer offset s = closingFrom expected outer offset t := by
  induction h generalizing expected outer offset with
  | nil => rfl
  | @comment kind text blanks s t hscans hcomment hblanks h ih =>
    have hkind : kind ≠ .plain := by
      rintro rfl
      cases hcomment
    rw [closingFrom_scans hscans fun hplain => absurd hplain hkind,
      closingFrom_blanks (isBlank_of_mem_blanks hblanks), ih, hblanks.length_eq]
  | @code kind text s t hscans hcode h ih =>
    have hscans' := h.scans hcode hscans
    by_cases hbracket : kind = .plain → ∀ c ∈ text, isBracket c = false
    · rw [closingFrom_scans hscans hbracket, closingFrom_scans hscans' hbracket, ih]
    · rw [Classical.not_imp] at hbracket
      obtain ⟨rfl, hbracket⟩ := hbracket
      obtain ⟨c, rfl⟩ := hscans.exists_of_plain
      have hc : isBracket c = true := by simpa using hbracket
      rw [List.singleton_append, List.singleton_append]
      have hscan := scan_bracket hc
      rw [isBracket, Bool.or_eq_true, Option.isSome_iff_exists] at hc
      rcases hc with ⟨inner, hopener⟩ | hcloser
      · rw [closingFrom_opener (hscan s) rfl hopener, closingFrom_opener (hscan t) rfl hopener, ih]
      · rw [closingFrom_closer (hscan s) rfl hcloser, closingFrom_closer (hscan t) rfl hcloser]
        cases outer with
        | nil => rfl
        | cons next outer => simp only [ih]

theorem Blanking.closing_eq {s t : List Char} (h : Blanking s t) (opening : Char) :
    closing opening expected ⟨offset, s⟩ = closing opening expected ⟨offset, t⟩ := by
  unfold closing
  rw [h.closingFrom_eq]

end Brackets

end DscAudit.PowerShell

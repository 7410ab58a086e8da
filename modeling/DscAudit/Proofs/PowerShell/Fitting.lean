import DscAudit.Proofs.PowerShell.Written

/-!
# Code in its place

Where the pieces of gaps and values end, and what the readers see of them: gaps are skipped, and
code is read up to its last piece.
-/

namespace DscAudit.PowerShell

/-! ## Plain characters -/

theorem ends_char {c : Char} {hc : c ∉ ['#', '\x60', '\x27', '"']} (hless : c ≠ '<')
    (hat : c ≠ '@') (behind : List Char) :
    Ends (Piece.char c hc).kind (Piece.char c hc).text behind := by
  constructor
  · rintro ⟨⟩
    exact absurd rfl hless
  · rintro ⟨⟩
    exact absurd rfl hat

theorem ends_ordinary {c : Char} {hc : c ∉ ['#', '\x60', '\x27', '"']} (h : IsOrdinary c)
    (behind : List Char) : Ends (Piece.char c hc).kind (Piece.char c hc).text behind := by
  simp only [IsOrdinary, List.mem_cons, List.not_mem_nil, or_false, not_or] at h
  exact ends_char h.1 h.2.2.2.1 behind

theorem Balanced.char {c : Char} {hc : c ∉ ['#', '\x60', '\x27', '"']} {commas : Bool}
    {pieces : List Piece} (hbracket : isBracket c = false) (hcomma : commas = false → c ≠ ',')
    (h : Balanced commas pieces) : Balanced commas (Piece.char c hc :: pieces) := by
  refine .piece ?_ ?_ h
  · rintro d ⟨⟩
    exact hbracket
  · rintro hcommas ⟨⟩
    exact hcomma hcommas rfl

section Chars

variable {s : List Char} {hs : ∀ c ∈ s, c ∉ ['#', '\x60', '\x27', '"']}

theorem fits_chars (h : ∀ c ∈ s, IsOrdinary c) (behind : List Char) :
    Fits (Piece.chars s hs) behind := by
  induction s with
  | nil => trivial
  | cons c s ih =>
      exact ⟨ends_ordinary (h c List.mem_cons_self) _,
        ih fun d hd => h d (List.mem_cons_of_mem c hd)⟩

theorem balanced_chars (h : ∀ c ∈ s, isBracket c = false ∧ c ≠ ',') (commas : Bool) :
    Balanced commas (Piece.chars s hs) := by
  induction s with
  | nil => exact .nil
  | cons c s ih =>
      obtain ⟨hbracket, hcomma⟩ := h c List.mem_cons_self
      exact .char hbracket (fun _ => hcomma) (ih fun d hd => h d (List.mem_cons_of_mem c hd))

theorem shownOf_chars : shownOf (Piece.chars s hs) = s := by
  induction s with
  | nil => rfl
  | cons c s ih => exact congrArg (List.cons c) ih

end Chars

theorem char_not_trivia {c : Char} {hc : c ∉ ['#', '\x60', '\x27', '"']}
    (h : Text.isBlank c = false) : (Piece.char c hc).isTrivia = false := by
  simp [Piece.isTrivia, Piece.char, Piece.isBlank, LexemeKind.isComment, continuesLine, h]

theorem skipTriviaFrom_char {c : Char} (hordinary : IsOrdinary c) (hblank : Text.isBlank c = false)
    {behind : List Char} {offset stop : Nat} (hlt : offset < stop) :
    skipTriviaFrom stop offset (c :: behind) = .ok ⟨offset, c :: behind⟩ :=
  @skipTriviaFrom_code (Piece.char c hordinary.plain) behind offset stop
    (ends_ordinary hordinary _) (char_not_trivia hblank) hlt

/-! ## Gaps -/

theorem exists_char_of_isBlank {piece : Piece} (h : piece.isBlank = true) :
    ∃ c hc, piece = Piece.char c hc ∧ Text.isBlank c = true := by
  rw [Piece.isBlank, Bool.and_eq_true, beq_iff_eq] at h
  obtain ⟨kind, text, hlexeme⟩ := piece
  cases h.1
  cases hlexeme with
  | @plain c hc => exact ⟨c, hc, rfl, by simpa using h.2⟩

theorem isBlank_of_lineEnd {piece : Piece} (h : piece.text = ['\n']) : piece.isBlank = true := by
  obtain ⟨kind, text, hlexeme⟩ := piece
  cases h
  cases hlexeme
  rfl

def IsFiller (piece : Piece) : Prop := piece.kind.isComment = true ∨ piece.isBlank = true

namespace IsFiller

variable {piece : Piece}

theorem isTrivia (h : IsFiller piece) : piece.isTrivia = true := by
  rcases h with h | h <;> simp [Piece.isTrivia, h]

theorem exists_head (h : IsFiller piece) :
    ∃ c rest, piece.text = c :: rest ∧ (Text.isBlank c = true ∨ c = '#' ∨ c = '<') := by
  rcases h with hcomment | hblank
  · obtain ⟨kind, text, hlexeme⟩ := piece
    cases hlexeme with
    | lineComment => exact ⟨_, _, rfl, .inr (.inl rfl)⟩
    | blockComment => exact ⟨_, _, rfl, .inr (.inr rfl)⟩
    | _ => cases hcomment
  · obtain ⟨c, hc, rfl, hc'⟩ := exists_char_of_isBlank hblank
    exact ⟨c, [], rfl, .inl hc'⟩

theorem shown (h : IsFiller piece) : ∀ c ∈ piece.shown, Text.isBlank c = true := by
  rcases h with hcomment | hblank
  · rw [Piece.shown, if_pos hcomment]
    exact List.all_eq_true.1 (by decide)
  · obtain ⟨c, hc, rfl, hc'⟩ := exists_char_of_isBlank hblank
    intro d hd
    cases List.mem_singleton.1 hd
    exact hc'

theorem balanced (h : IsFiller piece) {pieces : List Piece} {commas : Bool}
    (hpieces : Balanced commas pieces) : Balanced commas (piece :: pieces) := by
  have hnot : ∀ c, Text.isBlank c = true ∨ c = '#' ∨ c = '<' → isBracket c = false ∧ c ≠ ',' := by
    rintro c (hblank | rfl | rfl)
    · refine ⟨(plain_of_isBlank hblank).2, ?_⟩
      rintro rfl
      revert hblank
      decide
    · decide
    · decide
  obtain ⟨c, rest, htext, hc⟩ := h.exists_head
  refine .piece ?_ ?_ hpieces
  · intro d hd
    rw [htext] at hd
    rw [← (List.cons.inj hd).1]
    exact (hnot c hc).1
  · intro _ hcomma
    rw [htext] at hcomma
    exact (hnot c hc).2 (List.cons.inj hcomma).1

end IsFiller

namespace Gap

variable (gap : Gap)

theorem fits (behind : List Char) : Fits gap.pieces behind := by
  obtain ⟨pieces, h⟩ := gap
  induction h with
  | nil => trivial
  | blank hpiece _ ih =>
      obtain ⟨c, hc, rfl, hc'⟩ := exists_char_of_isBlank hpiece
      exact ⟨ends_ordinary (plain_of_isBlank hc').1 _, ih⟩
  | block hpiece _ ih =>
      rw [Fits, hpiece]
      exact ⟨trivial, ih⟩
  | @line piece lineEnd pieces hpiece hend _ ih =>
      obtain ⟨c, hc, rfl, hc'⟩ := exists_char_of_isBlank (isBlank_of_lineEnd hend)
      refine ⟨?_, ends_ordinary (plain_of_isBlank hc').1 _, ih⟩
      rw [hpiece, textOf_cons, hend]
      rintro _ ⟨⟩
      rfl

theorem isFiller : ∀ piece ∈ gap.pieces, IsFiller piece := by
  obtain ⟨pieces, h⟩ := gap
  induction h with
  | nil => exact fun piece hpiece => absurd hpiece List.not_mem_nil
  | blank hpiece _ ih => exact List.forall_mem_cons.2 ⟨.inr hpiece, ih⟩
  | block hpiece _ ih => exact List.forall_mem_cons.2 ⟨.inl (by rw [hpiece]; rfl), ih⟩
  | line hpiece hend _ ih =>
      exact List.forall_mem_cons.2 ⟨.inl (by rw [hpiece]; rfl),
        List.forall_mem_cons.2 ⟨.inr (isBlank_of_lineEnd hend), ih⟩⟩

theorem balanced (commas : Bool) : Balanced commas gap.pieces := by
  have hfiller := gap.isFiller
  generalize gap.pieces = pieces at hfiller ⊢
  induction pieces with
  | nil => exact .nil
  | cons piece pieces ih =>
      rw [List.forall_mem_cons] at hfiller
      exact hfiller.1.balanced (ih hfiller.2)

theorem shown : ∀ c ∈ shownOf gap.pieces, Text.isBlank c = true := by
  intro c hc
  obtain ⟨piece, hpiece, hc⟩ := List.mem_flatMap.1 hc
  exact (gap.isFiller piece hpiece).shown c hc

theorem head : ∀ c ∈ gap.text.head?, Text.isBlank c = true ∨ c = '#' ∨ c = '<' := by
  have hfiller := gap.isFiller
  intro c hc
  unfold Gap.text at hc
  cases hpieces : gap.pieces with
  | nil =>
      rw [hpieces] at hc
      cases hc
  | cons piece pieces =>
      obtain ⟨d, rest, htext, hd⟩ :=
        (hfiller piece (by rw [hpieces]; exact List.mem_cons_self)).exists_head
      rw [hpieces, textOf_cons, htext] at hc
      cases hc
      exact hd

theorem head_append (behind : List Char) : ∀ c ∈ (gap.text ++ behind).head?,
    (Text.isBlank c = true ∨ c = '#' ∨ c = '<') ∨ behind.head? = some c := by
  intro c hc
  cases htext : gap.text with
  | nil =>
      rw [htext] at hc
      exact .inr hc
  | cons d rest =>
      rw [htext] at hc
      cases hc
      exact .inl (gap.head _ (by rw [htext]; rfl))

theorem skip {offset stop : Nat} (behind : List Char) (hstop : offset + gap.text.length ≤ stop) :
    skipTriviaFrom stop offset (gap.text ++ behind) =
      skipTriviaFrom stop (offset + gap.text.length) behind :=
  skipTriviaFrom_pieces (gap.fits behind) (fun piece hpiece => (gap.isFiller piece hpiece).isTrivia)
    hstop

theorem codeEnd {offset stop last : Nat} (behind : List Char)
    (hstop : offset + gap.text.length ≤ stop) :
    codeEndFrom stop last offset (gap.text ++ behind) =
      codeEndFrom stop last (offset + gap.text.length) behind :=
  codeEndFrom_trivia (gap.fits behind) (fun piece hpiece => (gap.isFiller piece hpiece).isTrivia)
    hstop

end Gap

/-! ## Code in its place -/

theorem exists_quoted {kind : LexemeKind} {quote : Char} {text : List Char}
    (h : IsLexeme kind (quote :: text)) (hquote : quote = '\x27' ∨ quote = '"') :
    ∃ body, text = body ++ [quote] := by
  cases h with
  | plain hc => rcases hquote with rfl | rfl <;> simp at hc
  | singleQuoted => exact ⟨_, rfl⟩
  | doubleQuoted => exact ⟨_, rfl⟩
  | _ => rcases hquote with hquote | hquote <;> cases hquote

/-- What stands behind the next piece does not matter. -/
theorem ends_of_next {kind : LexemeKind} {text behind behind' : List Char} {next : Piece}
    (h : Ends kind text (next.text ++ behind)) : Ends kind text (next.text ++ behind') := by
  have hhead : (next.text ++ behind').head? = (next.text ++ behind).head? := by
    rw [List.head?_append_of_ne_nil _ next.text_ne_nil,
      List.head?_append_of_ne_nil _ next.text_ne_nil]
  cases kind with
  | plain =>
      refine ⟨fun htext => ?_, fun htext quote rest heq hquote => ?_⟩
      · rw [hhead]
        exact h.1 htext
      · obtain ⟨nextKind, nextText, hlexeme⟩ := next
        cases nextText with
        | nil => exact absurd rfl (Piece.text_ne_nil ⟨nextKind, [], hlexeme⟩)
        | cons d nextText =>
            obtain ⟨rfl, rfl⟩ := List.cons.inj heq
            obtain ⟨body, rfl⟩ := exists_quoted hlexeme hquote
            have hopens := h.2 htext d ((body ++ [d]) ++ behind) rfl hquote
            have hindent : Lexeme.isIndent d = false := by
              rcases hquote with rfl | rfl <;> decide
            rw [List.append_assoc, List.singleton_append] at hopens
            have happend : (body ++ [d]).append behind' = body ++ d :: behind' :=
              List.append_assoc body [d] behind'
            rw [happend, opensHereString_append hindent body behind' behind]
            exact hopens
  | lineComment =>
      rw [Ends, hhead]
      exact h
  | singleQuoted =>
      rw [Ends, hhead]
      exact h
  | doubleQuoted =>
      rw [Ends, hhead]
      exact h
  | blockComment => trivial
  | escape => trivial
  | hereString => trivial

theorem fits_of_next {pieces : List Piece} {behind behind' : List Char} {next : Piece}
    (h : Fits pieces (next.text ++ behind)) : Fits pieces (next.text ++ behind') := by
  induction pieces with
  | nil => trivial
  | cons piece pieces ih =>
      obtain ⟨hends, hfits⟩ := h
      refine ⟨?_, ih hfits⟩
      cases pieces with
      | nil => exact ends_of_next hends
      | cons second pieces =>
          rw [textOf_cons, List.append_assoc] at hends ⊢
          exact ends_of_next hends

/-- Code without comments fits before anything but a quote, or a hash behind a less-than sign. -/
theorem fits_behind {pieces : List Piece} {behind : List Char} (h : Fits pieces [])
    (hcomment : ∀ piece ∈ pieces, piece.kind.isComment = false)
    (hquote : ∀ c ∈ behind.head?, c ≠ '\x27' ∧ c ≠ '"')
    (hless : ∀ piece ∈ pieces.getLast?, piece.kind = .plain → piece.text = ['<'] →
      behind.head? ≠ some '#') : Fits pieces behind := by
  induction pieces with
  | nil => trivial
  | cons piece pieces ih =>
      rw [List.forall_mem_cons] at hcomment
      cases pieces with
      | nil =>
          refine ⟨?_, trivial⟩
          obtain ⟨kind, text, hlexeme⟩ := piece
          cases kind with
          | plain =>
              refine ⟨?_, ?_⟩
              · exact hless _ rfl rfl
              · rintro ⟨⟩ quote rest rfl hq
                obtain ⟨hsingle, hdouble⟩ := hquote quote rfl
                rcases hq with rfl | rfl
                · exact absurd rfl hsingle
                · exact absurd rfl hdouble
          | singleQuoted => exact fun hhead => (hquote _ hhead).1 rfl
          | doubleQuoted => exact fun hhead => (hquote _ hhead).2 rfl
          | lineComment => cases hcomment.1
          | blockComment => trivial
          | escape => trivial
          | hereString => trivial
      | cons next pieces =>
          obtain ⟨hends, hfits⟩ := h
          refine ⟨?_, ih hfits hcomment.2 ?_⟩
          · rw [textOf_cons, List.append_assoc] at hends ⊢
            exact ends_of_next hends
          · rw [List.getLast?_cons_cons] at hless
            exact hless

/-- Code that neither starts nor ends with trivia. -/
structure IsSolid (pieces : List Piece) : Prop where
  first : ∃ piece rest, pieces = piece :: rest ∧ piece.isTrivia = false
  last : ∃ front piece, pieces = front ++ [piece] ∧ piece.isTrivia = false

namespace IsSolid

variable {pieces : List Piece} {behind : List Char} {offset stop : Nat}

theorem skip (h : IsSolid pieces) (hfits : Fits pieces behind) (hlt : offset < stop) :
    skipTriviaFrom stop offset (textOf pieces ++ behind) =
      .ok ⟨offset, textOf pieces ++ behind⟩ := by
  obtain ⟨piece, rest, rfl, hpiece⟩ := h.first
  rw [textOf_cons, List.append_assoc]
  exact skipTriviaFrom_code hfits.1 hpiece hlt

theorem codeEnd (h : IsSolid pieces) {gap : Gap} (hfits : Fits pieces (gap.text ++ behind))
    (last : Nat) (hstop : offset + (textOf pieces).length + gap.text.length = stop) :
    codeEndFrom stop last offset (textOf pieces ++ (gap.text ++ behind)) =
      .ok (offset + (textOf pieces).length) := by
  obtain ⟨front, piece, rfl, hpiece⟩ := h.last
  rw [codeEndFrom_code hfits hpiece last (by omega), gap.codeEnd behind (by omega), hstop,
    codeEndFrom_stop]

theorem length_pos (h : IsSolid pieces) : 0 < (textOf pieces).length := by
  obtain ⟨piece, rest, rfl, _⟩ := h.first
  have hpos := piece.length_pos
  rw [textOf_cons, List.length_append]
  omega

/-- Code between two gaps is found and copied. -/
theorem read (h : IsSolid pieces) (before gap : Gap)
    (hfits : Fits pieces (gap.text ++ behind))
    (hstop : offset + before.text.length + (textOf pieces).length + gap.text.length = stop) :
    skipTriviaFrom stop offset (before.text ++ (textOf pieces ++ (gap.text ++ behind))) =
        .ok ⟨offset + before.text.length, textOf pieces ++ (gap.text ++ behind)⟩ ∧
      PowerShell.codeEnd ⟨offset + before.text.length, textOf pieces ++ (gap.text ++ behind)⟩ stop =
        .ok (offset + before.text.length + (textOf pieces).length) ∧
      codeText ⟨offset + before.text.length, textOf pieces ++ (gap.text ++ behind)⟩
          (offset + before.text.length + (textOf pieces).length) = .ok (shownOf pieces) := by
  have hpos := h.length_pos
  refine ⟨?_, h.codeEnd hfits _ hstop, codeText_pieces hfits _⟩
  exact (before.skip _ (by omega)).trans (h.skip hfits (by omega))

theorem around {more : List Piece} (h : IsSolid pieces) (hmore : IsSolid more)
    (middle : List Piece) : IsSolid (pieces ++ (middle ++ more)) := by
  obtain ⟨first, rest, hfirst, htrivia⟩ := h.first
  obtain ⟨front, last, hlast, htrivia'⟩ := hmore.last
  refine ⟨⟨first, rest ++ (middle ++ more), ?_, htrivia⟩,
    ⟨pieces ++ (middle ++ front), last, ?_, htrivia'⟩⟩
  · rw [hfirst, List.cons_append]
  · rw [hlast]
    simp

end IsSolid

/-! ## Values -/

theorem exists_text_of_isTrivia {piece : Piece} (hcomment : piece.kind.isComment = false)
    (h : piece.isTrivia = true) :
    ∃ c, Text.isBlank c = true ∧ (piece.text = [c] ∨ piece.text = ['\x60', c]) := by
  rw [Piece.isTrivia, hcomment, Bool.false_or, Bool.or_eq_true] at h
  rcases h with hblank | hcontinues
  · obtain ⟨c, hc, rfl, hc'⟩ := exists_char_of_isBlank hblank
    exact ⟨c, hc', .inl rfl⟩
  · obtain ⟨c, htext⟩ := eq_of_continuesLine piece.isLexeme hcontinues
    rw [htext] at hcontinues
    have hc : isLineEnd c = true := hcontinues
    rw [isLineEnd, Bool.or_eq_true, beq_iff_eq, beq_iff_eq] at hc
    refine ⟨c, ?_, .inr htext⟩
    rcases hc with rfl | rfl <;> decide

namespace Value

variable (value : Value)

theorem ne_nil : value.pieces ≠ [] := by
  obtain ⟨c, hc, _⟩ := value.first
  intro hnil
  rw [hnil] at hc
  cases hc

theorem isSolid : IsSolid value.pieces := by
  constructor
  · obtain ⟨c, hc, hblank, hescape⟩ := value.first
    obtain ⟨piece, rest, hpieces⟩ := List.exists_cons_of_ne_nil value.ne_nil
    refine ⟨piece, rest, hpieces, ?_⟩
    rw [hpieces, textOf_cons, List.head?_append_of_ne_nil _ piece.text_ne_nil] at hc
    by_contra hcontra
    obtain ⟨d, hd, htext⟩ := exists_text_of_isTrivia
      (value.noComment piece (by rw [hpieces]; exact List.mem_cons_self))
      (Bool.of_not_eq_false hcontra)
    rcases htext with htext | htext
    · rw [htext] at hc
      cases hc
      rw [hblank] at hd
      cases hd
    · rw [htext] at hc
      cases hc
      exact hescape rfl
  · obtain ⟨c, hc, hblank⟩ := value.last
    obtain ⟨front, piece, hpieces⟩ :=
      (List.eq_nil_or_concat value.pieces).resolve_left value.ne_nil
    rw [List.concat_eq_append] at hpieces
    refine ⟨front, piece, hpieces, ?_⟩
    rw [hpieces, textOf_append, textOf_cons, textOf_nil, List.append_nil,
      List.getLast?_append_of_ne_nil _ piece.text_ne_nil] at hc
    by_contra hcontra
    obtain ⟨d, hd, htext⟩ := exists_text_of_isTrivia
      (value.noComment piece (by rw [hpieces]; simp)) (Bool.of_not_eq_false hcontra)
    have heq : d = c := by
      rcases htext with htext | htext <;> rw [htext] at hc <;> exact Option.some.inj hc
    rw [heq, hblank] at hd
    cases hd

theorem shown : shownOf value.pieces = value.text := by
  have hshown : ∀ pieces : List Piece, (∀ piece ∈ pieces, piece.kind.isComment = false) →
      shownOf pieces = textOf pieces := by
    intro pieces hpieces
    induction pieces with
    | nil => rfl
    | cons piece pieces ih =>
        rw [List.forall_mem_cons] at hpieces
        have hpiece : piece.shown = piece.text := by
          rw [Piece.shown, hpieces.1]
          rfl
        rw [textOf_cons, ← ih hpieces.2, ← hpiece]
        rfl
  exact hshown value.pieces value.noComment

theorem trim {blanks : List Char} (hblanks : ∀ b ∈ blanks, Text.isBlank b = true) :
    Text.trim (blanks ++ value.text) = value.text := by
  obtain ⟨c, hfirst, hc, _⟩ := value.first
  obtain ⟨d, hlast, hd⟩ := value.last
  exact Text.trim_append hblanks hfirst hc hlast hd

end Value

end DscAudit.PowerShell

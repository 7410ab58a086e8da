import DscAudit.Proofs.PowerShell.Matching
import DscAudit.Proofs.PowerShell.Place
import DscAudit.Proofs.PowerShell.TwinBlock
import DscAudit.Proofs.Text.LowerCase

/-!
# The keywords of blocks

The blocks of a text are looked for by a walk that leaves comments, strings and escapes as a whole, and
so are words and blocks.  None of these steps goes past a place where a block starts: the blocks that are
read are the ones at the keywords of the text, those within an earlier block apart.
-/

namespace DscAudit.PowerShell

/-! ## The statement -/

/-- A text in front of a bracket that opens: comments, blanks and continued lines. -/
def IsTrivia (trivia inside : List Char) : Prop :=
  ∃ pieces, trivia = textOf pieces ∧ Fits pieces ('(' :: inside) ∧
    ∀ piece ∈ pieces, piece.isTrivia = true

/-- The keyword of a block stands at a place of the text, and its bracket opens at another one. -/
structure KeywordSite (text : List Char) (site opening : Nat) : Prop where
  walked : Lexemes (text.take site) (text.drop site)
  apart : ∀ c ∈ (text.take site).getLast?, isNamePart c = false ∧ c ∉ ['$', '.', ':']
  letter : ∃ c rest, text.drop site = c :: rest ∧ Scans .plain [c] rest ∧ Text.isLetter c = true
  word : ((text.drop site).takeWhile isNamePart).map Char.toLower = "param".toList
  bracket : ∃ trivia inside, (text.drop site).dropWhile isNamePart = trivia ++ '(' :: inside ∧
    IsTrivia trivia inside ∧
    opening = site + ((text.drop site).takeWhile isNamePart).length + trivia.length

/-- The block is the one of the keyword: it starts there and ends with the bracket that closes the one
behind the keyword. -/
def BlockAt (text : List Char) (block : ParameterBlock Span) : Prop :=
  ∃ opening close, KeywordSite text block.location.start opening ∧
    ClosesAt ')' (opening + 1) (text.drop (opening + 1)) close ∧ block.location.stop = close + 1

/-! ## Lexemes in a row -/

theorem lexemes_of_ordinary {word : List Char} (h : ∀ c ∈ word, IsOrdinary c) (behind : List Char) :
    Lexemes word behind := by
  induction word with
  | nil => exact .nil behind
  | cons c word ih =>
    rw [List.forall_mem_cons] at h
    have hplain := h.1.plain
    exact .cons ((IsLexeme.plain hplain).scans (@ends_ordinary c hplain h.1 _)) (ih h.2)

theorem Fits.lexemes {pieces : List Piece} {behind : List Char} (h : Fits pieces behind) :
    Lexemes (textOf pieces) behind := by
  induction pieces with
  | nil => exact .nil behind
  | cons piece pieces ih => exact .cons (piece.isLexeme.scans h.1) (ih h.2)

theorem Reading.lexemes {inside word behind : List Char} (h : Reading inside word behind) :
    Lexemes inside behind := by
  induction h with
  | nil behind => exact .nil behind
  | lexeme hscans _ ih => exact .cons hscans ih

/-- No walk stops within a lexeme. -/
theorem Lexemes.length_le {front front' piece behind behind' : List Char} {kind : LexemeKind}
    (h : Lexemes front (piece ++ behind)) (hscans : Scans kind piece behind)
    (h' : Lexemes front' behind') (heq : front ++ (piece ++ behind) = front' ++ behind')
    (hlt : front.length < front'.length) : front.length + piece.length ≤ front'.length := by
  generalize hrest : piece ++ behind = rest at h heq
  induction h generalizing front' with
  | nil =>
    subst hrest
    cases h' with
    | nil => cases hlt
    | @cons kind' text before _ hscans' _ =>
      rw [List.nil_append, List.append_assoc] at heq
      obtain ⟨-, rfl, -⟩ := hscans.unique hscans' heq
      rw [List.length_append, List.length_nil]
      omega
  | @cons kind' text before _ hscans' _ ih =>
    subst hrest
    cases h' with
    | nil => cases hlt
    | @cons _ text' before' _ hscans'' h'' =>
      rw [List.append_assoc, List.append_assoc] at heq
      obtain ⟨-, rfl, hbehind⟩ := hscans'.unique hscans'' heq
      rw [List.length_append, List.length_append] at hlt ⊢
      have := ih h'' (by omega) rfl hbehind
      omega

section Places

variable {text piece behind : List Char} {place : Nat}

theorem take_add_of_drop (h : text.drop place = piece ++ behind) :
    text.take (place + piece.length) = text.take place ++ piece := by
  rw [List.take_add, h, List.take_left]

theorem drop_add_of_drop (h : text.drop place = piece ++ behind) :
    text.drop (place + piece.length) = behind := by
  rw [← List.drop_drop, h, List.drop_left]

/-- The walk goes on from a place. -/
theorem Lexemes.goOn (h : Lexemes (text.take place) (text.drop place))
    (hdrop : text.drop place = piece ++ behind) (hpiece : Lexemes piece behind) :
    Lexemes (text.take (place + piece.length)) (text.drop (place + piece.length)) := by
  rw [take_add_of_drop hdrop, drop_add_of_drop hdrop]
  rw [hdrop] at h
  exact h.append hpiece

end Places

/-! ## Trivia in front of a bracket -/

theorem IsTrivia.cons {piece : Piece} {trivia inside : List Char} (h : IsTrivia trivia inside)
    (hpiece : piece.isTrivia = true)
    (hends : Ends piece.kind piece.text (trivia ++ '(' :: inside)) :
    IsTrivia (piece.text ++ trivia) inside := by
  obtain ⟨pieces, rfl, hfits, htrivia⟩ := h
  exact ⟨piece :: pieces, rfl, ⟨hends, hfits⟩, List.forall_mem_cons.2 ⟨hpiece, htrivia⟩⟩

theorem IsTrivia.lexemes {trivia inside : List Char} (h : IsTrivia trivia inside) :
    Lexemes trivia ('(' :: inside) := by
  obtain ⟨pieces, rfl, hfits, -⟩ := h
  exact hfits.lexemes

theorem skipTriviaFrom_isTrivia {trivia inside : List Char} (h : IsTrivia trivia inside)
    (offset stop : Nat) (hstop : offset + trivia.length < stop) :
    skipTriviaFrom stop offset (trivia ++ '(' :: inside) =
      .ok ⟨offset + trivia.length, '(' :: inside⟩ := by
  obtain ⟨pieces, rfl, hfits, htrivia⟩ := h
  rw [skipTriviaFrom_pieces hfits htrivia hstop.le]
  exact skipTriviaFrom_char (by decide) (by decide) hstop

/-- What is skipped in front of a bracket is trivia. -/
theorem exists_isTrivia {s inside : List Char} {offset stop place : Nat}
    (h : skipTriviaFrom stop offset s = .ok ⟨place, '(' :: inside⟩)
    (hstop : offset + s.length ≤ stop) :
    ∃ trivia, s = trivia ++ '(' :: inside ∧ IsTrivia trivia inside ∧
      place = offset + trivia.length := by
  -- a lexeme that is skipped stands in front of the trivia behind it
  have hstep : ∀ {kind : LexemeKind} {text behind : List Char} {offset : Nat},
      Scans kind text behind → (∀ piece : Piece, piece.kind = kind → piece.text = text →
        piece.isTrivia = true) →
      (∃ trivia, behind = trivia ++ '(' :: inside ∧ IsTrivia trivia inside ∧
        place = offset + text.length + trivia.length) →
      ∃ trivia, text ++ behind = trivia ++ '(' :: inside ∧ IsTrivia trivia inside ∧
        place = offset + trivia.length := by
    rintro kind text behind offset hscans hpiece ⟨trivia, rfl, htrivia, rfl⟩
    obtain ⟨piece, hkind, htext, hends⟩ := exists_piece hscans (by simp)
    have hcons := htrivia.cons (hpiece piece hkind htext) hends
    rw [htext] at hcons
    exact ⟨text ++ trivia, (List.append_assoc _ _ _).symm, hcons, by
      rw [List.length_append, Nat.add_assoc]⟩
  fun_induction skipTriviaFrom stop offset s with
  | case1 => cases h
  | case2 offset c rest hlt hblank ih =>
    obtain ⟨hplain, -⟩ := plain_of_isBlank hblank
    rw [List.length_cons] at hstop
    have hscans : Scans .plain [c] rest := ⟨c, rest, _, rfl, scan_plain hplain rest, rfl, rfl⟩
    refine hstep hscans (fun piece hkind htext => ?_) (ih h (by omega))
    rw [Piece.isTrivia, Piece.isBlank, hkind, htext, List.all_cons, hblank]
    rfl
  | case3 offset c rest hlt hblank hcomment ih =>
    obtain ⟨lexeme, hscan, hskipped⟩ := bind_eq_ok.1 h
    rw [scanAt_eq_ok_iff] at hscan
    have hlength : ((c :: rest).take lexeme.length).length = lexeme.length :=
      List.length_take_of_le lexeme.length_le
    have hle := lexeme.length_le
    have hbehind := ih lexeme hskipped (by rw [List.length_drop]; omega)
    rw [← List.take_append_drop lexeme.length (c :: rest)]
    refine hstep (scans_of_scan hscan) (fun piece hkind _ => ?_) (by rw [hlength]; exact hbehind)
    rw [Piece.isTrivia, hkind, isComment_of_startsComment hscan hcomment]
    rfl
  | case4 offset c rest hlt hblank hcomment hcontinues ih =>
    rw [Bool.and_eq_true] at hcontinues
    obtain ⟨d, more, heq, hend⟩ := exists_of_continuesLine hcontinues.1
    cases heq
    rw [List.length_cons, List.length_cons] at hstop
    have hscans : Scans .escape ['\x60', d] more :=
      ⟨'\x60', d :: more, _, rfl, rfl, rfl, by simp⟩
    refine hstep hscans (fun piece hkind htext => ?_) (ih h (by simp; omega))
    rw [Piece.isTrivia, htext]
    simp [continuesLine, hend]
  | case5 offset c rest hlt =>
    cases h
    exact ⟨[], rfl, ⟨[], rfl, trivial, by simp⟩, rfl⟩
  | case6 offset c rest hlt =>
    rw [List.length_cons] at hstop
    omega

/-! ## Places with and without a keyword -/

theorem keywordMayFollow_iff {previous : Option Char} : keywordMayFollow previous = true ↔
    ∀ c ∈ previous, isNamePart c = false ∧ c ∉ ['$', '.', ':'] := by
  cases previous with
  | none => simp [keywordMayFollow]
  | some c => simp [keywordMayFollow, and_assoc]

section Places

variable {text word behind : List Char} {place site opening : Nat}

/-- No keyword starts within a word. -/
theorem not_keywordSite_of_word (hdrop : text.drop place = word ++ behind)
    (hword : ∀ c ∈ word, isNamePart c = true) (hlt : place < site)
    (hsite : site < place + word.length) : ¬ KeywordSite text site opening := by
  intro h
  have hsum : place + (site - place) = site := by omega
  have htake : text.take site = text.take place ++ word.take (site - place) := by
    rw [← hsum, List.take_add, hdrop, List.take_append_of_le_length (by omega), hsum]
  have hne : word.take (site - place) ≠ [] := by
    rw [← List.length_pos_iff, List.length_take]
    omega
  obtain ⟨c, hc⟩ := Option.ne_none_iff_exists'.1 (List.getLast?_eq_none_iff.not.2 hne)
  have hlast : c ∈ (text.take site).getLast? := by
    rw [htake, List.getLast?_append_of_ne_nil _ hne]
    exact hc
  have hname := hword c (List.mem_of_mem_take (List.mem_of_getLast? hc))
  rw [(h.apart c hlast).1] at hname
  cases hname

/-- No keyword starts within a lexeme. -/
theorem not_keywordSite_of_lexeme {kind : LexemeKind}
    (hwalked : Lexemes (text.take place) (text.drop place)) (hdrop : text.drop place = word ++ behind)
    (hscans : Scans kind word behind) (hlt : place < site) (hsite : site < place + word.length) :
    ¬ KeywordSite text site opening := by
  intro h
  obtain ⟨c, rest, hrest, -⟩ := h.letter
  have hlength := congrArg List.length hrest
  rw [List.length_drop, List.length_cons] at hlength
  have htake : ∀ {count : Nat}, count ≤ site → (text.take count).length = count := by
    intro count hcount
    rw [List.length_take]
    omega
  rw [hdrop] at hwalked
  have hle := hwalked.length_le hscans h.walked
    (by rw [← hdrop, List.take_append_drop, List.take_append_drop])
    (by rw [htake hlt.le, htake le_rfl]; exact hlt)
  rw [htake hlt.le, htake le_rfl] at hle
  omega

end Places

/-! ## One turn of the walk -/

/-- The blocks that are read from a place on. -/
def blocksAt (text : List Char) (place : Nat) : Except Fault (List (ParameterBlock Span)) :=
  blocksFrom (text.take place).getLast? place (text.drop place)

/-- The walk comes to a place and reads these blocks from there on. -/
structure ComesTo (text : List Char) (place : Nat) (blocks : List (ParameterBlock Span)) : Prop where
  walked : Lexemes (text.take place) (text.drop place)
  found : blocksAt text place = .ok blocks

/-- What a turn of the walk does: it goes on to a place with no keyword before it, or it reads the block
of the keyword that it stands at. -/
inductive Turn (text : List Char) (place : Nat) (blocks : List (ParameterBlock Span)) : Prop
  | pass (next : Nat) (hlt : place < next) (hnext : ComesTo text next blocks)
      (hnone : ∀ site opening, place ≤ site → site < next → ¬ KeywordSite text site opening)
  | block (block : ParameterBlock Span) (more : List (ParameterBlock Span))
      (hstart : block.location.start = place) (hblock : BlockAt text block)
      (hlt : place < block.location.stop) (hnext : ComesTo text block.location.stop more)
      (hblocks : blocks = block :: more)

section Turns

variable {text rest : List Char} {place : Nat} {c : Char} {blocks : List (ParameterBlock Span)}

/-- A walk over lexemes comes to no keyword. -/
theorem ComesTo.pass {kind : LexemeKind} {word behind : List Char}
    (h : ComesTo text place blocks) (hdrop : text.drop place = word ++ behind)
    (hscans : Scans kind word behind) (hletter : kind = .plain → ∀ c ∈ word,
      (Text.isLetter c && keywordMayFollow (text.take place).getLast?) = false) :
    Turn text place blocks := by
  have hpos := List.length_pos_iff.2 hscans.ne_nil
  have hlexemes : Lexemes (word ++ []) behind := .cons hscans (.nil behind)
  rw [List.append_nil] at hlexemes
  refine .pass (place + word.length) (by omega) ⟨h.walked.goOn hdrop hlexemes, ?_⟩ ?_
  · have hfound := h.found
    rw [blocksAt, hdrop, blocksFrom_scans hscans hletter] at hfound
    rw [blocksAt, take_add_of_drop hdrop, drop_add_of_drop hdrop,
      List.getLast?_append_of_ne_nil _ hscans.ne_nil]
    exact hfound
  · intro site opening hle hlt hsite
    rcases Nat.eq_or_lt_of_le hle with rfl | hless
    · obtain ⟨c, rest, hrest, hplain, hc⟩ := hsite.letter
      obtain ⟨rfl, rfl, -⟩ := hplain.unique hscans (hrest.symm.trans hdrop)
      have hnone := hletter rfl c (List.mem_singleton_self c)
      rw [hc, Bool.true_and, keywordMayFollow_iff.2 hsite.apart] at hnone
      cases hnone
    · exact not_keywordSite_of_lexeme h.walked hdrop hscans hless hlt hsite

/-- A walk over a word that is no keyword comes to none. -/
theorem ComesTo.pass_word {word behind : List Char} (h : ComesTo text place blocks)
    (hdrop : text.drop place = word ++ behind) (hword : ∀ c ∈ word, isNamePart c = true)
    (hne : word ≠ []) (hnone : ∀ opening, ¬ KeywordSite text place opening)
    (hfound : blocksFrom word.getLast? (place + word.length) behind = .ok blocks) :
    Turn text place blocks := by
  have hpos := List.length_pos_iff.2 hne
  have hlexemes := lexemes_of_ordinary (fun c hc => (Twin.ordinary_of_isNamePart (hword c hc)).1) behind
  refine .pass (place + word.length) (by omega) ⟨h.walked.goOn hdrop hlexemes, ?_⟩ ?_
  · rw [blocksAt, take_add_of_drop hdrop, drop_add_of_drop hdrop,
      List.getLast?_append_of_ne_nil _ hne]
    exact hfound
  · intro site opening hle hlt
    rcases Nat.eq_or_lt_of_le hle with rfl | hless
    · exact hnone opening
    · exact not_keywordSite_of_word hdrop hword hless hlt

theorem location_of_readBlock {keyword close : Nat} {inside : Cursor} {block : ParameterBlock Span}
    (h : readBlock keyword inside close = .ok block) : block.location = ⟨keyword, close + 1⟩ := by
  unfold readBlock at h
  obtain ⟨parts, -, h⟩ := bind_eq_ok.1 h
  obtain ⟨parameters, -, h⟩ := bind_eq_ok.1 h
  cases h
  rfl

/-- A walk over a block comes to the place behind it. -/
theorem ComesTo.block {word trivia inner behind : List Char} {block : ParameterBlock Span}
    {more : List (ParameterBlock Span)} (h : ComesTo text place blocks)
    (hsite : KeywordSite text place (place + word.length + trivia.length))
    (hdrop : text.drop place = word ++ (trivia ++ '(' :: (inner ++ ')' :: behind)))
    (hword : ∀ c ∈ word, isNamePart c = true)
    (htrivia : IsTrivia trivia (inner ++ ')' :: behind)) {brackets : List Char}
    (hreading : Reading inner brackets (')' :: behind)) (hnested : Nested brackets)
    (hlocation : block.location =
      ⟨place, place + word.length + trivia.length + 1 + inner.length + 1⟩)
    (hmore : blocksFrom (some ')') (place + word.length + trivia.length + 1 + inner.length + 1)
      behind = .ok more) (hblocks : blocks = block :: more) :
    Turn text place blocks := by
  have hround : ∀ c ∈ ['('], IsOrdinary c := List.forall_mem_singleton.2 (by decide)
  have hclosing : ∀ c ∈ [')'], IsOrdinary c := List.forall_mem_singleton.2 (by decide)
  have hname : ∀ c ∈ word, IsOrdinary c := fun c hc => (Twin.ordinary_of_isNamePart (hword c hc)).1
  -- the parts of the block one after the other
  have htriviaAt := drop_add_of_drop hdrop
  have hopeningAt := drop_add_of_drop htriviaAt
  have hinnerAt := @drop_add_of_drop text ['('] _ _ hopeningAt
  have hcloseAt := drop_add_of_drop hinnerAt
  have hbehindAt := @drop_add_of_drop text [')'] _ _ hcloseAt
  have hwalked := (h.walked.goOn hdrop (lexemes_of_ordinary hname _)).goOn htriviaAt htrivia.lexemes
  have hopened := @Lexemes.goOn text ['('] _ _ hwalked hopeningAt (lexemes_of_ordinary hround _)
  have hwalked' := @Lexemes.goOn text [')'] _ _ (hopened.goOn hinnerAt hreading.lexemes) hcloseAt
    (lexemes_of_ordinary hclosing _)
  have hlast := congrArg List.getLast? (@take_add_of_drop text [')'] _ _ hcloseAt)
  rw [List.getLast?_append_of_ne_nil _ (List.cons_ne_nil _ _)] at hlast
  refine .block block more (by rw [hlocation]) ?_
    (by rw [hlocation]; dsimp only; omega) ?_ hblocks
  · refine ⟨_, _, by rw [hlocation]; exact hsite, ?_, by rw [hlocation]⟩
    exact ⟨inner, brackets, behind, hinnerAt, rfl, hreading, hnested⟩
  · rw [hlocation]
    refine ⟨hwalked', ?_⟩
    rw [blocksAt]
    dsimp only [List.length_singleton] at hlast hbehindAt ⊢
    rw [hlast, hbehindAt]
    exact hmore

theorem ComesTo.turn_of_letter (h : ComesTo text place blocks) (hdrop : text.drop place = c :: rest)
    (hletter : Text.isLetter c = true)
    (hfollow : keywordMayFollow (text.take place).getLast? = true) : Turn text place blocks := by
  generalize hword : (text.drop place).takeWhile isNamePart = word
  generalize hbehind : (text.drop place).dropWhile isNamePart = behind
  have hsplit : text.drop place = word ++ behind := by
    rw [← hword, ← hbehind, List.takeWhile_append_dropWhile]
  have hname : ∀ d ∈ word, isNamePart d = true := by
    rw [← hword]
    exact fun d hd => List.mem_takeWhile_imp hd
  have hcons : c :: rest.takeWhile isNamePart = word := by
    rw [← hword, hdrop, List.takeWhile_cons_of_pos (isNamePart_of_isLetter hletter)]
  have hne : word ≠ [] := by
    rw [← hcons]
    exact List.cons_ne_nil _ _
  have hcursor : (⟨place + word.length, rest.drop (word.length - 1)⟩ : Cursor) =
      ⟨place + word.length, behind⟩ := by
    rw [← drop_add_of_drop hsplit, ← List.drop_drop, hdrop, ← hcons, List.length_cons,
      Nat.add_sub_cancel, List.drop_succ_cons]
  have hfound := h.found
  rw [blocksAt, hdrop] at hfound
  have hlower : Text.lower word = "param".toList ↔ word.map Char.toLower = "param".toList :=
    Text.lower_eq_iff (Text.isPlainLower_of_all (by decide))
  by_cases hkeyword : Text.lower word = "param".toList
  swap
  · rw [blocksFrom_word hletter hfollow hcons hcursor hkeyword] at hfound
    refine h.pass_word hsplit hname hne (fun opening hsite => hkeyword (hlower.2 ?_)) hfound
    rw [← hword]
    exact hsite.word
  rw [blocksFrom_keyword hletter hfollow hcons hcursor hkeyword] at hfound
  obtain ⟨next, hnext, hfound⟩ := bind_eq_ok.1 hfound
  have hend : place + rest.length + 1 = text.length := by
    have hlength := congrArg List.length hdrop
    rw [List.length_drop, List.length_cons] at hlength
    omega
  have hstop : place + word.length + behind.length = text.length := by
    have hlength := congrArg List.length hsplit
    rw [List.length_drop, List.length_append] at hlength
    omega
  rw [hend] at hnext
  obtain ⟨offset, s⟩ := next
  by_cases hround : s.head? = some '('
  swap
  · have hpass : blocksFrom word.getLast? (place + word.length) behind = .ok blocks := by
      rw [← hfound]
      split
      · next hinside => exact absurd (congrArg List.head? hinside) hround
      · rfl
    refine h.pass_word hsplit hname hne (fun opening hsite => hround ?_) hpass
    obtain ⟨trivia, inside, htrivia, hisTrivia, -⟩ := hsite.bracket
    rw [hbehind] at htrivia
    rw [htrivia, List.length_append, List.length_cons] at hstop
    have hskip := skipTriviaFrom_isTrivia hisTrivia (place + word.length) text.length (by omega)
    rw [← htrivia] at hskip
    cases hskip.symm.trans hnext
    rfl
  obtain ⟨inside, rfl⟩ := List.head?_eq_some_iff.1 hround
  obtain ⟨trivia, hbehindEq, htrivia, rfl⟩ := exists_isTrivia hnext hstop.le
  obtain ⟨close, hclose, hfound⟩ := bind_eq_ok.1 hfound
  obtain ⟨block, hblock, hfound⟩ := bind_eq_ok.1 hfound
  obtain ⟨more, hmore, hfound⟩ := bind_eq_ok.1 hfound
  cases hfound
  obtain ⟨inner, brackets, after, rfl, rfl, hreading, hnested⟩ := (closing_eq_ok_iff rfl).1 hclose
  rw [drop_behind] at hmore
  refine h.block ?_ (hsplit.trans (congrArg _ hbehindEq)) hname htrivia hreading hnested
    (location_of_readBlock hblock) hmore rfl
  refine ⟨h.walked, keywordMayFollow_iff.1 hfollow, ⟨c, rest, hdrop, ?_, hletter⟩, ?_, ?_⟩
  · exact ⟨c, rest, _, rfl, scan_plain (Twin.ordinary_of_isNamePart
      (isNamePart_of_isLetter hletter)).1 rest, rfl, rfl⟩
  · rw [hword]
    exact hlower.1 hkeyword
  · exact ⟨trivia, _, hbehind.trans hbehindEq, htrivia, by rw [hword]⟩

theorem ComesTo.turn (h : ComesTo text place blocks) (hlt : place < text.length) :
    Turn text place blocks := by
  obtain ⟨c, rest, hdrop⟩ :=
    List.exists_cons_of_ne_nil (List.drop_eq_nil_iff.not.2 (Nat.not_le.2 hlt))
  have hfound := h.found
  rw [blocksAt, hdrop] at hfound
  rcases hscan : Lexeme.scan c rest with cause | lexeme
  · rw [blocksFrom] at hfound
    simp only [Lexeme.scanAt, hscan] at hfound
    cases hfound
  by_cases hstarts : (Text.isLetter c && keywordMayFollow (text.take place).getLast?) = true
  swap
  · have hsplit : text.drop place = (c :: rest).take lexeme.length ++ (c :: rest).drop lexeme.length := by
      rw [List.take_append_drop, hdrop]
    refine h.pass hsplit (scans_of_scan hscan) fun hplain d hd => ?_
    rw [length_of_plain hscan hplain] at hd
    cases List.mem_singleton.1 hd
    exact Bool.eq_false_iff.2 hstarts
  rw [Bool.and_eq_true] at hstarts
  exact h.turn_of_letter hdrop hstarts.1 hstarts.2

/-- All blocks are read at keywords, and no keyword is passed by but within a block. -/
theorem ComesTo.keywords (h : ComesTo text place blocks) :
    (∀ block ∈ blocks, BlockAt text block) ∧
      ∀ site opening, place ≤ site → KeywordSite text site opening →
        ∃ block ∈ blocks, block.location.start ≤ site ∧ site < block.location.stop := by
  induction hleft : text.length - place using Nat.strong_induction_on generalizing place blocks with
  | _ left ih =>
  by_cases hlt : place < text.length
  swap
  · have hnil : text.drop place = [] := List.drop_eq_nil_of_le (Nat.not_lt.1 hlt)
    have hfound := h.found
    rw [blocksAt, hnil, blocksFrom] at hfound
    cases hfound
    refine ⟨fun block hblock => absurd hblock List.not_mem_nil, fun site opening hle hsite => ?_⟩
    obtain ⟨c, rest, hdrop, -⟩ := hsite.letter
    rw [List.drop_eq_nil_of_le (by omega)] at hdrop
    cases hdrop
  cases h.turn hlt with
  | pass next hnext hcomes hnone =>
    obtain ⟨hblocks, hsites⟩ := ih _ (by omega) hcomes rfl
    refine ⟨hblocks, fun site opening hle hsite => ?_⟩
    by_cases hbefore : site < next
    · exact absurd hsite (hnone site opening hle hbefore)
    · exact hsites site opening (Nat.not_lt.1 hbefore) hsite
  | block block more hstart hblock hnext hcomes hcons =>
    obtain ⟨hblocks, hsites⟩ := ih _ (by omega) hcomes rfl
    subst hcons
    refine ⟨List.forall_mem_cons.2 ⟨hblock, hblocks⟩, fun site opening hle hsite => ?_⟩
    by_cases hinside : site < block.location.stop
    · exact ⟨block, List.mem_cons_self, by omega, hinside⟩
    · obtain ⟨other, hother, hbounds⟩ := hsites site opening (Nat.not_lt.1 hinside) hsite
      exact ⟨other, List.mem_cons_of_mem _ hother, hbounds⟩

end Turns

/-- The blocks of a text come one after the other.  One starts at a place exactly if a keyword stands there
that is not within an earlier one, and it ends with the bracket that closes the one behind the keyword. -/
theorem blocks_at_keywords {text : List Char} {blocks : List (ParameterBlock Span)}
    (h : parameterBlocks text = .ok blocks) :
    Ordered 0 text.length (blocks.map (·.location)) ∧
      (∀ site, (∃ block ∈ blocks, block.location.start = site) ↔
        (∃ opening, KeywordSite text site opening) ∧
          ∀ block ∈ blocks, block.location.start < site → block.location.stop ≤ site) ∧
      ∀ block ∈ blocks, BlockAt text block := by
  have hordered := (@blocksFrom_found text text none 0 blocks rfl (Nat.zero_le _) h).1
  have hcomes : ComesTo text 0 blocks := ⟨.nil _, h⟩
  obtain ⟨hblocks, hsites⟩ := hcomes.keywords
  refine ⟨hordered, fun site => ⟨?_, ?_⟩, hblocks⟩
  · rintro ⟨block, hblock, rfl⟩
    obtain ⟨opening, -, hsite, -⟩ := hblocks block hblock
    exact ⟨⟨opening, hsite⟩, fun other hother hlt =>
      hordered.stop_le (List.mem_map_of_mem hother) (List.mem_map_of_mem hblock) hlt⟩
  · rintro ⟨⟨opening, hsite⟩, hoverlap⟩
    obtain ⟨block, hblock, hle, hlt⟩ := hsites site opening (Nat.zero_le _) hsite
    refine ⟨block, hblock, Nat.le_antisymm hle (Nat.not_lt.1 fun hbefore => ?_)⟩
    exact absurd (hoverlap block hblock hbefore) (Nat.not_le.2 hlt)

/-- Keywords in a string, in the name of a variable and in the default of a parameter, and two with blocks. -/
def keywordsText : List Char := "\x27param(\x27 $param(1) param($a=\x7bparam($b)\x7d) Param <#c#> ()".toList

theorem blocks_at_keywords_keywordsText : ∃ blocks, parameterBlocks keywordsText = .ok blocks ∧
    blocks.map (·.location) = [⟨19, 40⟩, ⟨41, 55⟩] ∧
    (∃ opening, KeywordSite keywordsText 41 opening) ∧
    ∀ site < 19, ∀ opening, ¬ KeywordSite keywordsText site opening := by
  have hread : parameterBlocks keywordsText =
      .ok [⟨[⟨"a", [], some "\x7bparam($b)\x7d", ⟨25, 39⟩⟩], ⟨19, 40⟩⟩, ⟨[], ⟨41, 55⟩⟩] := by
    with_unfolding_all rfl
  obtain ⟨-, hstarts, -⟩ := blocks_at_keywords hread
  refine ⟨_, hread, rfl, ((hstarts 41).1 ⟨_, List.mem_cons_of_mem _ List.mem_cons_self, rfl⟩).1, ?_⟩
  intro site hsite opening hkeyword
  -- all blocks start behind the site, so none is in its way and none starts there
  have hbehind : ∀ block ∈ ([⟨[⟨"a", [], some "\x7bparam($b)\x7d", ⟨25, 39⟩⟩], ⟨19, 40⟩⟩,
      ⟨[], ⟨41, 55⟩⟩] : List (ParameterBlock Span)), 19 ≤ block.location.start := by
    simp
  obtain ⟨block, hblock, rfl⟩ := (hstarts site).2 ⟨⟨opening, hkeyword⟩, fun block hblock hlt =>
    absurd (hbehind block hblock) (by omega)⟩
  exact absurd (hbehind block hblock) (Nat.not_le.2 hsite)

end DscAudit.PowerShell

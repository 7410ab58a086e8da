import DscAudit.Proofs.PowerShell.Blanking
import Mathlib.Logic.Relation

/-!
# Two texts read side by side

A text with a comment and the text with a space in place of the comment fall into the same lexemes, but
for that one.  A twin is a place in each of the two texts, and a path leads from twin to twin, one lexeme
at a time.  What skips trivia, finds the end of code, copies code or looks for a closing bracket in one of
the texts does the same in the other one, and goes from twins to twins.
-/

namespace DscAudit.PowerShell

open Relation (ReflTransGen)

/-- The piece leads from one place of a text to the next. -/
structure Leads (piece : Piece) (here next : Cursor) : Prop where
  rest : here.rest = piece.text ++ next.rest
  offset : next.offset = here.offset + piece.text.length
  ends : Ends piece.kind piece.text next.rest

/-- A comment, or the space that may stand in its place. -/
def IsSpacer (piece : Piece) : Prop := piece.kind.isComment = true ∨ piece.text = [' ']

/-- A place in each of two texts. -/
structure Twin where
  left : Cursor
  right : Cursor

namespace Twin

/-- One lexeme further in both texts.  It is the same in both, or a comment or a space in each of them,
but that only at the given place. -/
def Step (place : Nat) (p q : Twin) : Prop :=
  ∃ piece piece', Leads piece p.left q.left ∧ Leads piece' p.right q.right ∧
    (piece = piece' ∨
      (p.left.offset = place ∧ p.right.offset = place) ∧ IsSpacer piece ∧ IsSpacer piece')

/-- Any number of lexemes further. -/
def Path (place : Nat) : Twin → Twin → Prop := ReflTransGen (Step place)

/-- The same text is left in both, and it starts with no lexeme of the syntax. -/
def Ended (p : Twin) : Prop :=
  p.left.rest = p.right.rest ∧ ∀ piece next, ¬ Leads piece p.left next

/-- From here on both texts are the same but for the one lexeme. -/
def Alike (place : Nat) (p : Twin) : Prop := ∃ last, Path place p last ∧ Ended last

def swap (p : Twin) : Twin := ⟨p.right, p.left⟩

end Twin

/-! ## Lexemes -/

section Lexemes

variable {piece piece' : Piece} {here next next' : Cursor}

theorem Leads.scans (h : Leads piece here next) : Scans piece.kind piece.text next.rest :=
  piece.isLexeme.scans h.ends

theorem Leads.unique (h : Leads piece here next) (h' : Leads piece' here next') :
    piece = piece' ∧ next = next' := by
  obtain ⟨hkind, htext, hrest⟩ := h.scans.unique h'.scans (h.rest.symm.trans h'.rest)
  have hpiece : piece = piece' := by
    cases piece
    cases piece'
    cases hkind
    cases htext
    rfl
  refine ⟨hpiece, ?_⟩
  obtain ⟨offset, rest⟩ := next
  obtain ⟨offset', rest'⟩ := next'
  obtain rfl : rest = rest' := hrest
  obtain rfl : offset = offset' := by
    have hoffset : offset = here.offset + piece.text.length := h.offset
    have hoffset' : offset' = here.offset + piece'.text.length := h'.offset
    rw [hoffset, hoffset', hpiece]
  rfl

theorem Leads.shorter (h : Leads piece here next) : next.rest.length < here.rest.length := by
  have hpos := piece.length_pos
  rw [h.rest, List.length_append]
  omega

/-- A character that no mark is starts a lexeme of its own. -/
theorem leads_char {c : Char} (hc : IsOrdinary c) (offset : Nat) (rest : List Char) :
    Leads (Piece.char c hc.plain) ⟨offset, c :: rest⟩ ⟨offset + 1, rest⟩ :=
  ⟨rfl, rfl, ends_ordinary hc rest⟩

/-- The scanner fails where no lexeme starts, but for the end and a backtick there. -/
theorem scan_of_not_leads (h : ∀ piece next, ¬ Leads piece here next) :
    here.rest = [] ∨ here.rest = ['\x60'] ∨
      ∃ c rest cause, here.rest = c :: rest ∧ Lexeme.scan c rest = .error cause := by
  obtain ⟨offset, s⟩ := here
  cases s with
  | nil => exact .inl rfl
  | cons c rest =>
    cases hscan : Lexeme.scan c rest with
    | error cause => exact .inr (.inr ⟨c, rest, cause, rfl, hscan⟩)
    | ok lexeme =>
      have hlength : ((c :: rest).take lexeme.length).length = lexeme.length := by
        rw [List.length_take, Nat.min_eq_left lexeme.length_le]
      have hscans : Scans lexeme.kind ((c :: rest).take lexeme.length)
          ((c :: rest).drop lexeme.length) :=
        ⟨c, rest, lexeme, List.take_append_drop _ _, hscan, rfl, hlength.symm⟩
      have hsplit := List.take_append_drop lexeme.length (c :: rest)
      obtain ⟨hlexeme | ⟨-, htext, hbehind⟩, hends⟩ := hscans.isLexeme
      · exact absurd ⟨hsplit.symm, rfl, hends⟩
          (h ⟨_, _, hlexeme⟩ ⟨_, (c :: rest).drop lexeme.length⟩)
      · rw [htext, hbehind] at hsplit
        exact .inr (.inl hsplit.symm)

/-- Where no lexeme starts there is a mark, if anything. -/
theorem mark_of_not_leads (h : ∀ piece next, ¬ Leads piece here next) :
    ∀ c ∈ here.rest.head?, ¬ IsOrdinary c := by
  intro c hhead hc
  obtain ⟨rest, hrest⟩ := List.head?_eq_some_iff.mp hhead
  obtain ⟨offset, s⟩ := here
  obtain rfl : s = c :: rest := hrest
  exact h _ _ (leads_char hc offset rest)

theorem IsSpacer.isFiller (h : IsSpacer piece) : IsFiller piece := by
  rcases h with hcomment | hspace
  · exact .inl hcomment
  · obtain ⟨kind, text, hlexeme⟩ := piece
    obtain rfl : text = [' '] := hspace
    cases hlexeme
    exact .inr rfl

/-- A comment is shown like the space in its place. -/
theorem IsSpacer.shown_eq (h : IsSpacer piece) : piece.shown = [' '] := by
  rw [Piece.shown]
  split
  · rfl
  · next hcode => exact h.resolve_left hcode

theorem IsFiller.not_bracket (h : IsFiller piece) :
    piece.kind = .plain → ∀ c ∈ piece.text, isBracket c = false := by
  intro hplain
  rcases h with hcomment | hblank
  · rw [hplain] at hcomment
    cases hcomment
  · obtain ⟨c, hc, rfl, hc'⟩ := exists_char_of_isBlank hblank
    intro d hd
    cases List.mem_singleton.mp hd
    exact (plain_of_isBlank hc').2

end Lexemes

/-! ## Paths -/

namespace Twin

variable {place : Nat} {start p q r stop : Twin}

theorem Step.unique (hq : Step place p q) (hr : Step place p r) : q = r := by
  obtain ⟨piece, piece', hleft, hright, -⟩ := hq
  obtain ⟨other, other', hleft', hright', -⟩ := hr
  obtain ⟨left, right⟩ := q
  obtain ⟨left', right'⟩ := r
  obtain rfl : left = left' := (hleft.unique hleft').2
  obtain rfl : right = right' := (hright.unique hright').2
  rfl

theorem Step.lt (h : Step place p q) :
    p.left.offset < q.left.offset ∧ p.right.offset < q.right.offset := by
  obtain ⟨piece, piece', hleft, hright, -⟩ := h
  have hpos := piece.length_pos
  have hpos' := piece'.length_pos
  rw [hleft.offset, hright.offset]
  omega

theorem Step.shorter (h : Step place p q) : q.left.rest.length < p.left.rest.length := by
  obtain ⟨piece, -, hleft, -⟩ := h
  exact hleft.shorter

theorem Step.swap (h : Step place p q) : Step place p.swap q.swap := by
  obtain ⟨piece, piece', hleft, hright, hsame⟩ := h
  refine ⟨piece', piece, hright, hleft, ?_⟩
  rcases hsame with rfl | ⟨⟨hplace, hplace'⟩, hspacer, hspacer'⟩
  · exact .inl rfl
  · exact .inr ⟨⟨hplace', hplace⟩, hspacer', hspacer⟩

theorem Path.swap (h : Path place p q) : Path place p.swap q.swap :=
  ReflTransGen.lift Twin.swap (fun _ _ => Step.swap) _ _ h

theorem Path.trans (h : Path place p q) (h' : Path place q r) : Path place p r :=
  ReflTransGen.trans h h'

theorem Step.path (h : Step place p q) : Path place p q := ReflTransGen.single h

theorem Step.trans (h : Step place p q) (h' : Path place q r) : Path place p r :=
  ReflTransGen.head h h'

theorem Path.refl (p : Twin) : Path place p p := ReflTransGen.refl

/-- Two places reached from one are reached one from the other. -/
theorem Path.linear (hq : Path place p q) (hr : Path place p r) :
    Path place q r ∨ Path place r q :=
  ReflTransGen.total_of_right_unique (fun _ _ _ => Step.unique) hq hr

theorem Path.head_cases (h : Path place p q) : p = q ∨ ∃ r, Step place p r ∧ Path place r q :=
  ReflTransGen.cases_head h

/-- A path takes a text off the front on each side, neither or both of them empty. -/
theorem Path.fronts (h : Path place p q) :
    ∃ front front', p.left.rest = front ++ q.left.rest ∧
      q.left.offset = p.left.offset + front.length ∧ p.right.rest = front' ++ q.right.rest ∧
      q.right.offset = p.right.offset + front'.length ∧ (front = [] ↔ front' = []) := by
  induction h using ReflTransGen.head_induction_on with
  | refl => exact ⟨[], [], rfl, rfl, rfl, rfl, Iff.rfl⟩
  | head hstep _ ih =>
    obtain ⟨piece, piece', hleft, hright, -⟩ := hstep
    obtain ⟨front, front', hfront, hoffset, hfront', hoffset', -⟩ := ih
    refine ⟨piece.text ++ front, piece'.text ++ front', ?_, ?_, ?_, ?_, ?_⟩
    · rw [hleft.rest, hfront, List.append_assoc]
    · rw [hoffset, hleft.offset, List.length_append, Nat.add_assoc]
    · rw [hright.rest, hfront', List.append_assoc]
    · rw [hoffset', hright.offset, List.length_append, Nat.add_assoc]
    · simp [piece.text_ne_nil, piece'.text_ne_nil]

theorem Path.le (h : Path place p q) :
    p.left.offset ≤ q.left.offset ∧ p.right.offset ≤ q.right.offset := by
  obtain ⟨front, front', -, hleft, -, hright, -⟩ := h.fronts
  omega

theorem Path.length_le (h : Path place p q) : q.left.rest.length ≤ p.left.rest.length := by
  obtain ⟨front, -, hfront, -⟩ := h.fronts
  rw [hfront, List.length_append]
  omega

theorem Path.left_eq (h : Path place p q) :
    q.left = p.left.advance (q.left.offset - p.left.offset) := by
  obtain ⟨front, front', hfront, hoffset, -⟩ := h.fronts
  have hlength : q.left.offset - p.left.offset = front.length := by omega
  rw [Cursor.advance, hlength, hfront, List.drop_left, ← hoffset]

theorem Path.right_eq (h : Path place p q) :
    q.right = p.right.advance (q.right.offset - p.right.offset) := h.swap.left_eq

theorem Path.split_left (h : Path place p q) :
    p.left.rest = p.left.textTo q.left.offset ++ q.left.rest := by
  obtain ⟨front, front', hfront, hoffset, -⟩ := h.fronts
  have hlength : q.left.offset - p.left.offset = front.length := by omega
  rw [Cursor.textTo, hlength, hfront, List.take_left]

theorem Path.split_right (h : Path place p q) :
    p.right.rest = p.right.textTo q.right.offset ++ q.right.rest := h.swap.split_left

/-- A path that takes nothing off one of the texts takes nothing off the other one. -/
theorem Path.eq_of_offset_eq (h : Path place p q)
    (hoffset : p.left.offset = q.left.offset ∨ p.right.offset = q.right.offset) : p = q := by
  rcases h.head_cases with heq | ⟨r, hstep, hpath⟩
  · exact heq
  · have hlt := hstep.lt
    have hle := hpath.le
    omega

/-- Places come in the same order on both sides. -/
theorem Path.lt_iff (hp : Path place start p) (hq : Path place start q) :
    p.left.offset < q.left.offset ↔ p.right.offset < q.right.offset := by
  rcases hp.linear hq with h | h
  · have hle := h.le
    by_cases heq : p = q
    · rw [heq]
      simp only [Nat.lt_irrefl]
    · have hleft : p.left.offset ≠ q.left.offset := fun hoffset =>
        heq (h.eq_of_offset_eq (.inl hoffset))
      have hright : p.right.offset ≠ q.right.offset := fun hoffset =>
        heq (h.eq_of_offset_eq (.inr hoffset))
      omega
  · have hle := h.le
    omega

theorem Path.between (hp : Path place start p) (hq : Path place start q)
    (hle : p.left.offset ≤ q.left.offset) : Path place p q := by
  rcases hp.linear hq with h | h
  · exact h
  · rw [h.eq_of_offset_eq (.inl (Nat.le_antisymm h.le.1 hle))]
    exact Path.refl p

theorem Ended.swap (h : Ended p) : Ended p.swap := by
  obtain ⟨heq, hnone⟩ := h
  refine ⟨heq.symm, fun piece next hleads => ?_⟩
  refine hnone piece ⟨p.left.offset + piece.text.length, next.rest⟩ ⟨?_, rfl, hleads.ends⟩
  rw [heq]
  exact hleads.rest

theorem Alike.swap (h : Alike place p) : Alike place p.swap := by
  obtain ⟨last, hpath, hended⟩ := h
  exact ⟨last.swap, hpath.swap, hended.swap⟩

theorem Alike.of_path (h : Alike place p) (hpath : Path place p q) : Alike place q := by
  obtain ⟨last, hlast, hended⟩ := h
  rcases hpath.linear hlast with hq | hq
  · exact ⟨last, hq, hended⟩
  · rcases hq.head_cases with rfl | ⟨r, ⟨piece, _, hleads, -⟩, -⟩
    · exact ⟨last, Path.refl last, hended⟩
    · exact absurd hleads (hended.2 piece r.left)

/-- The same lexeme, if one starts on the left that is neither a comment nor a space, starts on the
right. -/
theorem Alike.leads {piece : Piece} {next : Cursor} (h : Alike place p)
    (hleads : Leads piece p.left next) (hpiece : ¬ IsSpacer piece) :
    ∃ next', Leads piece p.right next' ∧ Step place p ⟨next, next'⟩ := by
  obtain ⟨last, hpath, hended⟩ := h
  rcases hpath.head_cases with rfl | ⟨⟨left, right⟩, ⟨other, other', hleft, hright, hsame⟩, -⟩
  · exact absurd hleads (hended.2 piece next)
  · obtain ⟨rfl, rfl⟩ := hleads.unique hleft
    rcases hsame with rfl | ⟨-, hspacer, -⟩
    · exact ⟨right, hright, piece, piece, hleads, hright, .inl rfl⟩
    · exact absurd hspacer hpiece

theorem not_isSpacer_char {c : Char} {hc : c ∉ ['#', '\x60', '\x27', '"']} (hspace : c ≠ ' ') :
    ¬ IsSpacer (Piece.char c hc) := by
  rintro (hcomment | htext)
  · cases hcomment
  · exact hspace (List.singleton_inj.mp htext)

/-- A character that is neither a mark nor a space stands on both sides. -/
theorem Alike.char {c : Char} {rest : List Char} (h : Alike place p) (hc : IsOrdinary c)
    (hspace : c ≠ ' ') (hrest : p.left.rest = c :: rest) :
    ∃ rest', p.right.rest = c :: rest' ∧
      Step place p ⟨⟨p.left.offset + 1, rest⟩, ⟨p.right.offset + 1, rest'⟩⟩ := by
  have hleads : Leads (Piece.char c hc.plain) p.left ⟨p.left.offset + 1, rest⟩ :=
    ⟨hrest, rfl, ends_ordinary hc rest⟩
  obtain ⟨⟨offset', rest'⟩, hright, hstep⟩ := h.leads hleads (not_isSpacer_char hspace)
  obtain rfl : offset' = p.right.offset + 1 := hright.offset
  exact ⟨rest', hright.rest, hstep⟩

/-- Where the rest of both texts is the same, they are alike. -/
theorem alike_of_rest_eq (hrest : p.left.rest = p.right.rest) : Alike place p := by
  induction hlength : p.left.rest.length using Nat.strong_induction_on generalizing p with
  | _ length ih =>
    subst hlength
    by_cases hnone : ∀ piece next, ¬ Leads piece p.left next
    · exact ⟨p, Path.refl p, hrest, hnone⟩
    · push Not at hnone
      obtain ⟨piece, next, hleads⟩ := hnone
      have hright : Leads piece p.right ⟨p.right.offset + piece.text.length, next.rest⟩ :=
        ⟨hrest ▸ hleads.rest, rfl, hleads.ends⟩
      obtain ⟨last, hpath, hended⟩ :=
        @ih _ hleads.shorter ⟨next, ⟨p.right.offset + piece.text.length, next.rest⟩⟩ rfl rfl
      exact ⟨last, Step.trans ⟨piece, piece, hleads, hright, .inl rfl⟩ hpath, hended⟩

end Twin

/-! ## A space in place of a comment -/

section Replacing

variable {front comment behind : List Char} {kind : LexemeKind}

/-- A lexeme that ends before a comment ends before a space. -/
theorem ends_of_comment {piece : Piece} (hscans : Scans kind comment behind)
    (hcomment : kind.isComment = true) (hends : Ends piece.kind piece.text (comment ++ behind))
    (behind' : List Char) : Ends piece.kind piece.text (' ' :: behind') := by
  cases hkind : piece.kind.isComment with
  | false => exact ends_of_isBlank hkind rfl _ _
  | true =>
    have hhead : ∀ c ∈ (comment ++ behind).head?, c ≠ '\n' := by
      rcases hscans.head_of_isComment hcomment with ⟨content, rfl, -⟩ | ⟨content, rfl⟩
      · rintro c ⟨⟩
        decide
      · rintro c ⟨⟩
        decide
    obtain ⟨pieceKind, text, hlexeme⟩ := piece
    cases hlexeme with
    | blockComment => trivial
    | lineComment =>
      -- the next line comes before any other comment
      have hne : comment ++ behind ≠ [] := by simp [hscans.ne_nil]
      obtain ⟨c, rest, hrest⟩ := List.exists_cons_of_ne_nil hne
      have hc : c ∈ (comment ++ behind).head? := by
        rw [hrest]
        rfl
      exact absurd (hends c hc) (hhead c hc)
    | _ => cases hkind

theorem exists_piece {text more : List Char} (hscans : Scans kind text more) (hmore : more ≠ []) :
    ∃ piece : Piece, piece.kind = kind ∧ piece.text = text ∧ Ends piece.kind piece.text more := by
  obtain ⟨hlexeme | ⟨-, -, hnil⟩, hends⟩ := hscans.isLexeme
  · exact ⟨⟨kind, text, hlexeme⟩, rfl, rfl, hends⟩
  · exact absurd hnil hmore

theorem exists_comment (hscans : Scans kind comment behind) (hcomment : kind.isComment = true) :
    ∃ piece : Piece, IsSpacer piece ∧ piece.text = comment ∧ Ends piece.kind piece.text behind := by
  obtain ⟨hlexeme | ⟨rfl, -⟩, hends⟩ := hscans.isLexeme
  · exact ⟨⟨kind, comment, hlexeme⟩, .inl hcomment, rfl, hends⟩
  · cases hcomment

/-- A text with a comment is like the one with a space in its place. -/
theorem alike_of_comment (hfront : Lexemes front (comment ++ behind))
    (hscans : Scans kind comment behind) (hcomment : kind.isComment = true) (offset : Nat) :
    Twin.Alike (offset + front.length)
      ⟨⟨offset, front ++ (comment ++ behind)⟩, ⟨offset, front ++ ' ' :: behind⟩⟩ := by
  generalize hwhole : comment ++ behind = whole at hfront
  induction hfront generalizing offset with
  | nil =>
    subst hwhole
    obtain ⟨piece, hspacer, rfl, hends⟩ := exists_comment hscans hcomment
    have hspace : IsOrdinary ' ' := by decide
    have hstep : Twin.Step offset ⟨⟨offset, piece.text ++ behind⟩, ⟨offset, ' ' :: behind⟩⟩
        ⟨⟨offset + piece.text.length, behind⟩, ⟨offset + 1, behind⟩⟩ :=
      ⟨piece, Piece.char ' ' hspace.plain, ⟨rfl, rfl, hends⟩, leads_char hspace offset behind,
        .inr ⟨⟨rfl, rfl⟩, hspacer, .inr rfl⟩⟩
    obtain ⟨last, hpath, hended⟩ := @Twin.alike_of_rest_eq offset
      ⟨⟨offset + piece.text.length, behind⟩, ⟨offset + 1, behind⟩⟩ rfl
    exact ⟨last, hstep.trans hpath, hended⟩
  | @cons next text before whole hnext hbefore ih =>
    subst hwhole
    obtain ⟨piece, rfl, rfl, hends⟩ := exists_piece hnext (by simp [hscans.ne_nil])
    have hends' : Ends piece.kind piece.text (before ++ ' ' :: behind) := by
      cases hbefore with
      | nil => exact ends_of_comment hscans hcomment hends behind
      | @cons second secondText before _ hsecond _ =>
        obtain ⟨piece', rfl, rfl, -⟩ := exists_piece hsecond (by simp [hscans.ne_nil])
        rw [List.append_assoc] at hends ⊢
        exact ends_of_next hends
    obtain ⟨last, hpath, hended⟩ := ih (offset + piece.text.length) rfl
    rw [Nat.add_assoc, ← List.length_append] at hpath
    refine ⟨last, Twin.Step.trans ⟨piece, piece, ?_, ?_, .inl rfl⟩ hpath, hended⟩
    · exact ⟨List.append_assoc _ _ _, rfl, hends⟩
    · exact ⟨List.append_assoc _ _ _, rfl, hends'⟩

end Replacing

/-! ## Trivia and code -/

namespace Twin

variable {place : Nat} {p q : Twin}

/-- A step goes over trivia in both texts or over the same code. -/
theorem Step.trivia_or_code (h : Step place p q) :
    ∃ piece piece', Leads piece p.left q.left ∧ Leads piece' p.right q.right ∧
      piece.shown = piece'.shown ∧
      ((piece.isTrivia = true ∧ piece'.isTrivia = true) ∨
        (piece = piece' ∧ piece.isTrivia = false)) := by
  obtain ⟨piece, piece', hleft, hright, hsame⟩ := h
  refine ⟨piece, piece', hleft, hright, ?_⟩
  rcases hsame with rfl | ⟨-, hspacer, hspacer'⟩
  · cases htrivia : piece.isTrivia with
    | true => exact ⟨rfl, .inl ⟨rfl, rfl⟩⟩
    | false => exact ⟨rfl, .inr ⟨rfl, rfl⟩⟩
  · exact ⟨hspacer.shown_eq.trans hspacer'.shown_eq.symm,
      .inl ⟨hspacer.isFiller.isTrivia, hspacer'.isFiller.isTrivia⟩⟩

/-- Along a path trivia are skipped up to a twin, if not up to the end of the path. -/
theorem Path.skipTriviaFrom (h : Path place p q) {stop stop' : Nat} (hstop : q.left.offset ≤ stop)
    (hstop' : q.right.offset ≤ stop') :
    (∃ r, Path place p r ∧ Path place r q ∧
      skipTriviaFrom stop p.left.offset p.left.rest = .ok r.left ∧
      skipTriviaFrom stop' p.right.offset p.right.rest = .ok r.right) ∨
    (skipTriviaFrom stop p.left.offset p.left.rest =
        skipTriviaFrom stop q.left.offset q.left.rest ∧
      skipTriviaFrom stop' p.right.offset p.right.rest =
        skipTriviaFrom stop' q.right.offset q.right.rest) := by
  induction h using ReflTransGen.head_induction_on with
  | refl => exact .inr ⟨rfl, rfl⟩
  | @head p next hstep hpath ih =>
    have hpath : Path place next q := hpath
    obtain ⟨piece, piece', hleft, hright, -, htrivia | ⟨rfl, hcode⟩⟩ := hstep.trivia_or_code
    · have hle := hpath.le
      rw [hleft.rest, hright.rest,
        skipTriviaFrom_trivia hleft.ends htrivia.1 (by rw [← hleft.offset]; omega),
        skipTriviaFrom_trivia hright.ends htrivia.2 (by rw [← hright.offset]; omega),
        ← hleft.offset, ← hright.offset]
      rcases ih with ⟨r, hr, hrest, hskip⟩ | hskip
      · exact .inl ⟨r, hstep.trans hr, hrest, hskip⟩
      · exact .inr hskip
    · have hle := hpath.le
      have hlt := hstep.lt
      have hskip : PowerShell.skipTriviaFrom stop p.left.offset p.left.rest = .ok p.left := by
        rw [hleft.rest, skipTriviaFrom_code hleft.ends hcode (by omega), ← hleft.rest]
      have hskip' : PowerShell.skipTriviaFrom stop' p.right.offset p.right.rest = .ok p.right := by
        rw [hright.rest, skipTriviaFrom_code hright.ends hcode (by omega), ← hright.rest]
      exact .inl ⟨p, Path.refl p, hstep.trans hpath, hskip, hskip'⟩

theorem Path.skipTrivia (h : Path place p q) :
    ∃ r, Path place p r ∧ Path place r q ∧ skipTrivia p.left q.left.offset = .ok r.left ∧
      skipTrivia p.right q.right.offset = .ok r.right := by
  rcases h.skipTriviaFrom (Nat.le_refl _) (Nat.le_refl _) with hfound | ⟨hskip, hskip'⟩
  · exact hfound
  · rw [skipTriviaFrom_past (Nat.le_refl _)] at hskip hskip'
    exact ⟨q, h, Path.refl q, hskip, hskip'⟩

/-- Code ends at a twin, which comes behind the one where the last code before ended. -/
theorem Path.codeEndFrom (h : Path place p q) {last : Twin} (hlast : Path place last p) :
    ∃ r, Path place last r ∧ Path place r q ∧
      codeEndFrom q.left.offset last.left.offset p.left.offset p.left.rest =
        .ok r.left.offset ∧
      codeEndFrom q.right.offset last.right.offset p.right.offset p.right.rest =
        .ok r.right.offset := by
  induction h using ReflTransGen.head_induction_on generalizing last with
  | refl => exact ⟨last, Path.refl last, hlast, codeEndFrom_stop _ _ _, codeEndFrom_stop _ _ _⟩
  | @head p next hstep hpath ih =>
    have hpath : Path place next q := hpath
    have hle := hpath.le
    obtain ⟨piece, piece', hleft, hright, -, htrivia⟩ := hstep.trivia_or_code
    rw [hleft.rest, hright.rest, codeEndFrom_piece hleft.ends (by rw [← hleft.offset]; omega),
      codeEndFrom_piece hright.ends (by rw [← hright.offset]; omega), ← hleft.offset,
      ← hright.offset]
    rcases htrivia with ⟨htrivia, htrivia'⟩ | ⟨rfl, hcode⟩
    · rw [htrivia, htrivia']
      exact ih (hlast.trans hstep.path)
    · rw [hcode]
      obtain ⟨r, hr, hrest, hend⟩ := ih (Path.refl next)
      exact ⟨r, (hlast.trans hstep.path).trans hr, hrest, hend⟩

theorem Path.codeEnd (h : Path place p q) :
    ∃ r, Path place p r ∧ Path place r q ∧ codeEnd p.left q.left.offset = .ok r.left.offset ∧
      codeEnd p.right q.right.offset = .ok r.right.offset :=
  h.codeEndFrom (Path.refl p)

/-- The same code is copied from both texts. -/
theorem Path.codeText (h : Path place p q) :
    ∃ text, codeText p.left q.left.offset = .ok text ∧
      codeText p.right q.right.offset = .ok text := by
  unfold PowerShell.codeText
  induction h using ReflTransGen.head_induction_on with
  | refl => exact ⟨[], codeTextFrom_stop _ _, codeTextFrom_stop _ _⟩
  | @head p next hstep hpath ih =>
    have hpath : Path place next q := hpath
    have hle := hpath.le
    obtain ⟨piece, piece', hleft, hright, hshown, -⟩ := hstep.trivia_or_code
    obtain ⟨text, htext, htext'⟩ := ih
    rw [hleft.rest, hright.rest, codeTextFrom_piece hleft.ends (by rw [← hleft.offset]; omega),
      codeTextFrom_piece hright.ends (by rw [← hright.offset]; omega), ← hleft.offset,
      ← hright.offset, htext, htext', ← hshown]
    exact ⟨piece.shown ++ text, rfl, rfl⟩

/-! ## Words -/

theorem textTo_of_leads {piece : Piece} {here next : Cursor} (h : Leads piece here next)
    {stop : Nat} (hstop : next.offset ≤ stop) :
    here.textTo stop = piece.text ++ next.textTo stop := by
  have hoffset := h.offset
  have hlength : stop - here.offset = piece.text.length + (stop - next.offset) := by omega
  rw [Cursor.textTo, h.rest, hlength, List.take_length_add_append]
  rfl

theorem textTo_self (here : Cursor) : here.textTo here.offset = [] := by
  rw [Cursor.textTo, Nat.sub_self, List.take_zero]

/-- Between two twins there is the same text on both sides, if the place is not there. -/
theorem Path.textTo_eq (h : Path place p q)
    (hplace : place < p.left.offset ∨ q.left.offset ≤ place) :
    p.right.textTo q.right.offset = p.left.textTo q.left.offset := by
  induction h using ReflTransGen.head_induction_on with
  | refl => rw [textTo_self, textTo_self]
  | @head p next hstep hpath ih =>
    have hpath : Path place next q := hpath
    have hle := hpath.le
    have hlt := hstep.lt
    obtain ⟨piece, piece', hleft, hright, hsame⟩ := hstep
    rcases hsame with rfl | ⟨⟨hhere, -⟩, -⟩
    · rw [textTo_of_leads hleft hle.1, textTo_of_leads hright hle.2, ih (by omega)]
    · omega

theorem head_of_isSpacer {piece : Piece} (h : IsSpacer piece) :
    ∃ c rest, piece.text = c :: rest ∧ ¬ (IsOrdinary c ∧ c ≠ ' ') := by
  rcases h with hcomment | hspace
  · obtain ⟨kind, text, hlexeme⟩ := piece
    cases hlexeme with
    | lineComment => exact ⟨_, _, rfl, fun hc => absurd hc.1 (by decide)⟩
    | blockComment => exact ⟨_, _, rfl, fun hc => absurd hc.1 (by decide)⟩
    | _ => cases hcomment
  · exact ⟨' ', [], hspace, fun hc => hc.2 rfl⟩

/-- The same word stands on both sides, if its characters are neither marks nor spaces. -/
theorem Path.takeWhile {f : Char → Bool} (hf : ∀ c, f c = true → IsOrdinary c ∧ c ≠ ' ')
    (h : Path place p q) :
    ∃ word r, (p.left.textTo q.left.offset).takeWhile f = word ∧
      (p.right.textTo q.right.offset).takeWhile f = word ∧ Path place p r ∧ Path place r q ∧
      r.left.offset = p.left.offset + word.length ∧
      r.right.offset = p.right.offset + word.length := by
  induction h using ReflTransGen.head_induction_on with
  | refl =>
    rw [textTo_self, textTo_self]
    exact ⟨[], q, rfl, rfl, Path.refl q, Path.refl q, rfl, rfl⟩
  | @head p next hstep hpath ih =>
    have hpath : Path place next q := hpath
    have hle := hpath.le
    obtain ⟨piece, piece', hleft, hright, hsame⟩ := id hstep
    obtain ⟨c, more, htext⟩ := List.exists_cons_of_ne_nil piece.text_ne_nil
    obtain ⟨word, r, hword, hword', hr, hrest, hoffset, hoffset'⟩ := ih
    rw [textTo_of_leads hleft hle.1, textTo_of_leads hright hle.2]
    by_cases hc : f c = true
    · -- the word goes on, with the same character
      have hchar : piece = Piece.char c (hf c hc).1.plain := by
        have hleads := leads_char (hf c hc).1 p.left.offset (more ++ next.left.rest)
        rw [← List.cons_append, ← htext, ← hleft.rest] at hleads
        exact (hleft.unique hleads).1
      have hequal : piece = piece' := by
        rcases hsame with hequal | ⟨-, hspacer, -⟩
        · exact hequal
        · rw [hchar] at hspacer
          exact absurd hspacer (not_isSpacer_char (hf c hc).2)
      have hone : piece.text = [c] := by rw [hchar]; rfl
      have hnext := hleft.offset
      have hnext' := hright.offset
      rw [← hequal] at hnext' ⊢
      rw [hone, List.length_singleton] at hnext hnext'
      rw [hone, List.singleton_append, List.singleton_append, List.takeWhile_cons_of_pos hc,
        List.takeWhile_cons_of_pos hc, hword, hword']
      refine ⟨c :: word, r, rfl, rfl, hstep.trans hr, hrest, ?_, ?_⟩
      · rw [List.length_cons]
        omega
      · rw [List.length_cons]
        omega
    · obtain ⟨d, more', htext', hd⟩ : ∃ d more', piece'.text = d :: more' ∧ ¬ f d = true := by
        rcases hsame with rfl | ⟨-, -, hspacer⟩
        · exact ⟨c, more, htext, hc⟩
        · obtain ⟨d, more', htext', hd⟩ := head_of_isSpacer hspacer
          exact ⟨d, more', htext', fun hfd => hd (hf d hfd)⟩
      rw [htext, htext', List.cons_append, List.cons_append, List.takeWhile_cons_of_neg hc,
        List.takeWhile_cons_of_neg hd]
      exact ⟨[], p, rfl, rfl, Path.refl p, hstep.trans hpath, rfl, rfl⟩

/-! ## Brackets -/

theorem ordinary_of_isBracket {c : Char} (h : isBracket c = true) : IsOrdinary c ∧ c ≠ ' ' := by
  refine ⟨fun hmark => ?_, ?_⟩
  · simp only [List.mem_cons, List.not_mem_nil, or_false] at hmark
    rcases hmark with rfl | rfl | rfl | rfl | rfl | rfl <;> cases h
  · rintro rfl
    cases h

/-- Where no lexeme starts no bracket is closed. -/
theorem closingFrom_of_not_leads {here : Cursor} (h : ∀ piece next, ¬ Leads piece here next)
    (expected : Char) (outer : List Char) (close : Nat) :
    closingFrom expected outer here.offset here.rest ≠ .ok (some close) := by
  rcases scan_of_not_leads h with hrest | hrest | ⟨c, rest, cause, hrest, hscan⟩
  · rw [hrest, closingFrom.eq_def]
    intro hclose
    cases hclose
  · have hescape : LexemeKind.escape = .plain → isBracket '\x60' = false := fun _ => rfl
    rw [hrest, @closingFrom_lexeme expected '\x60' outer [] here.offset _ rfl hescape,
      closingFrom.eq_def]
    intro hclose
    cases hclose
  · rw [hrest, closingFrom.eq_def]
    simp only [Lexeme.scanAt, hscan]
    intro hclose
    cases hclose

/-- The bracket at `q`, with `next` right behind it, is at the offset. -/
structure ClosesBefore (q next : Twin) (close : Nat) : Prop where
  left : q.left.offset = close
  nextLeft : next.left.offset = close + 1
  nextRight : next.right.offset = q.right.offset + 1

theorem Path.closingFrom {last : Twin} (h : Path place p last) (hended : Ended last)
    {expected : Char} {outer : List Char} {close : Nat}
    (hclose : closingFrom expected outer p.left.offset p.left.rest = .ok (some close)) :
    ∃ q next, Path place p q ∧ Step place q next ∧ ClosesBefore q next close ∧
      closingFrom expected outer p.right.offset p.right.rest = .ok (some q.right.offset) := by
  induction h using ReflTransGen.head_induction_on generalizing expected outer with
  | refl => exact absurd hclose (closingFrom_of_not_leads hended.2 _ _ _)
  | @head p next hstep hpath ih =>
    obtain ⟨piece, piece', hleft, hright, hsame⟩ := id hstep
    -- a lexeme that is no bracket, or a single bracket
    by_cases hbracket : piece.kind = .plain → ∀ c ∈ piece.text, isBracket c = false
    · have hbracket' : piece'.kind = .plain → ∀ c ∈ piece'.text, isBracket c = false := by
        rcases hsame with rfl | ⟨-, -, hspacer⟩
        · exact hbracket
        · exact hspacer.isFiller.not_bracket
      rw [hleft.rest, closingFrom_scans hleft.scans hbracket, ← hleft.offset] at hclose
      rw [hright.rest, closingFrom_scans hright.scans hbracket', ← hright.offset]
      obtain ⟨q, behind, hq, hbehind, hends, hclose'⟩ := ih hclose
      exact ⟨q, behind, hstep.trans hq, hbehind, hends, hclose'⟩
    · have hequal : piece = piece' := by
        rcases hsame with hequal | ⟨-, hspacer, -⟩
        · exact hequal
        · exact absurd hspacer.isFiller.not_bracket hbracket
      rw [Classical.not_imp] at hbracket
      obtain ⟨hplain, hbracket⟩ := hbracket
      have hscans := hleft.scans
      rw [hplain] at hscans
      obtain ⟨c, htext⟩ := hscans.exists_of_plain
      have hc : isBracket c = true := by simpa [htext] using hbracket
      have hoffset := hleft.offset
      have hoffset' := hright.offset
      have hrest := hleft.rest
      have hrest' := hright.rest
      rw [← hequal] at hoffset' hrest'
      rw [htext, List.length_singleton] at hoffset hoffset'
      rw [htext, List.singleton_append] at hrest hrest'
      rw [hrest] at hclose
      rw [hrest']
      have hscan := scan_bracket hc
      rw [isBracket, Bool.or_eq_true, Option.isSome_iff_exists] at hc
      rcases hc with ⟨inner, hopener⟩ | hcloser
      · rw [closingFrom_opener (hscan _) rfl hopener, ← hoffset] at hclose
        rw [closingFrom_opener (hscan _) rfl hopener, ← hoffset']
        obtain ⟨q, behind, hq, hbehind, hends, hclose'⟩ := ih hclose
        exact ⟨q, behind, hstep.trans hq, hbehind, hends, hclose'⟩
      · rw [closingFrom_closer (hscan _) rfl hcloser] at hclose ⊢
        split at hclose
        · next heq =>
          rw [if_pos heq]
          cases outer with
          | nil =>
            cases hclose
            exact ⟨p, next, Path.refl p, hstep, ⟨rfl, hoffset, hoffset'⟩, rfl⟩
          | cons expected' outer =>
            rw [← hoffset] at hclose
            rw [← hoffset']
            obtain ⟨q, behind, hq, hbehind, hends, hclose'⟩ := ih hclose
            exact ⟨q, behind, hstep.trans hq, hbehind, hends, hclose'⟩
        · cases hclose

/-- A bracket that is closed on the left is closed on the right, at a twin. -/
theorem Alike.closing (h : Alike place p) {opening expected : Char} {close : Nat}
    (hclose : closing opening expected p.left = .ok close) :
    ∃ q next, Path place p q ∧ Step place q next ∧ ClosesBefore q next close ∧
      closing opening expected p.right = .ok q.right.offset := by
  obtain ⟨last, hpath, hended⟩ := h
  obtain ⟨q, next, hq, hnext, hends, hclose'⟩ :=
    hpath.closingFrom hended (closingFrom_eq_iff.mpr (closing_eq_iff.mp hclose))
  exact ⟨q, next, hq, hnext, hends, closing_eq_iff.mpr (closingFrom_eq_iff.mp hclose')⟩

/-- The twin behind a character. -/
def inside (p : Twin) (rest rest' : List Char) : Twin :=
  ⟨⟨p.left.offset + 1, rest⟩, ⟨p.right.offset + 1, rest'⟩⟩

/-- In both texts the bracket at `p` is closed by the one at `q`, and the text goes on at `behind`. -/
structure Group (place : Nat) (c expected : Char) (p : Twin) (rest rest' : List Char)
    (q behind : Twin) : Prop where
  right : p.right.rest = c :: rest'
  opens : Step place p (p.inside rest rest')
  closes : Path place (p.inside rest rest') q
  leaves : Step place q behind
  closing : PowerShell.closing c expected ⟨p.right.offset + 1, rest'⟩ = .ok q.right.offset
  lt : p.left.offset < q.left.offset ∧ p.right.offset < q.right.offset
  behindLeft : behind.left = ⟨q.left.offset + 1, rest.drop (q.left.offset - p.left.offset)⟩
  behindRight : behind.right = ⟨q.right.offset + 1, rest'.drop (q.right.offset - p.right.offset)⟩

theorem Group.path {c expected : Char} {rest rest' : List Char} {q behind : Twin}
    (h : Group place c expected p rest rest' q behind) : Path place p behind :=
  h.opens.trans (h.closes.trans h.leaves.path)

theorem Group.shorter {c expected : Char} {rest rest' : List Char} {q behind : Twin}
    (h : Group place c expected p rest rest' q behind) :
    behind.left.rest.length < p.left.rest.length :=
  (h.closes.trans h.leaves.path).length_le.trans_lt h.opens.shorter

/-- A group that reaches past a twin does so on both sides. -/
theorem Group.past {c expected : Char} {rest rest' : List Char} {q behind stop : Twin}
    (h : Group place c expected p rest rest' q behind) (hstop : Path place p stop)
    (hpast : stop.left.offset < behind.left.offset) :
    stop.left.offset ≤ q.left.offset + 1 ∧ stop.right.offset ≤ q.right.offset + 1 := by
  have hpast' := (hstop.lt_iff h.path).mp hpast
  rw [h.behindLeft] at hpast
  rw [h.behindRight] at hpast'
  exact ⟨Nat.le_of_lt hpast, Nat.le_of_lt hpast'⟩

theorem Alike.group (h : Alike place p) {c expected : Char} {rest : List Char} {close : Nat}
    (hopener : closer? c = some expected) (hrest : p.left.rest = c :: rest)
    (hclose : PowerShell.closing c expected ⟨p.left.offset + 1, rest⟩ = .ok close) :
    ∃ rest' q behind, Group place c expected p rest rest' q behind ∧ q.left.offset = close := by
  have hbracket : isBracket c = true := by
    rw [isBracket, hopener]
    rfl
  obtain ⟨hc, hspace⟩ := ordinary_of_isBracket hbracket
  obtain ⟨rest', hrest', hopens⟩ := h.char hc hspace hrest
  obtain ⟨q, behind, hq, hbehind, hends, hclose'⟩ := (h.of_path hopens.path).closing hclose
  have hlt : p.left.offset + 1 ≤ q.left.offset ∧ p.right.offset + 1 ≤ q.right.offset := hq.le
  have hfirst := hends.left
  have hpath := hopens.trans (hq.trans hbehind.path)
  have hleft := hpath.left_eq
  have hright := hpath.right_eq
  have hcount : q.left.offset + 1 - p.left.offset = (q.left.offset - p.left.offset) + 1 := by omega
  have hcount' : q.right.offset + 1 - p.right.offset = (q.right.offset - p.right.offset) + 1 := by
    omega
  have hsum : p.left.offset + (q.left.offset - p.left.offset + 1) = q.left.offset + 1 := by omega
  have hsum' : p.right.offset + (q.right.offset - p.right.offset + 1) = q.right.offset + 1 := by
    omega
  rw [hends.nextLeft, ← hfirst, hcount, Cursor.advance, hrest, List.drop_succ_cons, hsum] at hleft
  rw [hends.nextRight, hcount', Cursor.advance, hrest', List.drop_succ_cons, hsum'] at hright
  exact ⟨rest', q, behind, ⟨hrest', hopens, hq, hbehind, hclose', hlt, hleft, hright⟩, hfirst⟩

end Twin

end DscAudit.PowerShell

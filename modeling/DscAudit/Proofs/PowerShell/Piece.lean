import DscAudit.PowerShell.Code
import DscAudit.Proofs.PowerShell.Walk

/-!
# Pieces of code

A piece is the text of one lexeme, given by its syntax: a comment, a string, a here-string, an
escape or a plain character.  Code is a list of pieces.  The scanner finds the pieces again wherever
each of them ends before the next one, that is, where the two do not run together.
-/

namespace DscAudit.PowerShell

/-! ## The syntax of lexemes -/

/-- What stands between the quotes of a string: a quote is written twice or, if the string knows
escapes, behind a backtick. -/
inductive QuotedBody (quote : Char) (escapes : Bool) : List Char → Prop
  | nil : QuotedBody quote escapes []
  | plain {c : Char} {body : List Char} (hquote : c ≠ quote)
      (hescape : escapes = true → c ≠ '\x60') (h : QuotedBody quote escapes body) :
      QuotedBody quote escapes (c :: body)
  | escape (c : Char) {body : List Char} (hescapes : escapes = true)
      (h : QuotedBody quote escapes body) : QuotedBody quote escapes ('\x60' :: c :: body)
  | twice {body : List Char} (h : QuotedBody quote escapes body) :
      QuotedBody quote escapes (quote :: quote :: body)

/-- The mark that closes a here-string comes first on a line, blanks apart. -/
def ClosesLine (quote : Char) (s : List Char) : Prop :=
  ∃ indent rest, s = '\n' :: (indent ++ quote :: '@' :: rest) ∧
    ∀ c ∈ indent, Lexeme.isIndent c = true

/-- The texts of the lexemes of each kind. -/
inductive IsLexeme : LexemeKind → List Char → Prop
  | plain {c : Char} (hc : c ∉ ['#', '\x60', '\x27', '"']) : IsLexeme .plain [c]
  | escape (c : Char) : IsLexeme .escape ['\x60', c]
  | lineComment {content : List Char} (h : '\n' ∉ content) :
      IsLexeme .lineComment ('#' :: content)
  | blockComment {content : List Char} (h : ¬ ['#', '>'] <:+: content) :
      IsLexeme .blockComment ('<' :: '#' :: (content ++ ['#', '>']))
  | singleQuoted {body : List Char} (h : QuotedBody '\x27' false body) :
      IsLexeme .singleQuoted ('\x27' :: (body ++ ['\x27']))
  | doubleQuoted {body : List Char} (h : QuotedBody '"' true body) :
      IsLexeme .doubleQuoted ('"' :: (body ++ ['"']))
  | hereString {quote : Char} {body indent : List Char} (hquote : quote = '\x27' ∨ quote = '"')
      (hopens : Lexeme.opensHereString (body ++ ['\n']) = true)
      (hindent : ∀ c ∈ indent, Lexeme.isIndent c = true)
      (hbody : ∀ front behind, body = front ++ behind → ¬ ClosesLine quote behind) :
      IsLexeme .hereString ('@' :: quote :: (body ++ '\n' :: (indent ++ [quote, '@'])))

/-- The lexeme does not run together with what stands behind it. -/
def Ends : LexemeKind → List Char → List Char → Prop
  | .plain, text, behind =>
    (text = ['<'] → behind.head? ≠ some '#') ∧
      (text = ['@'] → ∀ quote rest, behind = quote :: rest → quote = '\x27' ∨ quote = '"' →
        Lexeme.opensHereString rest = false)
  | .singleQuoted, _, behind => behind.head? ≠ some '\x27'
  | .doubleQuoted, _, behind => behind.head? ≠ some '"'
  | .lineComment, _, behind => ∀ c ∈ behind.head?, c = '\n'
  | _, _, _ => True

/-- The scanner finds a lexeme with the text at the front. -/
def Scans (kind : LexemeKind) (text behind : List Char) : Prop :=
  ∃ c rest, ∃ lexeme : Lexeme (c :: rest), text ++ behind = c :: rest ∧
    Lexeme.scan c rest = .ok lexeme ∧ lexeme.kind = kind ∧ lexeme.length = text.length

/-! ## Scanning -/

theorem ofLength?_eq {kind : LexemeKind} {cause : Cause} {s : List Char} {skipped n : Nat}
    {n? : Option Nat} (pos : 0 < skipped) (le : ∀ n, n? = some n → skipped + n ≤ s.length)
    (h : n? = some n) :
    Lexeme.ofLength? kind cause s skipped n? pos le =
      .ok ⟨kind, skipped + n, Nat.add_pos_left pos n, le n h⟩ := by
  subst h
  rfl

theorem blockCommentLength?_append {content behind : List Char}
    (h : ¬ ['#', '>'] <:+: content) :
    Lexeme.blockCommentLength? (content ++ '#' :: '>' :: behind) = some (content.length + 2) := by
  induction content with
  | nil => rfl
  | cons c content ih =>
      have htail : ¬ ['#', '>'] <:+: content := fun hinfix => h (List.infix_cons hinfix)
      have hclose : ∀ more, c :: (content ++ '#' :: '>' :: behind) ≠ '#' :: '>' :: more := by
        intro more heq
        obtain ⟨rfl, hbehind⟩ := List.cons.inj heq
        cases content with
        | nil => cases hbehind
        | cons d content =>
            obtain ⟨rfl, _⟩ := List.cons.inj hbehind
            exact h ⟨[], content, rfl⟩
      rw [List.cons_append, Lexeme.blockCommentLength?.eq_def]
      split
      · contradiction
      · next heq => exact absurd heq (hclose _)
      · next heq =>
        cases heq
        rw [ih htail]
        rfl

theorem singleQuotedLength?_append {body behind : List Char} (h : QuotedBody '\x27' false body)
    (hbehind : behind.head? ≠ some '\x27') :
    Lexeme.singleQuotedLength? (body ++ '\x27' :: behind) = some (body.length + 1) := by
  induction h with
  | nil =>
      rw [List.nil_append, Lexeme.singleQuotedLength?.eq_def]
      split
      · contradiction
      · next heq =>
        cases heq
        exact absurd rfl hbehind
      · rfl
      · next heq =>
        cases heq
        contradiction
  | @plain c body hquote _ _ ih =>
      rw [List.cons_append, Lexeme.singleQuotedLength?.eq_def]
      split <;> simp_all
  | escape _ hescapes => cases hescapes
  | twice _ ih =>
      rw [List.cons_append, List.cons_append, Lexeme.singleQuotedLength?, ih]
      rfl

theorem doubleQuotedLength?_append {body behind : List Char} (h : QuotedBody '"' true body)
    (hbehind : behind.head? ≠ some '"') :
    Lexeme.doubleQuotedLength? (body ++ '"' :: behind) = some (body.length + 1) := by
  induction h with
  | nil =>
      rw [List.nil_append, Lexeme.doubleQuotedLength?.eq_def]
      split
      · contradiction
      · next heq => cases heq
      · next heq =>
        cases heq
        exact absurd rfl hbehind
      · rfl
      · next heq =>
        cases heq
        contradiction
  | @plain c body hquote hescape _ ih =>
      have hplain := hescape rfl
      rw [List.cons_append, Lexeme.doubleQuotedLength?.eq_def]
      split <;> simp_all
  | escape c _ _ ih =>
      rw [List.cons_append, List.cons_append, Lexeme.doubleQuotedLength?, ih]
      rfl
  | twice _ ih =>
      rw [List.cons_append, List.cons_append, Lexeme.doubleQuotedLength?, ih]
      rfl

theorem dropWhile_append_of_not {p : Char → Bool} {c : Char} (hc : p c = false)
    (body behind : List Char) :
    ∃ d rest, (body ++ c :: behind).dropWhile p = d :: rest ∧
      ∀ behind', ∃ rest', (body ++ c :: behind').dropWhile p = d :: rest' := by
  induction body with
  | nil => exact ⟨c, behind, by simp [hc], fun behind' => ⟨behind', by simp [hc]⟩⟩
  | cons b body ih =>
      by_cases hb : p b = true
      · obtain ⟨d, rest, hdrop, hall⟩ := ih
        exact ⟨d, rest, by simp [hb, hdrop], fun behind' => by
          obtain ⟨rest', hrest'⟩ := hall behind'
          exact ⟨rest', by simp [hb, hrest']⟩⟩
      · rw [Bool.not_eq_true] at hb
        exact ⟨b, body ++ c :: behind, by simp [hb], fun behind' =>
          ⟨body ++ c :: behind', by simp [hb]⟩⟩

theorem opensHereString_append {c : Char} (hc : Lexeme.isIndent c = false)
    (body behind behind' : List Char) :
    Lexeme.opensHereString (body ++ c :: behind) =
      Lexeme.opensHereString (body ++ c :: behind') := by
  obtain ⟨d, rest, hdrop, hall⟩ := dropWhile_append_of_not hc body behind
  obtain ⟨rest', hdrop'⟩ := hall behind'
  simp only [Lexeme.opensHereString, hdrop, hdrop']

theorem closesHereString_iff {quote : Char} {s : List Char}
    (hquote : Lexeme.isIndent quote = false) :
    Lexeme.closesHereString quote s = true ↔ ClosesLine quote ('\n' :: s) := by
  rw [Lexeme.closesHereString, List.isPrefixOf_iff_prefix]
  constructor
  · rintro ⟨rest, hrest⟩
    refine ⟨s.takeWhile Lexeme.isIndent, rest, ?_, ?_⟩
    · have hsplit := List.takeWhile_append_dropWhile (p := Lexeme.isIndent) (l := s)
      rw [← hrest] at hsplit
      exact congrArg (List.cons '\n') hsplit.symm
    · exact List.all_eq_true.1 List.all_takeWhile
  · rintro ⟨indent, rest, heq, hindent⟩
    obtain ⟨_, rfl⟩ := List.cons.inj heq
    rw [List.dropWhile_append_of_pos hindent]
    simp [hquote]

theorem closesLine_of_append {quote : Char} {body behind : List Char}
    (hquote : quote = '\x27' ∨ quote = '"')
    (h : ClosesLine quote ('\n' :: (body ++ '\n' :: behind))) :
    ClosesLine quote ('\n' :: body) := by
  obtain ⟨indent, rest, heq, hindent⟩ := h
  rcases List.append_eq_append_iff.1 (List.cons.inj heq).2 with
    ⟨more, hmore, hrest⟩ | ⟨more, hmore, hrest⟩
  · exfalso
    cases more with
    | nil =>
        cases hrest
        rcases hquote with hquote | hquote <;> cases hquote
    | cons c more =>
        cases hrest
        have hc := hindent '\n' (by rw [hmore]; simp)
        cases hc
  · cases more with
    | nil =>
        cases hrest
        rcases hquote with hquote | hquote <;> cases hquote
    | cons c more =>
        obtain ⟨hfirst, htail⟩ := List.cons.inj hrest
        cases more with
        | nil => cases htail
        | cons d more =>
            obtain ⟨hsecond, _⟩ := List.cons.inj htail
            exact ⟨indent, more, by rw [hmore, hfirst, hsecond], hindent⟩

theorem hereStringLength?_append {quote : Char} {body indent behind : List Char}
    (hquote : quote = '\x27' ∨ quote = '"') (hindent : ∀ c ∈ indent, Lexeme.isIndent c = true)
    (hbody : ∀ front behind, body = front ++ behind → ¬ ClosesLine quote behind) :
    Lexeme.hereStringLength? quote (body ++ '\n' :: (indent ++ quote :: '@' :: behind)) =
      some (body.length + indent.length + 3) := by
  have hquoteIndent : Lexeme.isIndent quote = false := by
    rcases hquote with rfl | rfl <;> decide
  induction body with
  | nil =>
      have hcloses : Lexeme.closesHereString quote (indent ++ quote :: '@' :: behind) = true :=
        (closesHereString_iff hquoteIndent).2 ⟨indent, behind, rfl, hindent⟩
      have htake : (indent ++ quote :: '@' :: behind).takeWhile Lexeme.isIndent = indent := by
        rw [List.takeWhile_append_of_pos hindent]
        simp [hquoteIndent]
      rw [List.nil_append, Lexeme.hereStringLength?, hcloses, htake]
      simp
  | cons c body ih =>
      have htail := ih fun front rest heq => hbody (c :: front) rest (by rw [heq]; rfl)
      have hopen : (c == '\n' && Lexeme.closesHereString quote
          (body ++ '\n' :: (indent ++ quote :: '@' :: behind))) = false := by
        by_contra hcontra
        rw [Bool.not_eq_false, Bool.and_eq_true, beq_iff_eq,
          closesHereString_iff hquoteIndent] at hcontra
        obtain ⟨rfl, hcloses⟩ := hcontra
        exact hbody [] ('\n' :: body) rfl (closesLine_of_append hquote hcloses)
      rw [List.cons_append, Lexeme.hereStringLength?, hopen, htail]
      simp
      omega

/-- Where a lexeme ends, the scanner finds it. -/
theorem IsLexeme.scans {kind : LexemeKind} {text behind : List Char} (h : IsLexeme kind text)
    (hends : Ends kind text behind) : Scans kind text behind := by
  cases h with
  | @plain c hc =>
      by_cases hless : c = '<'
      · subst hless
        have hmark : behind.head? ≠ some '#' := hends.1 rfl
        have hscan : ∀ c, c = '<' →
            Lexeme.scan c behind = .ok ⟨.plain, 1, Nat.one_pos, by simp⟩ := by
          intro c hc
          unfold Lexeme.scan
          split <;> first | rfl | exact absurd rfl hmark | cases hc
        exact ⟨'<', behind, _, rfl, hscan '<' rfl, rfl, rfl⟩
      · by_cases hat : c = '@'
        · subst hat
          refine ⟨'@', behind, ⟨.plain, 1, Nat.one_pos, by simp⟩, rfl, ?_, rfl, rfl⟩
          cases behind with
          | nil => rfl
          | cons quote rest =>
              have hnot : ((quote == '\x27' || quote == '"') &&
                  Lexeme.opensHereString rest) = false := by
                by_contra hcontra
                rw [Bool.not_eq_false, Bool.and_eq_true, Bool.or_eq_true, beq_iff_eq,
                  beq_iff_eq] at hcontra
                have hopens := hends.2 rfl quote rest rfl hcontra.1
                rw [hcontra.2] at hopens
                cases hopens
              rw [Lexeme.scan, if_neg (by rw [hnot]; exact Bool.false_ne_true)]
        · have hplain : c ∉ ['<', '#', '\x60', '@', '\x27', '"'] := by
            simp only [List.mem_cons, List.not_mem_nil, or_false, not_or] at hc ⊢
            exact ⟨hless, hc.1, hc.2.1, hat, hc.2.2⟩
          exact ⟨c, behind, _, rfl, scan_plain hplain behind, rfl, rfl⟩
  | escape c => exact ⟨'\x60', c :: behind, _, rfl, rfl, rfl, by simp⟩
  | @lineComment content hcontent =>
      have htake : (content ++ behind).takeWhile (· != '\n') = content := by
        rw [List.takeWhile_append_of_pos (fun c hc => by
          rw [bne_iff_ne]
          rintro rfl
          exact hcontent hc)]
        cases behind with
        | nil => simp
        | cons c behind =>
            cases hends c rfl
            simp
      refine ⟨'#', content ++ behind, _, rfl, rfl, rfl, ?_⟩
      simp only [htake, List.length_cons]
      omega
  | @blockComment content hcontent =>
      have hlength := @blockCommentLength?_append content behind hcontent
      refine ⟨'<', '#' :: (content ++ '#' :: '>' :: behind), _, by simp,
        ofLength?_eq Nat.two_pos _ hlength, rfl, ?_⟩
      simp
      omega
  | @singleQuoted body hbody =>
      have hlength := singleQuotedLength?_append hbody hends
      refine ⟨'\x27', body ++ '\x27' :: behind, _, by simp,
        ofLength?_eq Nat.one_pos _ hlength, rfl, ?_⟩
      simp
      omega
  | @doubleQuoted body hbody =>
      have hlength := doubleQuotedLength?_append hbody hends
      refine ⟨'"', body ++ '"' :: behind, _, by simp,
        ofLength?_eq Nat.one_pos _ hlength, rfl, ?_⟩
      simp
      omega
  | @hereString quote body indent hquote hopens hindent hbody =>
      have hlength := @hereStringLength?_append quote body indent behind hquote hindent hbody
      have hopen : Lexeme.opensHereString
          (body ++ '\n' :: (indent ++ quote :: '@' :: behind)) = true := by
        rw [opensHereString_append (by decide) body _ []]
        exact hopens
      have hquoted : ((quote == '\x27' || quote == '"') && Lexeme.opensHereString
          (body ++ '\n' :: (indent ++ quote :: '@' :: behind))) = true := by
        rw [hopen]
        rcases hquote with rfl | rfl <;> rfl
      refine ⟨'@', quote :: (body ++ '\n' :: (indent ++ quote :: '@' :: behind)), _, by simp,
        (if_pos hquoted).trans (ofLength?_eq Nat.two_pos _ hlength), rfl, ?_⟩
      simp
      omega

theorem drop_lexeme {text behind rest : List Char} {c : Char}
    {lexeme : Lexeme (c :: rest)} (heq : text ++ behind = c :: rest)
    (hlength : lexeme.length = text.length) : (c :: rest).drop lexeme.length = behind := by
  rw [hlength, ← heq, List.drop_left]

/-! ## Code -/

/-- The text of a lexeme. -/
structure Piece where
  kind : LexemeKind
  text : List Char
  isLexeme : IsLexeme kind text

namespace Piece

def char (c : Char) (hc : c ∉ ['#', '\x60', '\x27', '"']) : Piece := ⟨.plain, [c], .plain hc⟩

/-- Plain characters one by one. -/
def chars (s : List Char) (hs : ∀ c ∈ s, c ∉ ['#', '\x60', '\x27', '"']) : List Piece :=
  s.pmap char hs

theorem text_ne_nil (piece : Piece) : piece.text ≠ [] := by
  obtain ⟨kind, text, h⟩ := piece
  cases h <;> exact List.cons_ne_nil _ _

end Piece

def textOf (pieces : List Piece) : List Char := pieces.flatMap Piece.text

@[simp] theorem textOf_nil : textOf [] = [] := rfl

@[simp] theorem textOf_cons (piece : Piece) (pieces : List Piece) :
    textOf (piece :: pieces) = piece.text ++ textOf pieces := rfl

@[simp] theorem textOf_append (pieces more : List Piece) :
    textOf (pieces ++ more) = textOf pieces ++ textOf more := List.flatMap_append

@[simp] theorem textOf_chars (s : List Char) (hs : ∀ c ∈ s, c ∉ ['#', '\x60', '\x27', '"']) :
    textOf (Piece.chars s hs) = s := by
  induction s with
  | nil => rfl
  | cons c s ih => exact congrArg (List.cons c) (ih fun d hd => hs d (List.mem_cons_of_mem c hd))

/-- Each piece ends before the next one, and the last one before what stands behind. -/
def Fits : List Piece → List Char → Prop
  | [], _ => True
  | piece :: pieces, behind =>
    Ends piece.kind piece.text (textOf pieces ++ behind) ∧ Fits pieces behind

theorem fits_append {pieces more : List Piece} {behind : List Char} :
    Fits (pieces ++ more) behind ↔ Fits pieces (textOf more ++ behind) ∧ Fits more behind := by
  induction pieces with
  | nil => simp [Fits]
  | cons piece pieces ih =>
      rw [List.cons_append, Fits, Fits, ih, textOf_append, List.append_assoc, and_assoc]

/-- Brackets are closed in order; commas outside brackets may be excluded. -/
inductive Balanced : Bool → List Piece → Prop
  | nil {commas : Bool} : Balanced commas []
  | piece {commas : Bool} {piece : Piece} {pieces : List Piece}
      (hbracket : ∀ c, piece.text = [c] → isBracket c = false)
      (hcomma : commas = false → piece.text ≠ [',']) (h : Balanced commas pieces) :
      Balanced commas (piece :: pieces)
  | group {commas : Bool} {c d : Char} {inside pieces : List Piece}
      {hc : c ∉ ['#', '\x60', '\x27', '"']} {hd : d ∉ ['#', '\x60', '\x27', '"']}
      (hopener : closer? c = some d) (hinside : Balanced true inside)
      (h : Balanced commas pieces) :
      Balanced commas (Piece.char c hc :: (inside ++ Piece.char d hd :: pieces))

namespace Balanced

theorem append {commas : Bool} {pieces more : List Piece} (h : Balanced commas pieces)
    (hmore : Balanced commas more) : Balanced commas (pieces ++ more) := by
  induction h with
  | nil => exact hmore
  | piece hbracket hcomma _ ih => exact .piece hbracket hcomma (ih hmore)
  | group hopener hinside _ _ ih =>
      rw [List.cons_append, List.append_assoc, List.cons_append]
      exact .group hopener hinside (ih hmore)

theorem weaken {commas : Bool} {pieces : List Piece} (h : Balanced commas pieces) :
    Balanced true pieces := by
  induction h with
  | nil => exact .nil
  | piece hbracket _ _ ih => exact .piece hbracket nofun ih
  | group hopener hinside _ _ ih => exact .group hopener hinside ih

end Balanced

theorem drop_behind (inside behind : List Char) (c : Char) (offset : Nat) :
    (inside ++ c :: behind).drop (offset + 1 + inside.length - offset) = behind := by
  have hcount : offset + 1 + inside.length - offset = inside.length + 1 := by omega
  rw [hcount, ← List.drop_drop, List.drop_left]
  rfl

theorem Balanced.walk {commas : Bool} {pieces : List Piece} {behind : List Char}
    (h : Balanced commas pieces) (hfits : Fits pieces behind) (offset : Nat) :
    Walk (fun kind c => commas = false → noComma kind c) offset (textOf pieces ++ behind)
      (offset + (textOf pieces).length) behind := by
  induction h generalizing behind offset with
  | nil => exact .nil _ _
  | @piece commas piece pieces hbracket hcomma _ ih =>
      obtain ⟨c, rest, lexeme, heq, hscan, hkind, hlength⟩ := piece.isLexeme.scans hfits.1
      have hdrop := drop_lexeme heq hlength
      have hrest := ih hfits.2 (offset + lexeme.length)
      have hsum : offset + (textOf (piece :: pieces)).length =
          offset + lexeme.length + (textOf pieces).length := by
        rw [textOf_cons, List.length_append, hlength]
        omega
      have hsingle : lexeme.kind = .plain → piece.text = [c] := by
        intro hplain
        rw [length_of_plain hscan hplain] at hlength
        obtain ⟨d, hd⟩ := List.length_eq_one_iff.1 hlength.symm
        rw [hd] at heq ⊢
        rw [(List.cons.inj heq).1]
      rw [hsum, textOf_cons, List.append_assoc, heq]
      refine .lexeme hscan (fun hplain => hbracket c (hsingle hplain)) ?_ ?_
      · rintro hcommas hplain rfl
        exact hcomma hcommas (hsingle hplain)
      · rw [hdrop]
        exact hrest
  | @group commas c d inside pieces hc hd hopener hinside _ ihInside ih =>
      obtain ⟨_, hfits⟩ := hfits
      obtain ⟨hfitsInside, _, hfitsBehind⟩ := fits_append.1 hfits
      have hcloser := isCloser_of_closer? hopener
      have hbrackets : isBracket c = true ∧ isBracket d = true := by
        constructor
        · rw [isBracket, hopener]
          rfl
        · rw [isBracket, hcloser, Bool.or_true]
      have hclose : Closes d [] (offset + 1)
          (textOf inside ++ d :: (textOf pieces ++ behind))
          (offset + 1 + (textOf inside).length) :=
        (ihInside hfitsInside (offset + 1)).closes
          (.outermost (scan_bracket hbrackets.2 _) rfl hcloser)
      have hrest := ih hfitsBehind (offset + 1 + (textOf inside).length + 1)
      have hsum :
          offset + (textOf (Piece.char c hc :: (inside ++ Piece.char d hd :: pieces))).length =
            offset + 1 + (textOf inside).length + 1 + (textOf pieces).length := by
        simp only [textOf_cons, textOf_append, List.length_append, Piece.char, List.length_cons,
          List.length_nil]
        omega
      have htext : textOf (Piece.char c hc :: (inside ++ Piece.char d hd :: pieces)) ++ behind =
          c :: (textOf inside ++ d :: (textOf pieces ++ behind)) := by
        simp [Piece.char]
      rw [hsum, htext]
      refine .group (scan_bracket hbrackets.1 _) rfl hopener hclose ?_
      rw [drop_behind]
      exact hrest

theorem Balanced.closing {inside : List Piece} {behind : List Char} (h : Balanced true inside)
    {c d : Char} (hcloser : isCloser d = true) (hfits : Fits inside (d :: behind)) (offset : Nat) :
    PowerShell.closing c d ⟨offset, textOf inside ++ d :: behind⟩ =
      .ok (offset + (textOf inside).length) := by
  have hbracket : isBracket d = true := by
    rw [isBracket, hcloser, Bool.or_true]
  exact closing_eq_iff.2
    ((h.walk hfits offset).closes (.outermost (scan_bracket hbracket _) rfl hcloser))

end DscAudit.PowerShell

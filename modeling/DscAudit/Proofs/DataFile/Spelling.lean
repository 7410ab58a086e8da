import DscAudit.DataFile.Token
import DscAudit.Proofs.Text.Character

/-!
# Tokens and their spellings

A token can be spelled in several ways, and any gap of blanks, comments and continued line ends may
stand between two tokens.  The lexer gets the tokens back from every such text, provided that no two
tokens stand side by side which would run together: strings, constants and words need something
else between them.
-/

namespace DscAudit.DataFile

/-! ## Spellings -/

/-- A string in single quotes: a quote is written twice. -/
def doubled (content : List Char) : List Char :=
  content.flatMap fun c => if c = '\x27' then ['\x27', '\x27'] else [c]

theorem doubled_of_not_mem {content : List Char} (h : '\x27' ∉ content) : doubled content = content := by
  refine (List.flatMap_congr fun c hc => if_neg ?_).trans (List.flatMap_singleton' content)
  rintro rfl
  exact h hc

/-- A string in double quotes: a quote is written twice or behind a backtick, and any character that
the backtick stands for may be written so; a backtick must be. -/
inductive Escapes : List Char → List Char → Prop where
  | nil : Escapes [] []
  | plain {c : Char} {content body : List Char} (hquote : c ≠ '"') (hescape : c ≠ '\x60')
      (h : Escapes content body) : Escapes (c :: content) (c :: body)
  | escape (c : Char) {content body : List Char} (h : Escapes content body) :
      Escapes (escaped c :: content) ('\x60' :: c :: body)
  | twice {content body : List Char} (h : Escapes content body) :
      Escapes ('"' :: content) ('"' :: '"' :: body)

/-- The syntax of bare words. -/
def IsBareWord : List Char → Prop
  | [] => False
  | c :: rest => isWordStart c = true ∧ ∀ d ∈ rest, isWordPart d = true

instance : (word : List Char) → Decidable (IsBareWord word)
  | [] => inferInstanceAs (Decidable False)
  | c :: rest =>
    decidable_of_iff (isWordStart c = true ∧ rest.all isWordPart = true)
      (and_congr_right fun _ => List.all_eq_true)

/-- A token and the characters that write it. -/
inductive Spelling : Token → List Char → Prop where
  | newLine : Spelling .newLine ['\n']
  | openTable : Spelling .openTable ['@', '\x7b']
  | openArray : Spelling .openArray ['@', '(']
  | closeTable : Spelling .closeTable ['\x7d']
  | closeArray : Spelling .closeArray [')']
  | comma : Spelling .comma [',']
  | semicolon : Spelling .semicolon [';']
  | equals : Spelling .equals ['=']
  | single (content : String) :
      Spelling (.string content) ('\x27' :: (doubled content.toList ++ ['\x27']))
  | double {content : String} {body : List Char} (h : Escapes content.toList body) :
      Spelling (.string content) ('"' :: (body ++ ['"']))
  | int (n : Int) : Spelling (.constant (.int n)) (integerText n)
  | truth : Spelling (.constant (.bool true)) "$true".toList
  | falsehood : Spelling (.constant (.bool false)) "$false".toList
  | nothing : Spelling (.constant .null) "$null".toList
  | word {name : String} (h : IsBareWord name.toList) : Spelling (.word name) name.toList

/-- Blanks, comments and continued line ends. -/
inductive Gap : List Char → Prop where
  | nil : Gap []
  | blank {c : Char} {gap : List Char} (hc : isSkipped c = true) (h : Gap gap) : Gap (c :: gap)
  | comment {content gap : List Char} (hc : ¬ ['#', '>'] <:+: content) (h : Gap gap) :
      Gap ('<' :: '#' :: (content ++ '#' :: '>' :: gap))
  | lineFeed {gap : List Char} (h : Gap gap) : Gap ('\x60' :: '\n' :: gap)
  | carriageReturn {gap : List Char} (h : Gap gap) : Gap ('\x60' :: '\r' :: '\n' :: gap)

/-- The tokens one after the other, with gaps before, between and behind them. -/
inductive Spells : List Token → List Char → Prop where
  | nil {gap : List Char} (hgap : Gap gap) : Spells [] gap
  | cons {gap spelling text : List Char} {token : Token} {tokens : List Token} (hgap : Gap gap)
      (htoken : Spelling token spelling) (h : Spells tokens text) :
      Spells (token :: tokens) (gap ++ (spelling ++ text))

/-- Strings, constants and words may run together with what comes next. -/
def isAtom : Token → Bool
  | .string _ | .constant _ | .word _ => true
  | _ => false

/-- No two tokens that may run together stand side by side. -/
def Spaced : List Token → Prop
  | [] => True
  | token :: tokens =>
    (isAtom token = true → ∀ next ∈ tokens.head?, isAtom next = false) ∧ Spaced tokens

/-! ## Steps of the lexer -/

/-- The lexer takes one step, which gives a token or nothing. -/
def StepsTo (place : Place) (s : List Char) (token : Option Token) (behind : List Char) : Prop :=
  ∃ c rest place' h, s = c :: rest ∧ step place c rest = .ok ⟨token, place', behind, h⟩

theorem StepsTo.exists_skip {place : Place} {s behind : List Char}
    (h : StepsTo place s none behind) :
    ∃ place', tokensFrom place s = tokensFrom place' behind := by
  obtain ⟨c, rest, place', hlength, rfl, hstep⟩ := h
  refine ⟨place', ?_⟩
  rw [tokensFrom, hstep]
  simp only [bind, Except.bind]
  cases tokensFrom place' behind with
  | error fault => rfl
  | ok found => rfl

theorem StepsTo.exists_token {place : Place} {s behind : List Char} {token : Token}
    (h : StepsTo place s (some token) behind) :
    ∃ place' line column, ∀ tokens stop, tokensFrom place' behind = .ok (tokens, stop) →
      tokensFrom place s = .ok (⟨token, line, column⟩ :: tokens, stop) := by
  obtain ⟨c, rest, place', hlength, rfl, hstep⟩ := h
  refine ⟨place', place.line, place.columnOf place.offset, fun tokens stop hbehind => ?_⟩
  rw [tokensFrom, hstep]
  simp only [bind, Except.bind]
  rw [hbehind]
  rfl

theorem step_eq_plain {place : Place} {c : Char} {rest : List Char}
    (hc : c ∉ ['\n', '<', '#', '\x60', '@', '\x27', '"', '$']) :
    step place c rest =
      if isSkipped c then .ok ⟨none, place.advance 1, rest, Nat.lt_succ_self _⟩
      else
        match punctuation? c with
        | some token => .ok ⟨some token, place.advance 1, rest, Nat.lt_succ_self _⟩
        | none => plainStep place c rest := by
  unfold step
  split <;> first | rfl | simp at hc

/-! ### Gaps -/

theorem isSkipped_cases {c : Char} (h : isSkipped c = true) :
    c = ' ' ∨ c = '\t' ∨ c = '\r' ∨ c = '\uFEFF' := by
  simpa [isSkipped, or_assoc] using h

theorem stepsTo_blank (place : Place) {c : Char} {rest : List Char} (hc : isSkipped c = true) :
    StepsTo place (c :: rest) none rest := by
  have hplain : c ∉ ['\n', '<', '#', '\x60', '@', '\x27', '"', '$'] := by
    rcases isSkipped_cases hc with rfl | rfl | rfl | rfl <;> decide
  refine ⟨c, rest, place.advance 1, Nat.lt_succ_self _, rfl, ?_⟩
  rw [step_eq_plain hplain, if_pos hc]

theorem blockComment?_append {content rest : List Char} (h : ¬ ['#', '>'] <:+: content) :
    blockComment? (content ++ '#' :: '>' :: rest) = some (content, rest) := by
  induction content with
  | nil => rfl
  | cons c content ih =>
      have htail : ¬ ['#', '>'] <:+: content := fun hinfix => h (List.infix_cons hinfix)
      have hclose : ∀ more, c :: (content ++ '#' :: '>' :: rest) ≠ '#' :: '>' :: more := by
        intro more heq
        obtain ⟨rfl, hbehind⟩ := List.cons.inj heq
        cases content with
        | nil => cases hbehind
        | cons d content =>
            obtain ⟨rfl, _⟩ := List.cons.inj hbehind
            exact h ⟨[], content, rfl⟩
      rw [List.cons_append, blockComment?.eq_def]
      split
      · contradiction
      · next heq => exact absurd heq (hclose _)
      · next heq =>
        cases heq
        rw [ih htail]
        rfl

theorem stepsTo_comment (place : Place) {content : List Char} (rest : List Char)
    (h : ¬ ['#', '>'] <:+: content) :
    StepsTo place ('<' :: '#' :: (content ++ '#' :: '>' :: rest)) none rest := by
  have hcomment : blockComment? (content ++ '#' :: '>' :: rest) = some (content, rest) :=
    blockComment?_append h
  refine ⟨'<', _, (content.foldl Place.pass (place.advance 2)).advance 2,
    Nat.lt_trans (blockComment?_length hcomment) (length_lt_cons_cons _), rfl, ?_⟩
  rw [step]
  split
  · next heq =>
    rw [hcomment] at heq
    cases heq
    rfl
  · next heq =>
    rw [hcomment] at heq
    cases heq

theorem stepsTo_lineFeed (place : Place) {rest : List Char} :
    StepsTo place ('\x60' :: '\n' :: rest) none rest :=
  ⟨'\x60', '\n' :: rest, (place.advance 2).nextLine, length_lt_cons_cons rest, rfl, rfl⟩

theorem stepsTo_carriageReturn (place : Place) {rest : List Char} :
    StepsTo place ('\x60' :: '\r' :: '\n' :: rest) none rest :=
  ⟨'\x60', '\r' :: '\n' :: rest, (place.advance 3).nextLine,
    Nat.lt_succ_of_lt (length_lt_cons_cons rest), rfl, rfl⟩

theorem Gap.exists_skip {gap : List Char} (h : Gap gap) (place : Place) (text : List Char) :
    ∃ place', tokensFrom place (gap ++ text) = tokensFrom place' text := by
  induction h generalizing place with
  | nil => exact ⟨place, rfl⟩
  | blank hc _ ih =>
      obtain ⟨next, hnext⟩ := (stepsTo_blank place hc).exists_skip
      obtain ⟨place', hplace'⟩ := ih next
      exact ⟨place', hnext.trans hplace'⟩
  | @comment content gap hc _ ih =>
      obtain ⟨next, hnext⟩ := (stepsTo_comment place (gap ++ text) hc).exists_skip
      obtain ⟨place', hplace'⟩ := ih next
      refine ⟨place', ?_⟩
      rw [← hplace', ← hnext]
      simp only [List.cons_append, List.append_assoc]
  | lineFeed _ ih =>
      obtain ⟨next, hnext⟩ := (stepsTo_lineFeed place).exists_skip
      obtain ⟨place', hplace'⟩ := ih next
      exact ⟨place', hnext.trans hplace'⟩
  | carriageReturn _ ih =>
      obtain ⟨next, hnext⟩ := (stepsTo_carriageReturn place).exists_skip
      obtain ⟨place', hplace'⟩ := ih next
      exact ⟨place', hnext.trans hplace'⟩

/-! ### Strings -/

theorem ofQuotation_eq_ok {s rest : List Char} {start : Nat} {quotation : Quotation}
    {hlength : ∀ rest, quotation.rest = some rest → rest.length < s.length}
    (h : quotation.rest = some rest) :
    ofQuotation start quotation hlength =
      .ok ⟨some (.string (String.ofList quotation.content)), quotation.place, rest,
        hlength rest h⟩ := by
  unfold ofQuotation
  split
  · next heq =>
    cases h.symm.trans heq
    rfl
  · next heq => cases h.symm.trans heq

theorem singleQuoted_close {place : Place} {rest : List Char} (h : rest.head? ≠ some '\x27') :
    singleQuoted place ('\x27' :: rest) = ⟨[], place.advance 1, some rest⟩ := by
  rw [singleQuoted.eq_def]
  split
  · contradiction
  · next heq =>
    cases heq
    exact absurd rfl h
  · next heq =>
    cases heq
    rfl
  · next heq =>
    cases heq
    contradiction

theorem singleQuoted_plain {place : Place} {c : Char} {rest : List Char} (hc : c ≠ '\x27') :
    singleQuoted place (c :: rest) = (singleQuoted (place.pass c) rest).cons c := by
  rw [singleQuoted.eq_def]
  split <;> simp_all

theorem singleQuoted_doubled (content : List Char) {rest : List Char}
    (hrest : rest.head? ≠ some '\x27') (place : Place) :
    (singleQuoted place (doubled content ++ '\x27' :: rest)).content = content ∧
      (singleQuoted place (doubled content ++ '\x27' :: rest)).rest = some rest := by
  induction content generalizing place with
  | nil =>
      rw [doubled, List.flatMap_nil, List.nil_append, singleQuoted_close hrest]
      exact ⟨rfl, rfl⟩
  | cons c content ih =>
      rw [doubled, List.flatMap_cons, List.append_assoc, ← doubled]
      by_cases hc : c = '\x27'
      · subst hc
        obtain ⟨hcontent, hbehind⟩ := ih (place.advance 2)
        exact ⟨congrArg _ hcontent, hbehind⟩
      · obtain ⟨hcontent, hbehind⟩ := ih (place.pass c)
        rw [if_neg hc, List.singleton_append, singleQuoted_plain hc]
        exact ⟨congrArg _ hcontent, hbehind⟩

theorem doubleQuoted_close {place : Place} {rest : List Char} (h : rest.head? ≠ some '"') :
    doubleQuoted place ('"' :: rest) = ⟨[], place.advance 1, some rest⟩ := by
  rw [doubleQuoted.eq_def]
  split
  · contradiction
  · next heq => cases heq
  · next heq =>
    cases heq
    exact absurd rfl h
  · next heq =>
    cases heq
    rfl
  · next heq =>
    cases heq
    contradiction

theorem doubleQuoted_plain {place : Place} {c : Char} {rest : List Char} (hquote : c ≠ '"')
    (hescape : c ≠ '\x60') :
    doubleQuoted place (c :: rest) = (doubleQuoted (place.pass c) rest).cons c := by
  rw [doubleQuoted.eq_def]
  split <;> simp_all

theorem doubleQuoted_escapes {content body rest : List Char} (h : Escapes content body)
    (hrest : rest.head? ≠ some '"') (place : Place) :
    (doubleQuoted place (body ++ '"' :: rest)).content = content ∧
      (doubleQuoted place (body ++ '"' :: rest)).rest = some rest := by
  induction h generalizing place with
  | nil =>
      rw [List.nil_append, doubleQuoted_close hrest]
      exact ⟨rfl, rfl⟩
  | @plain c content body hquote hescape _ ih =>
      obtain ⟨hcontent, hbehind⟩ := ih (place.pass c)
      rw [List.cons_append, doubleQuoted_plain hquote hescape]
      exact ⟨congrArg _ hcontent, hbehind⟩
  | escape c _ ih =>
      obtain ⟨hcontent, hbehind⟩ := ih (place.advance 2)
      exact ⟨congrArg _ hcontent, hbehind⟩
  | twice _ ih =>
      obtain ⟨hcontent, hbehind⟩ := ih (place.advance 2)
      exact ⟨congrArg _ hcontent, hbehind⟩

theorem stepsTo_single {place : Place} {content : String} {rest : List Char}
    (hrest : rest.head? ≠ some '\x27') :
    StepsTo place ('\x27' :: (doubled content.toList ++ '\x27' :: rest)) (some (.string content))
      rest := by
  obtain ⟨hcontent, hbehind⟩ := singleQuoted_doubled content.toList hrest (place.advance 1)
  refine ⟨'\x27', doubled content.toList ++ '\x27' :: rest,
    (singleQuoted (place.advance 1) (doubled content.toList ++ '\x27' :: rest)).place,
    Nat.lt_succ_of_lt (singleQuoted_length hbehind), rfl, ?_⟩
  change ofQuotation place.offset (singleQuoted (place.advance 1) _) _ = _
  rw [ofQuotation_eq_ok hbehind, hcontent, String.ofList_toList]

theorem stepsTo_double {place : Place} {content : String} {body rest : List Char}
    (h : Escapes content.toList body) (hrest : rest.head? ≠ some '"') :
    StepsTo place ('"' :: (body ++ '"' :: rest)) (some (.string content)) rest := by
  obtain ⟨hcontent, hbehind⟩ := doubleQuoted_escapes h hrest (place.advance 1)
  refine ⟨'"', body ++ '"' :: rest,
    (doubleQuoted (place.advance 1) (body ++ '"' :: rest)).place,
    Nat.lt_succ_of_lt (doubleQuoted_length hbehind), rfl, ?_⟩
  change ofQuotation place.offset (doubleQuoted (place.advance 1) _) _ = _
  rw [ofQuotation_eq_ok hbehind, hcontent, String.ofList_toList]

/-! ### Constants and words -/

theorem spanWord_append {word rest : List Char} (hword : IsBareWord word)
    (hrest : ∀ c ∈ rest.head?, isWordPart c = false) : spanWord (word ++ rest) = (word, rest) := by
  cases word with
  | nil => exact hword.elim
  | cons c word =>
      obtain ⟨htake, hdrop⟩ := Text.takeWhile_append_of_head? hword.2 hrest
      rw [List.cons_append, spanWord, if_pos hword.1, htake, hdrop]

theorem stepsTo_constant {place : Place} (word : List Char) {rest : List Char} {value : Value}
    (hword : IsBareWord word) (hvalue : constant? (Text.lower word) = some value)
    (hrest : ∀ c ∈ rest.head?, isWordPart c = false) :
    StepsTo place ('$' :: (word ++ rest)) (some (.constant value)) rest := by
  have hlength : rest.length < ('$' :: (word ++ rest)).length := by
    simp only [List.length_cons, List.length_append]
    omega
  refine ⟨'$', word ++ rest, place.advance (1 + word.length), hlength, rfl, ?_⟩
  change constantStep place (word ++ rest) = _
  rw [constantStep, spanWord_append hword hrest]
  simp only [hvalue]
  rw [dif_pos hlength]

theorem step_eq_plainStep {place : Place} {c : Char} {rest : List Char}
    (h : isWordStart c = true ∨ c.isDigit = true ∨ c = '-') :
    step place c rest = plainStep place c rest := by
  have hspecial : c ∉ ['\n', '<', '#', '\x60', '@', '\x27', '"', '$'] := by
    intro hmem
    simp only [List.mem_cons, List.not_mem_nil, or_false] at hmem
    rcases hmem with rfl | rfl | rfl | rfl | rfl | rfl | rfl | rfl <;> revert h <;> decide
  have hskip : isSkipped c = false := by
    by_contra hskip
    rcases isSkipped_cases (Bool.of_not_eq_false hskip) with rfl | rfl | rfl | rfl <;>
      revert h <;> decide
  have hpunctuation : punctuation? c = none := by
    unfold punctuation?
    split <;> first | rfl | (revert h; decide)
  rw [step_eq_plain hspecial, hskip, hpunctuation]
  rfl

theorem toNat_of_isWordStart {c : Char} (h : isWordStart c = true) :
    58 ≤ c.toNat ∧ c.toNat < 128 := by
  simp only [isWordStart, Char.isAlpha, Char.isUpper, Char.isLower, Bool.or_eq_true,
    Bool.and_eq_true, decide_eq_true_eq, ge_iff_le, UInt32.le_iff_toNat_le, Char.toNat_val,
    beq_iff_eq] at h
  have hupper : ('A' : Char).toNat = 65 ∧ ('Z' : Char).toNat = 90 := ⟨rfl, rfl⟩
  have hlower : ('a' : Char).toNat = 97 ∧ ('z' : Char).toNat = 122 := ⟨rfl, rfl⟩
  rcases h with h | rfl
  · omega
  · decide

theorem isDigit_of_isWordStart {c : Char} (h : isWordStart c = true) : Text.isDigit c = false := by
  obtain ⟨hlow, hhigh⟩ := toNat_of_isWordStart h
  have hdigit : ¬ c.isDigit = true := by
    rw [Text.isDigit_iff_toNat]
    omega
  rw [Text.isDigit, Text.digitValue?_of_lt hhigh, if_neg hdigit]
  rfl

theorem stepsTo_word {place : Place} {name rest : List Char} (hname : IsBareWord name)
    (hrest : ∀ c ∈ rest.head?, isWordPart c = false) :
    StepsTo place (name ++ rest) (some (.word (String.ofList name))) rest := by
  cases name with
  | nil => exact hname.elim
  | cons c name =>
      obtain ⟨hstart, hparts⟩ := hname
      obtain ⟨htake, hdrop⟩ := Text.takeWhile_append_of_head? hparts hrest
      have hminus : c ≠ '-' := by
        rintro rfl
        cases hstart
      have hnumber : number? (c :: (name ++ rest)) = none := by
        unfold number?
        split
        · next heq => exact absurd (List.cons.inj heq).1 hminus
        · simp [unsignedNumber?, isDigit_of_isWordStart hstart]
      refine ⟨c, name ++ rest, place.advance (name.length + 1), ?_, rfl, ?_⟩
      · simp only [List.length_cons, List.length_append]
        omega
      · rw [step_eq_plainStep (.inl hstart)]
        simp only [plainStep, hnumber, hstart, if_true, htake, hdrop, List.length_cons]

/-! ### Numbers -/

/-- The characters that can stand first behind a string, a constant or a word: those that start a
gap or a token of another kind. -/
def boundaries : List Char :=
  ['\n', '@', '\x7d', ')', ',', ';', '=', ' ', '\t', '\r', '\uFEFF', '<', '\x60']

/-- The text ends or starts with a boundary. -/
def StartsBoundary (text : List Char) : Prop := ∀ c ∈ text.head?, c ∈ boundaries

theorem StartsBoundary.head?_ne {text : List Char} {c : Char} (h : StartsBoundary text)
    (hc : c ∉ boundaries) : text.head? ≠ some c :=
  fun hhead => hc (h c hhead)

theorem StartsBoundary.isWordPart {text : List Char} (h : StartsBoundary text) :
    ∀ c ∈ text.head?, DataFile.isWordPart c = false := by
  intro c hc
  by_contra hcontra
  exact Text.not_mem_of_any (by decide +kernel) (Bool.of_not_eq_false hcontra) (h c hc)

theorem StartsBoundary.isDigit {text : List Char} (h : StartsBoundary text) :
    ∀ c ∈ text.head?, Text.isDigit c = false := by
  intro c hc
  by_contra hcontra
  exact Text.not_mem_of_any (by decide) (Bool.of_not_eq_false hcontra) (h c hc)

theorem StartsBoundary.endsNumber {text : List Char} (h : StartsBoundary text) :
    endsNumber text = true ∧ fraction? text = none := by
  have hany : boundaries.any (fun c => Text.isWordChar c || c == '.') = false := by
    decide +kernel
  cases text with
  | nil => exact ⟨rfl, rfl⟩
  | cons c text =>
      have hc := Bool.eq_false_iff.2 (List.any_eq_false.1 hany c (h c rfl))
      have hpoint : c ≠ '.' := by
        rintro rfl
        cases hc
      refine ⟨by rw [DataFile.endsNumber, hc]; rfl, ?_⟩
      unfold fraction?
      split
      · next heq => exact absurd (List.cons.inj heq).1 hpoint
      · rfl

theorem unsignedNumber?_append {digits rest : List Char} (negative : Bool)
    (hne : digits ≠ []) (hdigits : ∀ c ∈ digits, c.isDigit = true) (hrest : StartsBoundary rest) :
    unsignedNumber? negative (digits ++ rest) =
      some (.int (if negative then -(Nat.ofDigitChars 10 digits 0 : Int)
        else (Nat.ofDigitChars 10 digits 0 : Int)), rest) := by
  obtain ⟨htake, hdrop⟩ := Text.takeWhile_append_of_head?
    (fun c hc => Text.isDigit_of_ascii (hdigits c hc)) hrest.isDigit
  obtain ⟨hends, hfraction⟩ := hrest.endsNumber
  have hempty : digits.isEmpty = false := by simpa using hne
  rw [unsignedNumber?]
  simp only [htake, hdrop, hfraction, hends, hempty, Text.digitsValue_eq_ofDigitChars hdigits]
  rfl

theorem number?_integerText (n : Int) {rest : List Char} (hrest : StartsBoundary rest) :
    number? (integerText n ++ rest) = some (.int n, rest) := by
  have hdigits : ∀ c ∈ Nat.toDigits 10 n.natAbs, c.isDigit = true :=
    fun c hc => Nat.isDigit_of_mem_toDigits (by decide) (by decide) hc
  have hread := fun negative => unsignedNumber?_append negative Nat.toDigits_ne_nil
    hdigits hrest
  simp only [Nat.ofDigitChars_ten_toDigits] at hread
  unfold integerText
  split
  · next hn =>
    have habs : -(n.natAbs : Int) = n := by omega
    rw [List.singleton_append, List.cons_append, number?, hread, if_pos rfl, habs]
  · next hn =>
    have hminus : ∀ more, Nat.toDigits 10 n.natAbs ++ rest ≠ '-' :: more := by
      intro more heq
      cases hlist : Nat.toDigits 10 n.natAbs with
      | nil => exact absurd hlist Nat.toDigits_ne_nil
      | cons c digits =>
          rw [hlist] at heq hdigits
          have hc := hdigits c List.mem_cons_self
          rw [(List.cons.inj heq).1] at hc
          cases hc
    rw [List.nil_append]
    unfold number?
    split
    · next heq => exact absurd heq (hminus _)
    · have habs : (n.natAbs : Int) = n := by omega
      rw [hread, if_neg Bool.false_ne_true, habs]

theorem exists_integerText_eq_cons (n : Int) :
    ∃ c rest, integerText n = c :: rest ∧ (c = '-' ∨ c.isDigit = true) := by
  unfold integerText
  split
  · exact ⟨'-', _, rfl, .inl rfl⟩
  · cases hlist : Nat.toDigits 10 n.natAbs with
    | nil => exact absurd hlist Nat.toDigits_ne_nil
    | cons c digits =>
        have hc : c.isDigit = true := Nat.isDigit_of_mem_toDigits (b := 10) (n := n.natAbs)
          (by decide) (by decide) (by rw [hlist]; exact List.mem_cons_self)
        exact ⟨c, digits, rfl, .inr hc⟩

theorem stepsTo_int {place : Place} {n : Int} {rest : List Char} (hrest : StartsBoundary rest) :
    StepsTo place (integerText n ++ rest) (some (.constant (.int n))) rest := by
  have hnumber := number?_integerText n hrest
  obtain ⟨c, digits, htext, hc⟩ := exists_integerText_eq_cons n
  rw [htext, List.cons_append] at hnumber ⊢
  have hlength : rest.length < (c :: (digits ++ rest)).length := by
    simp only [List.length_cons, List.length_append]
    omega
  refine ⟨c, digits ++ rest,
    place.advance ((c :: (digits ++ rest)).length - rest.length), hlength, rfl, ?_⟩
  rw [step_eq_plainStep (.inr hc.symm)]
  simp only [plainStep, hnumber]
  rw [dif_pos hlength]

/-! ## Texts of tokens -/

/-- A spelled token is read, and nothing behind it, if it cannot run together with what follows. -/
theorem Spelling.stepsTo {token : Token} {spelling rest : List Char} (h : Spelling token spelling)
    (hrest : isAtom token = true → StartsBoundary rest) (place : Place) :
    StepsTo place (spelling ++ rest) (some token) rest := by
  cases h with
  | newLine => exact ⟨'\n', rest, place.pass '\n', Nat.lt_succ_self _, rfl, rfl⟩
  | openTable => exact ⟨'@', '\x7b' :: rest, place.advance 2, length_lt_cons_cons rest, rfl, rfl⟩
  | openArray => exact ⟨'@', '(' :: rest, place.advance 2, length_lt_cons_cons rest, rfl, rfl⟩
  | closeTable => exact ⟨'\x7d', rest, place.advance 1, Nat.lt_succ_self _, rfl, rfl⟩
  | closeArray => exact ⟨')', rest, place.advance 1, Nat.lt_succ_self _, rfl, rfl⟩
  | comma => exact ⟨',', rest, place.advance 1, Nat.lt_succ_self _, rfl, rfl⟩
  | semicolon => exact ⟨';', rest, place.advance 1, Nat.lt_succ_self _, rfl, rfl⟩
  | equals => exact ⟨'=', rest, place.advance 1, Nat.lt_succ_self _, rfl, rfl⟩
  | single content =>
      rw [List.cons_append, List.append_assoc]
      exact stepsTo_single ((hrest rfl).head?_ne (by decide))
  | double hbody =>
      rw [List.cons_append, List.append_assoc]
      exact stepsTo_double hbody ((hrest rfl).head?_ne (by decide))
  | int n => exact stepsTo_int (hrest rfl)
  | truth =>
      exact stepsTo_constant "true".toList (by decide) (by rfl)
        (hrest rfl).isWordPart
  | falsehood =>
      exact stepsTo_constant "false".toList (by decide) (by rfl)
        (hrest rfl).isWordPart
  | nothing =>
      exact stepsTo_constant "null".toList (by decide) (by rfl)
        (hrest rfl).isWordPart
  | @word name hname =>
      have hstep : StepsTo place (name.toList ++ rest)
          (some (.word (String.ofList name.toList))) rest :=
        stepsTo_word hname (hrest rfl).isWordPart
      rw [String.ofList_toList] at hstep
      exact hstep

theorem Spelling.startsBoundary {token : Token} {spelling : List Char}
    (h : Spelling token spelling) (htoken : isAtom token = false) (text : List Char) :
    StartsBoundary (spelling ++ text) := by
  intro c hc
  cases h <;> cases htoken <;> cases hc <;> decide

theorem Gap.startsBoundary {gap text : List Char} (h : Gap gap) (htext : StartsBoundary text) :
    StartsBoundary (gap ++ text) := by
  cases h with
  | nil => exact htext
  | blank hc _ =>
      rintro _ ⟨⟩
      rcases isSkipped_cases hc with rfl | rfl | rfl | rfl <;> decide
  | comment _ _ =>
      rintro _ ⟨⟩
      decide
  | lineFeed _ =>
      rintro _ ⟨⟩
      decide
  | carriageReturn _ =>
      rintro _ ⟨⟩
      decide

theorem Spells.startsBoundary {tokens : List Token} {text : List Char} (h : Spells tokens text)
    (htokens : ∀ next ∈ tokens.head?, isAtom next = false) : StartsBoundary text := by
  cases h with
  | nil hgap =>
      rw [← List.append_nil text]
      exact hgap.startsBoundary nofun
  | cons hgap htoken _ =>
      exact hgap.startsBoundary (htoken.startsBoundary (htokens _ rfl) _)

/-- The lexer gets the tokens back from a text that spells them. -/
theorem Spells.exists_tokensFrom {tokens : List Token} {text : List Char} (h : Spells tokens text)
    (hspaced : Spaced tokens) (place : Place) :
    ∃ located stop, tokensFrom place text = .ok (located, stop) ∧
      located.map Located.token = tokens := by
  induction h generalizing place with
  | @nil gap hgap =>
      obtain ⟨stop, hstop⟩ := hgap.exists_skip place []
      rw [List.append_nil, tokensFrom] at hstop
      exact ⟨[], stop, hstop, rfl⟩
  | @cons gap spelling text token tokens hgap htoken hrest ih =>
      obtain ⟨hnext, htokens⟩ := hspaced
      obtain ⟨start, hskip⟩ := hgap.exists_skip place (spelling ++ text)
      have hstep := htoken.stepsTo (fun hatom => hrest.startsBoundary (hnext hatom)) start
      obtain ⟨behind, line, column, hread⟩ := hstep.exists_token
      obtain ⟨located, stop, hlocated, hmap⟩ := ih htokens behind
      exact ⟨_, stop, hskip.trans (hread located stop hlocated), by rw [List.map_cons, hmap]⟩

end DscAudit.DataFile

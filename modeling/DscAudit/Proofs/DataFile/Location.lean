import DscAudit.Proofs.DataFile.Automaton
import DscAudit.Proofs.DataFile.Lexeme
import DscAudit.Proofs.Text.Line

/-!
# Where the faults of a data file lie

A text that is no data file has an offending lexeme: one that cannot be cut off, or else the first token
with which no document goes on, or the end of a text that must not end there.  The fault that is reported
lies where the offending lexeme starts, unless lines were miscounted: within a string that does not end,
or in a lexeme before.
-/

namespace DscAudit.DataFile

variable {place : Place} {s t behind rest : List Char}

/-! ## Cutting a text into lexemes -/

theorem singleQuoted_place (first second : Place) (s : List Char) :
    (singleQuoted first s).content = (singleQuoted second s).content ∧
      (singleQuoted first s).rest = (singleQuoted second s).rest := by
  fun_induction singleQuoted first s generalizing second with
  | case1 => exact ⟨rfl, rfl⟩
  | case2 place s ih =>
      obtain ⟨hcontent, hrest⟩ := ih (second.advance 2)
      exact ⟨congrArg (List.cons '\x27') hcontent, hrest⟩
  | case3 place s hquote =>
      rw [singleQuoted]
      · exact ⟨rfl, rfl⟩
      · exact hquote
  | case4 place c s hdouble hquote ih =>
      obtain ⟨hcontent, hrest⟩ := ih (second.pass c)
      rw [singleQuoted]
      · exact ⟨congrArg (List.cons c) hcontent, hrest⟩
      · exact hdouble
      · exact hquote

theorem doubleQuoted_place (first second : Place) (s : List Char) :
    (doubleQuoted first s).content = (doubleQuoted second s).content ∧
      (doubleQuoted first s).rest = (doubleQuoted second s).rest := by
  fun_induction doubleQuoted first s generalizing second with
  | case1 => exact ⟨rfl, rfl⟩
  | case2 place c s ih =>
      obtain ⟨hcontent, hrest⟩ := ih (second.advance 2)
      exact ⟨congrArg (List.cons (escaped c)) hcontent, hrest⟩
  | case3 place s ih =>
      obtain ⟨hcontent, hrest⟩ := ih (second.advance 2)
      exact ⟨congrArg (List.cons '"') hcontent, hrest⟩
  | case4 place s hquote =>
      rw [doubleQuoted]
      · exact ⟨rfl, rfl⟩
      · exact hquote
  | case5 place c s hescape hdouble hquote ih =>
      obtain ⟨hcontent, hrest⟩ := ih (second.pass c)
      rw [doubleQuoted]
      · exact ⟨congrArg (List.cons c) hcontent, hrest⟩
      · exact hescape
      · exact hdouble
      · exact hquote

theorem found?_stringAt {first second : Quotation} (start start' : Nat)
    (h : first.content = second.content ∧ first.rest = second.rest) :
    found? (stringAt start first) = found? (stringAt start' second) := by
  rw [stringAt, stringAt, h.1, h.2]
  split <;> rfl

theorem found?_commentAt (first second : Place) (rest : List Char) :
    found? (commentAt first rest) = found? (commentAt second rest) := by
  rw [commentAt, commentAt]
  split <;> rfl

theorem found?_constantAt (first second : Place) (rest : List Char) :
    found? (constantAt first rest) = found? (constantAt second rest) := by
  rw [constantAt, constantAt]
  split <;> rfl

theorem found?_plainAt (first second : Place) (c : Char) (rest : List Char) :
    found? (plainAt first c rest) = found? (plainAt second c rest) := by
  rw [plainAt, plainAt]
  split
  · rfl
  · split <;> rfl

theorem found?_ite {p : Prop} [Decidable p] {first second first' second' : Except Fault Scanned}
    (h : found? first = found? first') (h' : found? second = found? second') :
    found? (if p then first else second) = found? (if p then first' else second') := by
  split
  · exact h
  · exact h'

/-- What a step finds does not depend on the place. -/
theorem found?_stepAt (first second : Place) (c : Char) (rest : List Char) :
    found? (stepAt first c rest) = found? (stepAt second c rest) := by
  rw [stepAt_eq, stepAt_eq]
  refine found?_ite rfl (found?_ite rfl (found?_ite (found?_commentAt _ _ _) (found?_ite rfl
    (found?_ite rfl (found?_ite (found?_ite rfl rfl) (found?_ite rfl (found?_ite rfl ?_)))))))
  split
  · rfl
  · exact found?_ite (found?_stringAt _ _ (singleQuoted_place _ _ _))
      (found?_ite (found?_stringAt _ _ (doubleQuoted_place _ _ _))
        (found?_ite (found?_constantAt _ _ _) (found?_plainAt _ _ _ _)))

/-- What a text starts with: a token, or something that is skipped, and the text behind it. -/
def scan : List Char → Option (Option Token × List Char)
  | [] => none
  | c :: rest => (step .start c rest).toOption.map fun next => (next.token, next.rest)

theorem scan_cons (place : Place) (c : Char) (rest : List Char) :
    scan (c :: rest) = found? (stepAt place c rest) := by
  rw [found?_stepAt place .start, scan, stepAt]
  cases step .start c rest <;> rfl

/-- Characters that are cut off in one step, and the token that they make, none if they are skipped. -/
structure Lexeme where
  spelling : List Char
  token : Option Token

/-- The lexemes that are cut off a text, and what is left. -/
def Cuts : List Char → List Lexeme → List Char → Prop
  | s, [], rest => s = rest
  | s, lexeme :: more, rest =>
    ∃ behind, lexeme.spelling ≠ [] ∧ s = lexeme.spelling ++ behind ∧
      scan s = some (lexeme.token, behind) ∧ Cuts behind more rest

def spelled (lexemes : List Lexeme) : List Char := lexemes.flatMap Lexeme.spelling

def tokensOf (lexemes : List Lexeme) : List Token := lexemes.filterMap Lexeme.token

theorem Cuts.append {first second : List Lexeme} (h : Cuts s first behind)
    (hsecond : Cuts behind second rest) : Cuts s (first ++ second) rest := by
  induction first generalizing s with
  | nil => exact h ▸ hsecond
  | cons lexeme first ih =>
      obtain ⟨middle, hne, hsplit, hscan, hmore⟩ := h
      exact ⟨middle, hne, hsplit, hscan, ih hmore⟩

theorem cuts_append {first second : List Lexeme} :
    Cuts s (first ++ second) rest ↔ ∃ behind, Cuts s first behind ∧ Cuts behind second rest := by
  constructor
  · intro h
    induction first generalizing s with
    | nil => exact ⟨s, rfl, h⟩
    | cons lexeme first ih =>
        obtain ⟨middle, hne, hsplit, hscan, hmore⟩ := h
        obtain ⟨behind, hfirst, hsecond⟩ := ih hmore
        exact ⟨behind, ⟨middle, hne, hsplit, hscan, hfirst⟩, hsecond⟩
  · rintro ⟨behind, hfirst, hsecond⟩
    exact hfirst.append hsecond

theorem Cuts.eq_spelled_append {lexemes : List Lexeme} (h : Cuts s lexemes rest) :
    s = spelled lexemes ++ rest := by
  induction lexemes generalizing s with
  | nil => exact h
  | cons lexeme lexemes ih =>
      obtain ⟨behind, _, hsplit, _, hmore⟩ := h
      rw [hsplit, ih hmore, spelled, spelled, List.flatMap_cons, List.append_assoc]

/-! ## Places of lexemes -/

/-- Lexemes as their lines are counted. -/
def countedAll (lexemes : List Lexeme) : List Char :=
  lexemes.flatMap fun lexeme => counted lexeme.spelling

/-- The place behind lexemes. -/
def placeBehind (place : Place) (lexemes : List Lexeme) : Place :=
  (countedAll lexemes).foldl Place.pass place

/-- The tokens of lexemes, each with the place where it starts. -/
def located (place : Place) : List Lexeme → List Located
  | [] => []
  | lexeme :: more =>
    match lexeme.token with
    | some token =>
      ⟨token, place.line, place.columnOf place.offset⟩ ::
        located ((counted lexeme.spelling).foldl Place.pass place) more
    | none => located ((counted lexeme.spelling).foldl Place.pass place) more

theorem placeBehind_cons (place : Place) (lexeme : Lexeme) (more : List Lexeme) :
    placeBehind place (lexeme :: more) =
      placeBehind ((counted lexeme.spelling).foldl Place.pass place) more := by
  rw [placeBehind, countedAll, List.flatMap_cons, List.foldl_append]
  rfl

theorem length_countedAll (lexemes : List Lexeme) :
    (countedAll lexemes).length = (spelled lexemes).length := by
  simp only [countedAll, spelled, List.length_flatMap, length_counted]

theorem countedAll_eq_spelled {lexemes : List Lexeme}
    (h : ∀ lexeme ∈ lexemes, counted lexeme.spelling = lexeme.spelling) :
    countedAll lexemes = spelled lexemes :=
  List.flatMap_congr h

/-- How a text is cut where its tokens were found or a fault was. -/
def CutsTo (place : Place) (s : List Char) : Except Fault (List Located × Place) → Prop
  | .ok (tokens, stop) =>
    ∃ taken, Cuts s taken [] ∧ tokens = located place taken ∧ stop = placeBehind place taken
  | .error fault =>
    ∃ taken c rest, Cuts s taken (c :: rest) ∧ scan (c :: rest) = none ∧
      stepAt (placeBehind place taken) c rest = .error fault

theorem CutsTo.cons {lexeme : Lexeme} {found : Except Fault (List Located × Place)}
    (hne : lexeme.spelling ≠ []) (hsplit : s = lexeme.spelling ++ behind)
    (hscan : scan s = some (lexeme.token, behind))
    (h : CutsTo ((counted lexeme.spelling).foldl Place.pass place) behind found) :
    CutsTo place s (do
      let found ← found
      return match lexeme.token with
        | some token => (⟨token, place.line, place.columnOf place.offset⟩ :: found.1, found.2)
        | none => found) := by
  rcases found with fault | ⟨tokens, stop⟩
  · obtain ⟨taken, c, rest, hcuts, hnone, hfault⟩ := h
    exact ⟨lexeme :: taken, c, rest, ⟨behind, hne, hsplit, hscan, hcuts⟩, hnone,
      by rw [placeBehind_cons, hfault]⟩
  · obtain ⟨taken, hcuts, rfl, rfl⟩ := h
    have hall : Cuts s (lexeme :: taken) [] := ⟨behind, hne, hsplit, hscan, hcuts⟩
    obtain ⟨spelling, _ | token⟩ := lexeme
    · exact ⟨_, hall, rfl, (placeBehind_cons _ _ _).symm⟩
    · exact ⟨_, hall, rfl, (placeBehind_cons _ _ _).symm⟩

/-- The induction is on the length of the text; a step takes a lexeme and goes on behind it. -/
theorem cutsTo_tokensFrom (place : Place) (s : List Char) :
    CutsTo place s (tokensFrom place s) := by
  induction hlength : s.length using Nat.strong_induction_on generalizing s place with
  | _ length ih =>
      cases s with
      | nil =>
          rw [tokensFrom]
          exact ⟨[], rfl, rfl, rfl⟩
      | cons c rest =>
          have htakes := takes_stepAt place c rest
          have hscan := scan_cons place c rest
          rw [tokensFrom_cons]
          cases hstep : stepAt place c rest with
          | error fault =>
              rw [hstep] at hscan
              exact ⟨[], c, rest, rfl, hscan, hstep⟩
          | ok next =>
              obtain ⟨token, next, behind⟩ := next
              rw [hstep] at htakes hscan
              obtain ⟨spelling, hne, hsplit, rfl⟩ := htakes
              have hshorter : behind.length < length := by
                rw [← hlength, hsplit, List.length_append]
                have := List.length_pos_iff.2 hne
                omega
              have hcuts := ih _ hshorter ((counted spelling).foldl Place.pass place) behind rfl
              exact @CutsTo.cons place (c :: rest) behind ⟨spelling, token⟩ _ hne hsplit hscan hcuts

/-- Where the located tokens are split, the lexemes are: the first token behind the split starts there,
and all lexemes stand before it if there is none. -/
theorem exists_located_split {taken : List Lexeme} {front back : List Located}
    (h : located place taken = front ++ back) :
    ∃ before after, taken = before ++ after ∧ tokensOf before = front.map Located.token ∧
      back = located (placeBehind place before) after ∧ (back = [] → after = []) ∧
      ∀ first ∈ back.head?, ∃ lexeme more, after = lexeme :: more ∧
        lexeme.token = some first.token ∧ first.line = (placeBehind place before).line ∧
        first.column = (placeBehind place before).columnOf (placeBehind place before).offset := by
  induction taken generalizing place front with
  | nil =>
      obtain ⟨rfl, rfl⟩ := List.nil_eq_append_iff.1 h
      exact ⟨[], [], rfl, rfl, rfl, fun _ => rfl, nofun⟩
  | cons lexeme taken ih =>
      obtain ⟨spelling, _ | token⟩ := lexeme
      · obtain ⟨before, after, rfl, htokens, hback, hend, hfirst⟩ := ih h
        refine ⟨⟨spelling, none⟩ :: before, after, rfl, htokens, ?_, hend, ?_⟩
        · rw [placeBehind_cons]
          exact hback
        · rw [placeBehind_cons]
          exact hfirst
      · cases front with
        | nil =>
            rw [located, List.nil_append] at h
            subst h
            refine ⟨[], ⟨spelling, some token⟩ :: taken, rfl, rfl, rfl, nofun, ?_⟩
            rintro first hfirst
            cases hfirst
            exact ⟨_, _, rfl, rfl, rfl, rfl⟩
        | cons first front =>
            obtain ⟨rfl, hmore⟩ := List.cons.inj h
            obtain ⟨before, after, rfl, htokens, hback, hend, hfirst⟩ := ih hmore
            refine ⟨⟨spelling, some token⟩ :: before, after, rfl, ?_, ?_, hend, ?_⟩
            · exact congrArg (List.cons token) htokens
            · rw [placeBehind_cons]
              exact hback
            · rw [placeBehind_cons]
              exact hfirst

/-! ## The offending lexeme -/

/-- The tokens with which a document begins. -/
def Begins (tokens : List Token) : Prop := ∃ document : Grammar.Document, tokens <+: document.tokens

/-- Where a text stops being a data file, with the lexemes before: at a lexeme that cannot be cut off; or
else at the first token with which no document goes on; or else at the end of a text that is only the
start of a document. -/
inductive Offends (text : List Char) (taken : List Lexeme) : List Char → Prop
  | lexeme {c : Char} {rest : List Char} (hcuts : Cuts text taken (c :: rest))
      (h : scan (c :: rest) = none) : Offends text taken (c :: rest)
  | token {next : Lexeme} {token : Token} {more : List Lexeme} {rest : List Char}
      (hcuts : Cuts text taken rest) (hmore : Cuts rest (next :: more) [])
      (htoken : next.token = some token) (hbegins : Begins (tokensOf taken))
      (h : ¬ Begins (tokensOf taken ++ [token])) : Offends text taken rest
  | ending (hcuts : Cuts text taken []) (hbegins : Begins (tokensOf taken))
      (h : ∀ document : Grammar.Document, document.tokens ≠ tokensOf taken) : Offends text taken []

theorem Begins.of_prefix {first second : List Token} (h : Begins second) (hfirst : first <+: second) :
    Begins first := by
  obtain ⟨document, hdocument⟩ := h
  exact ⟨document, hfirst.trans hdocument⟩

theorem not_cuts_of_scan {lexeme : Lexeme} {more : List Lexeme} (h : scan s = none) :
    ¬ Cuts s (lexeme :: more) rest := by
  rintro ⟨_, _, _, hscan, _⟩
  rw [h] at hscan
  cases hscan

theorem Cuts.eq_of_nil {lexemes : List Lexeme} (h : Cuts [] lexemes rest) :
    lexemes = [] ∧ rest = [] := by
  cases lexemes with
  | nil => exact ⟨rfl, h.symm⟩
  | cons lexeme more =>
      obtain ⟨_, hne, hsplit, _⟩ := h
      exact absurd (List.nil_eq_append_iff.1 hsplit).1 hne

/-- A text is cut in one way only: of two cuts one goes on from the other. -/
theorem Cuts.compare {first second : List Lexeme} {t : List Char} (hfirst : Cuts s first rest)
    (hsecond : Cuts s second t) :
    (∃ more, second = first ++ more ∧ Cuts rest more t) ∨
      ∃ more, first = second ++ more ∧ Cuts t more rest := by
  induction first generalizing s second with
  | nil => exact .inl ⟨second, rfl, hfirst ▸ hsecond⟩
  | cons lexeme first ih =>
      cases second with
      | nil => exact .inr ⟨lexeme :: first, rfl, hsecond ▸ hfirst⟩
      | cons other second =>
          obtain ⟨behind, _, hsplit, hscan, hmore⟩ := hfirst
          obtain ⟨behind', _, hsplit', hscan', hmore'⟩ := hsecond
          obtain ⟨htoken, rfl⟩ := Prod.mk.inj (Option.some.inj (hscan.symm.trans hscan'))
          obtain rfl : lexeme = other := by
            obtain ⟨spelling, token⟩ := lexeme
            obtain ⟨spelling', token'⟩ := other
            obtain rfl : token = token' := htoken
            obtain rfl : spelling = spelling' := List.append_cancel_right (hsplit.symm.trans hsplit')
            rfl
          rcases ih hmore hmore' with ⟨more, rfl, hcuts⟩ | ⟨more, rfl, hcuts⟩
          · exact .inl ⟨more, rfl, hcuts⟩
          · exact .inr ⟨more, rfl, hcuts⟩

namespace Offends

variable {text rest' : List Char} {taken taken' : List Lexeme}

theorem cuts (h : Offends text taken rest) : Cuts text taken rest := by
  cases h <;> assumption

/-- The lexemes before make the start of a document, unless it is a lexeme that cannot be cut off. -/
theorem begins_or_scan (h : Offends text taken rest) :
    Begins (tokensOf taken) ∨ rest ≠ [] ∧ scan rest = none := by
  cases h with
  | lexeme _ hscan => exact .inr ⟨List.cons_ne_nil _ _, hscan⟩
  | token _ _ _ hbegins => exact .inl hbegins
  | ending _ hbegins => exact .inl hbegins

/-- Nothing offends behind the offending lexeme. -/
theorem not_behind {next : Lexeme} {more : List Lexeme} (h : Offends text taken rest)
    (h' : Offends text (taken ++ next :: more) rest') : False := by
  obtain ⟨behind, hbefore, hbehind⟩ := cuts_append.1 h'.cuts
  obtain rfl : rest = behind :=
    List.append_cancel_left (h.cuts.eq_spelled_append.symm.trans hbefore.eq_spelled_append)
  cases h with
  | lexeme _ hscan => exact not_cuts_of_scan hscan hbehind
  | ending => exact List.cons_ne_nil _ _ hbehind.eq_of_nil.1
  | @token found token others _ _ hmore htoken _ hwrong =>
      rcases hbehind.compare hmore with ⟨last, hlast, hcuts⟩ | ⟨last, hlast, hcuts⟩
      · obtain ⟨rfl, rfl⟩ := List.cons.inj hlast
        rcases h'.begins_or_scan with hbegins | ⟨hne, hscan⟩
        · refine hwrong (hbegins.of_prefix ⟨tokensOf more, ?_⟩)
          simp [tokensOf, htoken]
        · cases last with
          | nil => exact hne hcuts
          | cons => exact not_cuts_of_scan hscan hcuts
      · obtain ⟨rfl, rfl⟩ := List.cons.inj hlast
        obtain ⟨rfl, rfl⟩ := hcuts.eq_of_nil
        rcases h'.begins_or_scan with hbegins | ⟨hne, _⟩
        · refine hwrong (hbegins.of_prefix ⟨tokensOf others, ?_⟩)
          simp [tokensOf, htoken]
        · exact hne rfl

/-- A text stops being a data file in one place only. -/
theorem unique (h : Offends text taken rest) (h' : Offends text taken' rest') :
    taken' = taken ∧ rest' = rest := by
  rcases h.cuts.compare h'.cuts with ⟨more, rfl, hcuts⟩ | ⟨more, rfl, hcuts⟩
  · cases more with
    | nil => exact ⟨List.append_nil _, hcuts.symm⟩
    | cons => exact (h.not_behind h').elim
  · cases more with
    | nil => exact ⟨(List.append_nil _).symm, hcuts⟩
    | cons => exact (h'.not_behind h).elim

end Offends

/-- A string that does not end reaches over the end of its line. -/
def Overruns (rest : List Char) : Prop :=
  (∃ quote body, rest = quote :: body ∧ IsQuote quote) ∧ scan rest = none ∧ '\n' ∈ counted rest

/-- The position that a fault has: the one that was counted up to the offending lexeme, but no column of a
text where a string overruns its line. -/
def PlacedBehind (taken : List Lexeme) (rest : List Char) (fault : Fault) : Prop :=
  Overruns rest ∧ fault.column ≤ 0 ∨
    ¬ Overruns rest ∧ fault.line = (placeBehind .start taken).line ∧
      fault.column = (placeBehind .start taken).columnOf (placeBehind .start taken).offset

theorem placedBehind_of_stepAt {taken : List Lexeme} {c : Char} {rest : List Char} {fault : Fault}
    (hscan : scan (c :: rest) = none)
    (h : stepAt (placeBehind .start taken) c rest = .error fault) :
    PlacedBehind taken (c :: rest) fault := by
  have htakes := takes_stepAt (placeBehind .start taken) c rest
  rw [h] at htakes
  rcases htakes with ⟨hquote, cause, rfl⟩ | ⟨hquote, rfl⟩
  · refine .inr ⟨?_, rfl, rfl⟩
    rintro ⟨⟨quote, body, hrest, hbegins⟩, _⟩
    cases hrest
    exact hquote hbegins
  · by_cases hline : '\n' ∈ counted (c :: rest)
    · refine .inl ⟨⟨⟨c, rest, rfl, hquote⟩, hscan, hline⟩, ?_⟩
      have hstart := offset_lt_lineStart_of_mem hline (placeBehind .start taken)
      simp only [Place.fault, Place.columnOf]
      omega
    · refine .inr ⟨fun hoverruns => hline hoverruns.2.2, ?_⟩
      rw [foldl_pass_of_not_mem hline]
      exact ⟨rfl, rfl⟩

/-- A fault lies where a text stops being a data file. -/
theorem exists_offends {text : List Char} {fault : Fault} (h : read text = .error fault) :
    ∃ taken rest, Offends text taken rest ∧ PlacedBehind taken rest fault := by
  have hcuts := cutsTo_tokensFrom .start text
  rw [read, tokens] at h
  cases htokens : tokensFrom .start text with
  | error found =>
      rw [htokens] at h hcuts
      cases h
      obtain ⟨taken, c, rest, htaken, hscan, hstep⟩ := hcuts
      exact ⟨taken, c :: rest, .lexeme htaken hscan, placedBehind_of_stepAt hscan hstep⟩
  | ok found =>
      obtain ⟨tokens, stop⟩ := found
      rw [htokens] at h hcuts
      obtain ⟨taken, htaken, rfl, rfl⟩ := hcuts
      obtain ⟨next, behind, cause, ⟨front, hfront, hshift⟩, hrefuses, rfl⟩ :=
        fails_of_document? (show document? _ _ = .error fault from h)
      obtain ⟨before, after, rfl, hsame, _, hend, hfirst⟩ := exists_located_split hfront
      obtain ⟨rest, hbefore, hafter⟩ := cuts_append.1 htaken
      have hbegins : Begins (tokensOf before) :=
        isSome_shiftAll_iff.1 (by rw [hsame, hshift]; rfl)
      cases behind with
      | nil =>
          obtain rfl := hend rfl
          obtain rfl : rest = [] := hafter
          refine ⟨before, [], .ending hbefore hbegins fun document hdocument => ?_, .inr ⟨?_, ?_⟩⟩
          · have hfinished := shiftAll_eq_finished_iff.2 ⟨document, hdocument⟩
            rw [hsame, hshift] at hfinished
            exact hrefuses (Option.some.inj hfinished)
          · rintro ⟨⟨quote, body, hrest, _⟩, _⟩
            cases hrest
          · rw [List.append_nil]
            exact ⟨rfl, rfl⟩
      | cons first behind =>
          obtain ⟨lexeme, more, rfl, htoken, hline, hcolumn⟩ := hfirst first rfl
          refine ⟨before, rest, .token hbefore hafter htoken hbegins fun hmore => ?_,
            .inr ⟨?_, hline, hcolumn⟩⟩
          · have hsome := isSome_shiftAll_iff.2 hmore
            rw [shiftAll_append, hsame, hshift, Option.bind_some, shiftAll_cons,
              show shift next first.token = none from hrefuses] at hsome
            cases hsome
          · rintro ⟨_, hscan, _⟩
            obtain ⟨_, _, _, hsome, _⟩ := hafter
            rw [hscan] at hsome
            cases hsome

/-! ## Positions -/

/-- Where no line is miscounted, the place behind lexemes is their position in the text. -/
theorem placeBehind_eq_positionAt {text : List Char} {taken : List Lexeme}
    (hcuts : Cuts text taken rest)
    (hcounted : ∀ lexeme ∈ taken, counted lexeme.spelling = lexeme.spelling) :
    (placeBehind .start taken).line =
        (Text.positionAt text (text.length - rest.length)).line ∧
      (placeBehind .start taken).columnOf (placeBehind .start taken).offset =
        (Text.positionAt text (text.length - rest.length)).column := by
  have hsplit := hcuts.eq_spelled_append
  have hbefore : text.take (text.length - rest.length) = spelled taken := by
    rw [hsplit, List.length_append, Nat.add_sub_cancel, List.take_left]
  obtain ⟨hline, hcolumn⟩ := foldl_pass_start (spelled taken)
  rw [Text.positionAt, hbefore, placeBehind, countedAll_eq_spelled hcounted, foldl_pass_offset,
    Place.start, Nat.zero_add]
  exact ⟨hline, hcolumn⟩

/-- What can be said of the place of a fault, of the lexemes before it and of the text where it lies.  The
position of the offending lexeme is counted with the line feeds before it and the characters behind the last
of them. -/
structure LiesAt (text : List Char) (fault : Fault) (taken : List Lexeme) (rest : List Char) :
    Prop where
  offends : Offends text taken rest
  unique : ∀ taken' rest', Offends text taken' rest' → taken' = taken ∧ rest' = rest
  /-- A string that overruns its line has no place in the text. -/
  column_of_overruns : Overruns rest → fault.column ≤ 0
  position_iff : (∀ lexeme ∈ taken, counted lexeme.spelling = lexeme.spelling) →
    (fault.line = (Text.positionAt text (text.length - rest.length)).line ∧
        fault.column = (Text.positionAt text (text.length - rest.length)).column ↔
      ¬ Overruns rest)
  line_bounds : 1 ≤ (Text.positionAt text (text.length - rest.length)).line ∧
    (Text.positionAt text (text.length - rest.length)).line ≤ 1 + text.count '\n'
  column_bounds : ∃ line,
    (Text.splitAt '\n' text)[(Text.positionAt text (text.length - rest.length)).line - 1]? =
        some line ∧
      1 ≤ (Text.positionAt text (text.length - rest.length)).column ∧
      (Text.positionAt text (text.length - rest.length)).column ≤ line.length + 1

/-- Where a text is no data file, one lexeme offends, and the fault is reported at its start, provided that
no lexeme before it is miscounted and that it is no string that overruns its line. -/
theorem fault_lies_at_offending_lexeme_iff {text : List Char} {fault : Fault}
    (h : read text = .error fault) : ∃ taken rest, LiesAt text fault taken rest := by
  obtain ⟨taken, rest, hoffends, hplaced⟩ := exists_offends h
  refine ⟨taken, rest, hoffends, fun _ _ => hoffends.unique, ?_, ?_,
    Text.positionAt_line_le _ _, Text.positionAt_column_le _ _⟩
  · rcases hplaced with ⟨_, hcolumn⟩ | ⟨hnot, _⟩
    · exact fun _ => hcolumn
    · exact fun hoverruns => absurd hoverruns hnot
  · intro hcounted
    obtain ⟨hline, hcolumn⟩ := placeBehind_eq_positionAt hoffends.cuts hcounted
    rcases hplaced with ⟨hoverruns, hleft⟩ | ⟨hnot, hfaultLine, hfaultColumn⟩
    · refine iff_of_false ?_ (not_not_intro hoverruns)
      rintro ⟨_, hright⟩
      simp only [Text.positionAt] at hright
      omega
    · rw [hfaultLine, hfaultColumn]
      exact iff_of_true ⟨hline, hcolumn⟩ hnot

/-- Comments, strings and continued lines before the fault are counted. -/
theorem fault_lies_at_unsupported_variable :
    read "@\x7b <#\n#> a = 'x\ny' \x60\r\n $b \x7d".toList =
        .error ⟨.unsupportedVariable "b", 4, 2⟩ ∧
      ∃ taken rest, LiesAt "@\x7b <#\n#> a = 'x\ny' \x60\r\n $b \x7d".toList
        ⟨.unsupportedVariable "b", 4, 2⟩ taken rest :=
  ⟨by with_unfolding_all rfl, fault_lies_at_offending_lexeme_iff (by with_unfolding_all rfl)⟩

/-- A string that does not end is reported on the last line that it reaches, and the column of its start is
counted from there: no place in the text has this column. -/
theorem open_string_lies_outside_text :
    read "'a\nb".toList = .error ⟨.unterminatedString, 2, -2⟩ ∧
      ∀ offset, ((Text.positionAt "'a\nb".toList offset).column : Int) ≠ -2 := by
  refine ⟨by with_unfolding_all rfl, fun offset hcolumn => ?_⟩
  simp only [Text.positionAt] at hcolumn
  omega

end DscAudit.DataFile

import DscAudit.Proofs.PowerShell.Blanking

/-!
# Matching brackets as nested words

The lexemes of a script leave a word of brackets.  The bracket that closes another one is the first one
behind it such that the word between the two is nested, that is, each bracket in it matches another one
in it.  The word is read from left to right with a stack of the brackets that are open.  Nothing behind
the closing bracket has a say in where it is, and nothing before the opening one.
-/

namespace DscAudit.PowerShell

/-! ## Words of brackets -/

/-- Every bracket of the word matches another one of the word, and the pairs nest. -/
inductive Nested : List Char → Prop
  | nil : Nested []
  | group {c d : Char} {word more : List Char} (hopener : closer? c = some d) (hword : Nested word)
      (hmore : Nested more) : Nested (c :: (word ++ d :: more))

/-- Every closing bracket of the word matches one of the word, but not every opening one.  The
innermost bracket that is open behind the word is closed by the last character; in front of the word
it was closed by the first one. -/
inductive Pending : Char → List Char → Char → Prop
  | nested {expected : Char} {word : List Char} (hword : Nested word) : Pending expected word expected
  | opened {expected inner innermost c : Char} {word more : List Char} (hword : Nested word)
      (hopener : closer? c = some inner) (h : Pending inner more innermost) :
      Pending expected (word ++ c :: more) innermost

/-- The word turns one stack of open brackets into another one, and never closes the lowest of them. -/
inductive Stacking : List Char → List Char → List Char → Prop
  | nil (stack : List Char) : Stacking stack [] stack
  | opener {c inner : Char} {word stack last : List Char} (hopener : closer? c = some inner)
      (h : Stacking (inner :: stack) word last) : Stacking stack (c :: word) last
  | closer {c next : Char} {word stack last : List Char} (hcloser : isCloser c = true)
      (h : Stacking (next :: stack) word last) : Stacking (c :: next :: stack) (c :: word) last

theorem Nested.append {word more : List Char} (hword : Nested word) (hmore : Nested more) :
    Nested (word ++ more) := by
  induction hword with
  | nil => exact hmore
  | group hopener hinside _ _ ih =>
    rw [List.cons_append, List.append_assoc, List.cons_append]
    exact .group hopener hinside ih

theorem Pending.append {expected innermost : Char} {word more : List Char} (hword : Nested word)
    (h : Pending expected more innermost) : Pending expected (word ++ more) innermost := by
  cases h with
  | nested hmore => exact .nested (hword.append hmore)
  | opened hmore hopener h =>
    rw [← List.append_assoc]
    exact .opened (hword.append hmore) hopener h

namespace Stacking

variable {word more stack between last : List Char}

theorem append (h : Stacking stack word between) (hmore : Stacking between more last) :
    Stacking stack (word ++ more) last := by
  induction h with
  | nil => exact hmore
  | opener hopener _ ih => exact .opener hopener (ih hmore)
  | closer hcloser _ ih => exact .closer hcloser (ih hmore)

theorem of_append (h : Stacking stack (word ++ more) last) :
    ∃ between, Stacking stack word between ∧ Stacking between more last := by
  induction word generalizing stack with
  | nil => exact ⟨stack, .nil stack, h⟩
  | cons c word ih =>
    cases h with
    | opener hopener h =>
      obtain ⟨between, hword, hmore⟩ := ih h
      exact ⟨between, .opener hopener hword, hmore⟩
    | closer hcloser h =>
      obtain ⟨between, hword, hmore⟩ := ih h
      exact ⟨between, .closer hcloser hword, hmore⟩

/-- More open brackets below change nothing. -/
theorem onTop (h : Stacking stack word last) (lower : List Char) :
    Stacking (stack ++ lower) word (last ++ lower) := by
  induction h with
  | nil => exact .nil _
  | opener hopener _ ih => exact .opener hopener ih
  | closer hcloser _ ih => exact .closer hcloser ih

theorem ne_nil (h : Stacking stack word last) (hne : stack ≠ []) : last ≠ [] := by
  induction h with
  | nil => exact hne
  | opener _ _ ih => exact ih (List.cons_ne_nil _ _)
  | closer _ _ ih => exact ih (List.cons_ne_nil _ _)

end Stacking

theorem Nested.stacking {word : List Char} (h : Nested word) (expected : Char) (stack : List Char) :
    Stacking (expected :: stack) word (expected :: stack) := by
  induction h generalizing expected stack with
  | nil => exact .nil _
  | group hopener _ _ ih ihMore =>
    refine .opener hopener ((ih _ _).append ?_)
    exact .closer (isCloser_of_closer? hopener) (ihMore _ _)

theorem Pending.stacking {expected innermost : Char} {word : List Char}
    (h : Pending expected word innermost) (stack : List Char) :
    ∃ outer, Stacking (expected :: stack) word (innermost :: outer) := by
  induction h generalizing stack with
  | nested hword => exact ⟨stack, hword.stacking _ _⟩
  | opened hword hopener _ ih =>
    obtain ⟨outer, hmore⟩ := ih (_ :: stack)
    exact ⟨outer, (hword.stacking _ _).append (.opener hopener hmore)⟩

/-- Either the uppermost bracket is closed behind a nested word, or it stays open. -/
theorem Stacking.closed_or_open {expected : Char} {word stack last : List Char}
    (h : Stacking (expected :: stack) word last) :
    (∃ inside more, word = inside ++ expected :: more ∧ Nested inside ∧ Stacking stack more last) ∨
      ∃ above, last = above ++ expected :: stack ∧ Stacking [expected] word (above ++ [expected]) := by
  induction hlength : word.length using Nat.strong_induction_on
    generalizing expected word stack last with
  | _ length ih =>
    subst hlength
    cases h with
    | nil => exact .inr ⟨[], rfl, .nil _⟩
    | closer hcloser h => exact .inl ⟨[], _, rfl, .nil, h⟩
    | @opener c inner word _ _ hopener h =>
      rcases ih _ (Nat.lt_succ_self _) h rfl with ⟨inside, more, rfl, hinside, hmore⟩ |
        ⟨above, rfl, hword⟩
      · -- the inner group ends, so the rest of the word decides
        have hshorter : more.length < (c :: (inside ++ inner :: more)).length := by
          simp only [List.length_cons, List.length_append]
          omega
        rcases ih _ hshorter hmore rfl with ⟨inside', more', rfl, hinside', hmore'⟩ |
          ⟨above, rfl, hword⟩
        · refine .inl ⟨c :: (inside ++ inner :: inside'), more', by simp, ?_, hmore'⟩
          exact .group hopener hinside hinside'
        · refine .inr ⟨above, rfl, .opener hopener ((hinside.stacking _ _).append ?_)⟩
          exact .closer (isCloser_of_closer? hopener) hword
      · refine .inr ⟨above ++ [inner], by simp, .opener hopener ?_⟩
        simpa using hword.onTop [expected]

theorem Stacking.pending {expected innermost : Char} {word outer : List Char}
    (h : Stacking [expected] word (innermost :: outer)) :
    Pending expected word innermost ∧ (outer = [] → innermost = expected ∧ Nested word) := by
  induction hlength : word.length using Nat.strong_induction_on
    generalizing expected word outer with
  | _ length ih =>
    subst hlength
    cases h with
    | nil => exact ⟨.nested .nil, fun _ => ⟨rfl, .nil⟩⟩
    | @opener c inner word _ _ hopener h =>
      rcases h.closed_or_open with ⟨inside, more, rfl, hinside, hmore⟩ | ⟨above, habove, hword⟩
      · have hshorter : more.length < (c :: (inside ++ inner :: more)).length := by
          simp only [List.length_cons, List.length_append]
          omega
        have hgroup : Nested (c :: (inside ++ [inner])) := .group hopener hinside .nil
        have hsplit : c :: (inside ++ inner :: more) = c :: (inside ++ [inner]) ++ more := by simp
        obtain ⟨hpending, hnested⟩ := ih _ hshorter hmore rfl
        rw [hsplit]
        exact ⟨.append hgroup hpending, fun houter =>
          ⟨(hnested houter).1, hgroup.append (hnested houter).2⟩⟩
      · -- the inner bracket stays open, so the stack is higher than before
        cases above with
        | nil =>
          obtain ⟨rfl, rfl⟩ := List.cons.inj habove
          exact ⟨.opened .nil hopener (ih _ (Nat.lt_succ_self _) hword rfl).1, by simp⟩
        | cons first above =>
          obtain ⟨rfl, rfl⟩ := List.cons.inj habove
          exact ⟨.opened .nil hopener (ih _ (Nat.lt_succ_self _) hword rfl).1, by simp⟩

/-! ## The brackets of a script -/

/-- The bracket that a lexeme is, if it is one. -/
def bracketsOf (kind : LexemeKind) (text : List Char) : List Char :=
  if kind = .plain then text.filter isBracket else []

/-- The lexemes of the text, which these characters follow, leave this word of brackets. -/
inductive Reading : List Char → List Char → List Char → Prop
  | nil (behind : List Char) : Reading [] [] behind
  | lexeme {kind : LexemeKind} {text inside word behind : List Char}
      (hscans : Scans kind text (inside ++ behind)) (h : Reading inside word behind) :
      Reading (text ++ inside) (bracketsOf kind text ++ word) behind

theorem Scans.bracketsOf_cases {kind : LexemeKind} {text behind : List Char}
    (h : Scans kind text behind) :
    (bracketsOf kind text = [] ∧ (kind = .plain → ∀ c ∈ text, isBracket c = false)) ∨
      ∃ c, kind = .plain ∧ text = [c] ∧ isBracket c = true ∧ bracketsOf kind text = [c] := by
  unfold bracketsOf
  by_cases hkind : kind = .plain
  · subst hkind
    obtain ⟨c, rfl⟩ := h.exists_of_plain
    cases hc : isBracket c with
    | false => exact .inl ⟨by simp [hc], by simp [hc]⟩
    | true => exact .inr ⟨c, rfl, rfl, hc, by simp [hc]⟩
  · exact .inl ⟨if_neg hkind, fun hplain => absurd hplain hkind⟩

theorem closingFrom_reading {inside word behind outer outer' : List Char} {expected expected' : Char}
    (h : Reading inside word behind)
    (hword : Stacking (expected :: outer) word (expected' :: outer')) (offset : Nat) :
    closingFrom expected outer offset (inside ++ behind) =
      closingFrom expected' outer' (offset + inside.length) behind := by
  induction h generalizing expected outer offset with
  | nil =>
    cases hword
    rfl
  | @lexeme kind text inside word behind hscans _ ih =>
    rw [List.append_assoc]
    rcases hscans.bracketsOf_cases with ⟨hnone, hbracket⟩ | ⟨c, rfl, rfl, hc, hsingle⟩
    · rw [hnone, List.nil_append] at hword
      rw [closingFrom_scans hscans hbracket, ih hword, List.length_append, Nat.add_assoc]
    · rw [hsingle, List.singleton_append] at hword
      have hscan := scan_bracket hc (inside ++ behind)
      have hlength : offset + ([c] ++ inside).length = offset + 1 + inside.length := by
        rw [List.length_append, List.length_singleton, Nat.add_assoc]
      rw [List.singleton_append, hlength]
      cases hword with
      | opener hopener hword => rw [closingFrom_opener hscan rfl hopener, ih hword]
      | closer hcloser hword =>
        rw [closingFrom_closer hscan rfl hcloser, if_pos rfl]
        exact ih hword (offset + 1)

/-- What keeps the innermost open bracket from being closed at a place, and the fault that is found:
the text ends, a lexeme does not end, or the bracket there closes others. -/
inductive Stuck (opening : Char) (start : Nat) (innermost : Char) (place : Nat) :
    List Char → Fault → Prop
  | ended : Stuck opening start innermost place [] ⟨.unbalanced opening, start⟩
  | unending {c : Char} {rest : List Char} {cause : Cause}
      (hscan : Lexeme.scan c rest = .error cause) :
      Stuck opening start innermost place (c :: rest) ⟨cause, place⟩
  | wrong {c : Char} {rest : List Char} (hcloser : isCloser c = true) (hne : c ≠ innermost) :
      Stuck opening start innermost place (c :: rest) ⟨.wrongClosing innermost c, place⟩

theorem scans_of_scan {c : Char} {rest : List Char} {lexeme : Lexeme (c :: rest)}
    (hscan : Lexeme.scan c rest = .ok lexeme) :
    Scans lexeme.kind ((c :: rest).take lexeme.length) ((c :: rest).drop lexeme.length) :=
  ⟨c, rest, lexeme, List.take_append_drop _ _, hscan, rfl,
    (List.length_take_of_le lexeme.length_le).symm⟩

theorem isCloser_of_isBracket {c : Char} (hc : isBracket c = true) (hopener : closer? c = none) :
    isCloser c = true := by
  simpa [isBracket, hopener] using hc

/-- Reading the text with a stack of open brackets comes to a place in front of which these characters
stand, and leaves the last stack. -/
structure ReadsTo (stack s inside behind last : List Char) : Prop where
  split : s = inside ++ behind
  brackets : ∃ word, Reading inside word behind ∧ Stacking stack word last

theorem ReadsTo.here (stack s : List Char) : ReadsTo stack s [] s stack := ⟨rfl, [], .nil s, .nil stack⟩

theorem ReadsTo.lexeme {kind : LexemeKind} {text s stack between inside behind last : List Char}
    (hscans : Scans kind text s) (hstack : Stacking stack (bracketsOf kind text) between)
    (h : ReadsTo between s inside behind last) :
    ReadsTo stack (text ++ s) (text ++ inside) behind last := by
  obtain ⟨rfl, word, hreading, hword⟩ := h
  exact ⟨(List.append_assoc _ _ _).symm, _, .lexeme hscans hreading, hstack.append hword⟩

/-- Every text can be read up to where no lexeme goes on, or to the bracket that closes the lowest
open one. -/
theorem exists_readsTo (expected : Char) (outer s : List Char) :
    ∃ inside behind innermost outer',
      ReadsTo (expected :: outer) s inside behind (innermost :: outer') ∧
      ((∀ opening start place, ∃ fault, Stuck opening start innermost place behind fault) ∨
        (outer' = [] ∧ isCloser innermost = true ∧ ∃ rest, behind = innermost :: rest)) := by
  induction hlength : s.length using Nat.strong_induction_on generalizing expected outer s with
  | _ length ih =>
    subst hlength
    cases s with
    | nil => exact ⟨[], [], expected, outer, .here _ _, .inl fun _ _ _ => ⟨_, .ended⟩⟩
    | cons c rest =>
      cases hscan : Lexeme.scan c rest with
      | error cause =>
        exact ⟨[], _, expected, outer, .here _ _, .inl fun _ _ _ => ⟨_, .unending hscan⟩⟩
      | ok lexeme =>
        have hscans := scans_of_scan hscan
        have hshorter := Lexeme.length_drop_lt lexeme
        have hsplit := List.take_append_drop lexeme.length (c :: rest)
        generalize (c :: rest).take lexeme.length = text at hscans hsplit
        generalize (c :: rest).drop lexeme.length = behind at hscans hshorter hsplit
        rw [← hsplit]
        rcases hscans.bracketsOf_cases with ⟨hnone, -⟩ | ⟨d, -, rfl, hd, hsingle⟩
        · obtain ⟨inside, last, innermost, outer', hreads, hend⟩ := ih _ hshorter expected outer _ rfl
          exact ⟨_, last, innermost, outer', hreads.lexeme hscans (hnone ▸ .nil _), hend⟩
        cases hopener : closer? d with
        | some inner =>
          obtain ⟨inside, last, innermost, outer', hreads, hend⟩ :=
            ih _ hshorter inner (expected :: outer) _ rfl
          have hstack : Stacking (expected :: outer) (bracketsOf lexeme.kind [d])
              (inner :: expected :: outer) := by
            rw [hsingle]
            exact .opener hopener (.nil _)
          exact ⟨_, last, innermost, outer', hreads.lexeme hscans hstack, hend⟩
        | none =>
          have hcloser := isCloser_of_isBracket hd hopener
          by_cases heq : d = expected
          · subst heq
            cases outer with
            | nil => exact ⟨[], _, d, [], .here _ _, .inr ⟨rfl, hcloser, behind, rfl⟩⟩
            | cons next outer =>
              obtain ⟨inside, last, innermost, outer', hreads, hend⟩ :=
                ih _ hshorter next outer _ rfl
              have hstack : Stacking (d :: next :: outer) (bracketsOf lexeme.kind [d])
                  (next :: outer) := by
                rw [hsingle]
                exact .closer hcloser (.nil _)
              exact ⟨_, last, innermost, outer', hreads.lexeme hscans hstack, hend⟩
          · exact ⟨[], _, expected, outer, .here _ _, .inl fun _ _ _ => ⟨_, .wrong hcloser heq⟩⟩

/-! ## The closing bracket -/

section

variable {opening expected : Char} {inside word behind : List Char} {offset : Nat}

theorem closing_of_nested (hreading : Reading inside word (expected :: behind)) (hword : Nested word)
    (hcloser : isCloser expected = true) :
    closing opening expected ⟨offset, inside ++ expected :: behind⟩ =
      .ok (offset + inside.length) := by
  have hbracket : isBracket expected = true := by rw [isBracket, hcloser, Bool.or_true]
  have hfrom := closingFrom_reading hreading (hword.stacking expected []) offset
  rw [closingFrom_closer (scan_bracket hbracket _) rfl hcloser, if_pos rfl] at hfrom
  unfold closing
  dsimp only
  rw [hfrom]
  rfl

theorem closingFrom_of_stuck {start place : Nat} {innermost : Char} {outer : List Char} {fault : Fault}
    (hstuck : Stuck opening start innermost place behind fault) :
    (do
      match ← closingFrom innermost outer place behind with
      | some offset => return offset
      | none => throw ⟨.unbalanced opening, start⟩ : Except Fault Nat) = .error fault := by
  cases hstuck with
  | ended =>
    rw [closingFrom.eq_def]
    rfl
  | unending hscan =>
    rw [closingFrom.eq_def]
    simp only [Lexeme.scanAt, hscan]
    rfl
  | @wrong c rest hcloser hne =>
    have hbracket : isBracket c = true := by rw [isBracket, hcloser, Bool.or_true]
    rw [closingFrom_closer (scan_bracket hbracket _) rfl hcloser, if_neg hne]
    rfl

theorem closing_of_stuck {innermost : Char} {fault : Fault} (hreading : Reading inside word behind)
    (hword : Pending expected word innermost)
    (hstuck : Stuck opening (offset - 1) innermost (offset + inside.length) behind fault) :
    closing opening expected ⟨offset, inside ++ behind⟩ = .error fault := by
  obtain ⟨outer, hstack⟩ := hword.stacking []
  unfold closing
  dsimp only
  rw [closingFrom_reading hreading hstack]
  exact closingFrom_of_stuck hstuck

/-- The text up to the bracket that closes, which stands behind a nested word. -/
def ClosesAt (expected : Char) (offset : Nat) (s : List Char) (stop : Nat) : Prop :=
  ∃ inside word behind, s = inside ++ expected :: behind ∧ stop = offset + inside.length ∧
    Reading inside word (expected :: behind) ∧ Nested word

/-- The text up to a place where an open bracket cannot be closed. -/
def FailsAt (opening expected : Char) (offset : Nat) (s : List Char) (fault : Fault) : Prop :=
  ∃ inside word innermost behind, s = inside ++ behind ∧ Reading inside word behind ∧
    Pending expected word innermost ∧
    Stuck opening (offset - 1) innermost (offset + inside.length) behind fault

theorem closesAt_or_failsAt (opening : Char) (hcloser : isCloser expected = true) (offset : Nat)
    (s : List Char) :
    (∃ stop, ClosesAt expected offset s stop) ∨ ∃ fault, FailsAt opening expected offset s fault := by
  obtain ⟨inside, behind, innermost, outer, ⟨rfl, word, hreading, hword⟩, hend⟩ :=
    exists_readsTo expected [] s
  obtain ⟨hpending, hnested⟩ := hword.pending
  rcases hend with hstuck | ⟨houter, -, rest, rfl⟩
  · obtain ⟨fault, hstuck⟩ := hstuck opening (offset - 1) (offset + inside.length)
    exact .inr ⟨fault, inside, word, innermost, behind, rfl, hreading, hpending, hstuck⟩
  · obtain ⟨rfl, hinside⟩ := hnested houter
    exact .inl ⟨_, inside, word, rest, rfl, rfl, hreading, hinside⟩

theorem closing_eq_ok_iff (hcloser : isCloser expected = true) {s : List Char} {stop : Nat} :
    closing opening expected ⟨offset, s⟩ = .ok stop ↔ ClosesAt expected offset s stop := by
  have hcloses : ∀ stop, ClosesAt expected offset s stop →
      closing opening expected ⟨offset, s⟩ = .ok stop := by
    rintro stop ⟨inside, word, behind, rfl, rfl, hreading, hword⟩
    exact closing_of_nested hreading hword hcloser
  refine ⟨fun hok => ?_, hcloses stop⟩
  rcases closesAt_or_failsAt opening hcloser offset s with
    ⟨stop', hstop'⟩ | ⟨fault, inside, word, innermost, behind, rfl, hreading, hword, hstuck⟩
  · cases hok.symm.trans (hcloses stop' hstop')
    exact hstop'
  · cases hok.symm.trans (closing_of_stuck hreading hword hstuck)

theorem closing_eq_error_iff (hcloser : isCloser expected = true) {s : List Char} {fault : Fault} :
    closing opening expected ⟨offset, s⟩ = .error fault ↔
      FailsAt opening expected offset s fault := by
  have hfails : ∀ fault, FailsAt opening expected offset s fault →
      closing opening expected ⟨offset, s⟩ = .error fault := by
    rintro fault ⟨inside, word, innermost, behind, rfl, hreading, hword, hstuck⟩
    exact closing_of_stuck hreading hword hstuck
  refine ⟨fun herror => ?_, hfails fault⟩
  rcases closesAt_or_failsAt opening hcloser offset s with ⟨stop, hstop⟩ | ⟨fault', hfault'⟩
  · cases herror.symm.trans ((closing_eq_ok_iff hcloser).mpr hstop)
  · cases herror.symm.trans (hfails fault' hfault')
    exact hfault'

end

/-! ## What has a say in where brackets are closed -/

/-- What stands behind a bracket has no say in how the text before it is read. -/
theorem Reading.replace_behind {inside word behind : List Char} {c : Char}
    (h : Reading inside word (c :: behind)) (hc : IsLexeme .plain [c]) (behind' : List Char) :
    Reading inside word (c :: behind') := by
  generalize hlast : c :: behind = last at h
  induction h with
  | nil => exact .nil _
  | @lexeme kind text inside word last hscans h ih =>
    subst hlast
    refine .lexeme ?_ (ih rfl)
    obtain ⟨hlexeme | ⟨-, -, hnil⟩, hends⟩ := hscans.isLexeme
    · refine hlexeme.scans ?_
      cases h with
      | nil => exact @ends_of_next kind text behind behind' ⟨.plain, [c], hc⟩ hends
      | @lexeme next nextText inside word _ hnext _ =>
        rw [List.append_assoc] at hends ⊢
        obtain ⟨hnextLexeme | ⟨-, -, hnil⟩, -⟩ := hnext.isLexeme
        · exact @ends_of_next kind text _ _ ⟨next, nextText, hnextLexeme⟩ hends
        · exact absurd hnil (by simp)
    · exact absurd hnil (by simp)

/-- Two readings of one text agree as far as the shorter one goes. -/
theorem Reading.exists_more {inside word behind front word' rest : List Char}
    (h : Reading inside word behind) (hfront : Reading front word' rest)
    (heq : inside ++ behind = front ++ rest) (hle : front.length ≤ inside.length) :
    ∃ more moreWord, inside = front ++ more ∧ word = word' ++ moreWord := by
  induction hfront generalizing inside word with
  | nil => exact ⟨inside, word, rfl, rfl⟩
  | lexeme hscans _ ih =>
    cases h with
    | nil =>
      rw [List.length_append, List.length_nil] at hle
      have hpos := List.length_pos_iff.mpr hscans.ne_nil
      omega
    | lexeme hscans' h =>
      rw [List.append_assoc, List.append_assoc] at heq
      obtain ⟨rfl, rfl, hrest⟩ := hscans'.unique hscans heq
      rw [List.length_append, List.length_append] at hle
      obtain ⟨more, moreWord, rfl, rfl⟩ := ih h hrest (by omega)
      exact ⟨more, moreWord, (List.append_assoc _ _ _).symm, (List.append_assoc _ _ _).symm⟩

/-- A bracket that is opened before another one is closed is closed before it, too. -/
theorem closing_of_inner {opening expected inner expected' : Char} {offset stop : Nat}
    {s front word rest : List Char} (hcloser : isCloser expected = true)
    (hstop : closing opening expected ⟨offset, s⟩ = .ok stop) (hsplit : s = front ++ inner :: rest)
    (hfront : Reading front word (inner :: rest)) (hlt : offset + front.length < stop)
    (hinner : closer? inner = some expected') :
    ∃ close < stop, closing inner expected' ⟨offset + front.length + 1, rest⟩ = .ok close := by
  obtain ⟨inside, whole, behind, hwhole, rfl, hreading, hnested⟩ :=
    (closing_eq_ok_iff hcloser).mp hstop
  obtain ⟨more, moreWord, rfl, rfl⟩ :=
    hreading.exists_more hfront (hwhole.symm.trans hsplit) (by omega)
  obtain ⟨stack, hword, -⟩ := (hnested.stacking expected []).of_append
  obtain ⟨top, lower, rfl⟩ := List.exists_cons_of_ne_nil (hword.ne_nil (List.cons_ne_nil _ _))
  have hfrom := (closing_eq_iff.mp hstop).closingFrom_eq
  have hbracket : isBracket inner = true := by rw [isBracket, hinner]; rfl
  dsimp only at hfrom
  rw [hsplit, closingFrom_reading hfront hword, closingFrom_opener (scan_bracket hbracket _) rfl hinner]
    at hfrom
  obtain ⟨close, hclose, houter⟩ := (closes_of_closingFrom hfrom).split []
  have hle := houter.bounds.1
  exact ⟨close, by omega, closing_eq_iff.mpr hclose⟩

theorem findClosing_eq {text rest : List Char} {offset : Nat} {opening expected : Char}
    (hdrop : text.drop offset = opening :: rest) (hopener : closer? opening = some expected) :
    findClosing text offset = (closing opening expected ⟨offset + 1, rest⟩).mapError .fault := by
  simp only [findClosing, hdrop, hopener]

theorem mapError_eq_ok_iff {ε ε' α : Type} {f : ε → ε'} {result : Except ε α} {a : α} :
    result.mapError f = .ok a ↔ result = .ok a := by
  cases result <;> simp [Except.mapError]

theorem mapError_eq_error_iff {ε ε' α : Type} {f : ε → ε'} {result : Except ε α} {error : ε'} :
    result.mapError f = .error error ↔ ∃ cause, error = f cause ∧ result = .error cause := by
  cases result <;> simp [Except.mapError, eq_comm]

/-- The bracket that closes the one at an offset is the first one behind it with a nested word between
the two; it is not found exactly if a bracket of another kind, a lexeme without an end or the end of the
text comes before it.  It depends on nothing in front of the opening bracket or behind the closing one,
and brackets opened between the two are closed between them. -/
theorem findClosing_matches {text rest : List Char} {offset : Nat} {opening expected : Char}
    (hdrop : text.drop offset = opening :: rest) (hopener : closer? opening = some expected) :
    (∀ stop, findClosing text offset = .ok stop ↔ ClosesAt expected (offset + 1) rest stop) ∧
    (∀ error, findClosing text offset = .error error ↔
      ∃ fault, error = .fault fault ∧ FailsAt opening expected (offset + 1) rest fault) ∧
    ∀ stop, findClosing text offset = .ok stop →
      (∀ before behind, findClosing (before ++ text.take (stop + 1) ++ behind)
        (before.length + offset) = .ok (before.length + stop)) ∧
      ∀ front word inner more, rest = front ++ inner :: more →
        Reading front word (inner :: more) → offset + 1 + front.length < stop →
        (closer? inner).isSome →
          ∃ close < stop, findClosing text (offset + 1 + front.length) = .ok close := by
  have hcloser := isCloser_of_closer? hopener
  have hfound : ∀ stop, findClosing text offset = .ok stop ↔
      ClosesAt expected (offset + 1) rest stop := by
    intro stop
    rw [findClosing_eq hdrop hopener, mapError_eq_ok_iff, closing_eq_ok_iff hcloser]
  refine ⟨hfound, ?_, ?_⟩
  · intro error
    rw [findClosing_eq hdrop hopener, mapError_eq_error_iff]
    simp only [closing_eq_error_iff hcloser]
  obtain ⟨start, rfl, rfl⟩ : ∃ start, text = start ++ opening :: rest ∧ offset = start.length := by
    have hlength := congrArg List.length hdrop
    rw [List.length_drop, List.length_cons] at hlength
    refine ⟨text.take offset, by rw [← hdrop, List.take_append_drop], ?_⟩
    rw [List.length_take]
    omega
  intro stop hstop
  constructor
  · intro before behind
    obtain ⟨inside, word, last, rfl, rfl, hreading, hword⟩ := (hfound stop).mp hstop
    have htake : (start ++ opening :: (inside ++ expected :: last)).take
        (start.length + 1 + inside.length + 1) = start ++ opening :: (inside ++ [expected]) := by
      have hlength : start.length + 1 + inside.length + 1 =
          (start ++ opening :: (inside ++ [expected])).length := by
        simp only [List.length_append, List.length_cons, List.length_nil]
        omega
      have hsplit : start ++ opening :: (inside ++ expected :: last) =
          start ++ opening :: (inside ++ [expected]) ++ last := by simp
      rw [hlength, hsplit, List.take_left]
    have hdrop' : (before ++ (start ++ opening :: (inside ++ [expected])) ++ behind).drop
        (before.length + start.length) = opening :: (inside ++ expected :: behind) := by
      rw [← List.length_append, ← List.append_assoc, List.append_assoc, List.drop_left]
      simp
    have hplain : IsLexeme .plain [expected] := .plain (by
      simp only [isCloser, Bool.or_eq_true, beq_iff_eq, or_assoc] at hcloser
      rcases hcloser with rfl | rfl | rfl <;> decide)
    rw [htake, findClosing_eq hdrop' hopener, mapError_eq_ok_iff, closing_eq_ok_iff hcloser]
    exact ⟨inside, word, behind, rfl, by omega, hreading.replace_behind hplain behind, hword⟩
  · intro front word inner more hsplit hfront hlt hinner
    obtain ⟨expected', hinner⟩ := Option.isSome_iff_exists.mp hinner
    rw [findClosing_eq hdrop hopener, mapError_eq_ok_iff] at hstop
    obtain ⟨close, hclose, hfound⟩ := closing_of_inner hcloser hstop hsplit hfront hlt hinner
    have hdrop' : (start ++ opening :: rest).drop (start.length + 1 + front.length) =
        inner :: more := by
      rw [hsplit, Nat.add_assoc, ← List.drop_drop, List.drop_left, Nat.add_comm, List.drop_succ_cons,
        List.drop_left]
    exact ⟨close, hclose, by rw [findClosing_eq hdrop' hinner, mapError_eq_ok_iff, hfound]⟩

/-- A curly bracket behind which a quoted one and a pair of round ones stand. -/
def quotedText : List Char := "\x7b\x27\x7d\x27(x)\x7d".toList

theorem findClosing_matches_quotedText :
    (quotedText.drop 0 = '\x7b' :: quotedText.tail ∧ closer? '\x7b' = some '\x7d') ∧
    findClosing quotedText 0 = .ok 7 ∧ findClosing ("(".toList ++ quotedText ++ "]".toList) 1 = .ok 8 := by
  have hdrop : quotedText.drop 0 = '\x7b' :: quotedText.tail := rfl
  have hopener : closer? '\x7b' = some '\x7d' := rfl
  obtain ⟨hfound, -, hlocal⟩ := findClosing_matches hdrop hopener
  have hstop : findClosing quotedText 0 = .ok 7 := by cbv
  exact ⟨⟨hdrop, hopener⟩, hstop, (hlocal 7 hstop).1 "(".toList "]".toList⟩

end DscAudit.PowerShell

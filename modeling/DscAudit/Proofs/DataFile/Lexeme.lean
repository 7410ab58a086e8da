import DscAudit.Proofs.DataFile.Spelling
import DscAudit.Text.Lines

/-!
# Lexemes and their places

A step of the lexer keeps the evidence that less text is left.  Without this evidence it obeys one
equation, which asks for one kind of lexeme after the other.  It counts lines lexeme by lexeme, and
the place behind a lexeme is the one behind its characters, except where the lexeme holds a line feed
that is not counted or ends a line without one.
-/

namespace DscAudit.DataFile

variable {place : Place} {s behind : List Char}

/-- The token of a step, none if something was skipped, the place and the text behind it. -/
abbrev Scanned : Type := Option Token × Place × List Char

def Step.scanned (next : Step s) : Scanned := (next.token, next.place, next.rest)

def stepAt (place : Place) (c : Char) (rest : List Char) : Except Fault Scanned :=
  (step place c rest).map Step.scanned

/-- A block comment after its opening mark. -/
def commentAt (place : Place) (rest : List Char) : Except Fault Scanned :=
  match blockComment? rest with
  | some (content, behind) =>
    .ok (none, (content.foldl Place.pass (place.advance 2)).advance 2, behind)
  | none => .error (place.fault .unterminatedComment place.offset)

/-- A string, which starts at an offset. -/
def stringAt (start : Nat) (quotation : Quotation) : Except Fault Scanned :=
  match quotation.rest with
  | some behind => .ok (some (.string (String.ofList quotation.content)), quotation.place, behind)
  | none => .error (quotation.place.fault .unterminatedString start)

/-- A constant after its dollar sign. -/
def constantAt (place : Place) (rest : List Char) : Except Fault Scanned :=
  let lowered := Text.lower (spanWord rest).1
  match constant? lowered with
  | some value =>
    .ok (some (.constant value), place.advance (1 + (spanWord rest).1.length), (spanWord rest).2)
  | none => .error (place.fault (.unsupportedVariable (String.ofList lowered)) place.offset)

/-- A number or a bare word. -/
def plainAt (place : Place) (c : Char) (rest : List Char) : Except Fault Scanned :=
  match number? (c :: rest) with
  | some (value, behind) =>
    .ok (some (.constant value), place.advance ((c :: rest).length - behind.length), behind)
  | none =>
    if isWordStart c then
      .ok (some (.word (String.ofList (c :: rest.takeWhile isWordPart))),
        place.advance (c :: rest.takeWhile isWordPart).length, rest.dropWhile isWordPart)
    else .error (place.fault (.unexpectedCharacter c) place.offset)

/-! ## Numbers and words -/

theorem newline_not_mem_takeWhile {p : Char → Bool} (hp : p '\n' = false) (s : List Char) :
    '\n' ∉ s.takeWhile p := by
  intro hmem
  have hnewline := List.mem_takeWhile_imp hmem
  rw [hp] at hnewline
  cases hnewline

theorem fraction?_split {fraction : List Char} (h : fraction? s = some (fraction, behind)) :
    s = '.' :: fraction ++ behind ∧ '\n' ∉ fraction := by
  unfold fraction? at h
  split at h
  · next c rest =>
    split at h
    · next hdigit =>
      cases h
      refine ⟨by simp, ?_⟩
      rw [List.mem_cons, not_or]
      refine ⟨?_, newline_not_mem_takeWhile (by decide) rest⟩
      rintro rfl
      revert hdigit
      decide
    · cases h
  · cases h

theorem unsignedNumber?_split {negative : Bool} {value : Value}
    (h : unsignedNumber? negative s = some (value, behind)) :
    ∃ spelling, s = spelling ++ behind ∧ spelling ≠ [] ∧ '\n' ∉ spelling := by
  have hwhole : s = s.takeWhile Text.isDigit ++ s.dropWhile Text.isDigit :=
    (List.takeWhile_append_dropWhile).symm
  have hline := newline_not_mem_takeWhile (p := Text.isDigit) (by decide) s
  rw [unsignedNumber?] at h
  dsimp only at h
  split at h
  · cases h
  · next hne =>
    rw [List.isEmpty_iff] at hne
    cases hfraction : fraction? (s.dropWhile Text.isDigit) with
    | none =>
        simp only [hfraction, Option.ite_none_right_eq_some] at h
        cases h.2
        exact ⟨_, hwhole, hne, hline⟩
    | some found =>
        obtain ⟨fraction, rest⟩ := found
        obtain ⟨hrest, hdigits⟩ := fraction?_split hfraction
        simp only [hfraction, Option.ite_none_right_eq_some] at h
        cases h.2
        refine ⟨s.takeWhile Text.isDigit ++ '.' :: fraction, ?_, ?_, ?_⟩
        · rw [List.append_assoc, ← hrest]
          exact hwhole
        · simp
        · simp [hline, hdigits]

theorem number?_split {value : Value} (h : number? s = some (value, behind)) :
    ∃ spelling, s = spelling ++ behind ∧ spelling ≠ [] ∧ '\n' ∉ spelling := by
  unfold number? at h
  split at h
  · next rest =>
    obtain ⟨spelling, hspelling, _, hline⟩ := unsignedNumber?_split h
    exact ⟨'-' :: spelling, by rw [hspelling]; rfl, List.cons_ne_nil _ _, by simp [hline]⟩
  · exact unsignedNumber?_split h

theorem spanWord_split (s : List Char) :
    s = (spanWord s).1 ++ (spanWord s).2 ∧ '\n' ∉ (spanWord s).1 := by
  unfold spanWord
  split
  · exact ⟨rfl, List.not_mem_nil⟩
  · next c rest =>
    split
    · next hstart =>
      refine ⟨by simp, ?_⟩
      rw [List.mem_cons, not_or]
      refine ⟨?_, newline_not_mem_takeWhile (by decide) rest⟩
      rintro rfl
      revert hstart
      decide
    · exact ⟨rfl, List.not_mem_nil⟩

/-! ## The equation -/

theorem map_ofQuotation (start : Nat) (quotation : Quotation)
    (h : ∀ rest, quotation.rest = some rest → rest.length < s.length) :
    (ofQuotation start quotation h).map Step.scanned = stringAt start quotation := by
  unfold ofQuotation stringAt
  split
  · next hrest =>
    simp only [hrest]
    rfl
  · next hrest =>
    simp only [hrest]
    rfl

theorem map_constantStep (rest : List Char) :
    (constantStep place rest).map Step.scanned = constantAt place rest := by
  have hlength : (spanWord rest).2.length < ('$' :: rest).length := by
    conv => rhs; rw [(spanWord_split rest).1]
    simp only [List.length_cons, List.length_append]
    omega
  unfold constantStep constantAt
  dsimp only
  cases constant? (Text.lower (spanWord rest).1) with
  | none => rfl
  | some value =>
      dsimp only
      rw [dif_pos hlength]
      rfl

theorem map_plainStep (c : Char) (rest : List Char) :
    (plainStep place c rest).map Step.scanned = plainAt place c rest := by
  unfold plainStep plainAt
  dsimp only
  cases hnumber : number? (c :: rest) with
  | none =>
      dsimp only
      split <;> rfl
  | some found =>
      obtain ⟨value, behind⟩ := found
      obtain ⟨spelling, hspelling, hne, _⟩ := number?_split hnumber
      have hlength : behind.length < (c :: rest).length := by
        rw [hspelling, List.length_append]
        have := List.length_pos_iff.2 hne
        omega
      dsimp only
      rw [dif_pos hlength]
      rfl

theorem not_and_head? {a b c : Char} {rest : List Char}
    (h : ∀ behind, c = a → rest = b :: behind → False) : ¬(c = a ∧ rest.head? = some b) := by
  rintro ⟨hc, hrest⟩
  obtain ⟨behind, hbehind⟩ := List.head?_eq_some_iff.1 hrest
  exact h behind hc hbehind

theorem stepAt_eq (place : Place) (c : Char) (rest : List Char) : stepAt place c rest =
    if c = '\n' then .ok (some .newLine, place.pass '\n', rest)
    else if isSkipped c then .ok (none, place.advance 1, rest)
    else if c = '<' ∧ rest.head? = some '#' then commentAt place rest.tail
    else if c = '#' then
      .ok (none, place.advance (1 + (rest.takeWhile (· != '\n')).length),
        rest.dropWhile (· != '\n'))
    else if c = '\x60' ∧ rest.head? = some '\n' then .ok (none, (place.advance 2).nextLine, rest.tail)
    else if c = '\x60' ∧ rest.head? = some '\r' then
      if rest.tail.head? = some '\n' then .ok (none, (place.advance 3).nextLine, rest.tail.tail)
      else .ok (none, (place.advance 2).nextLine, rest.tail)
    else if c = '@' ∧ rest.head? = some '\x7b' then .ok (some .openTable, place.advance 2, rest.tail)
    else if c = '@' ∧ rest.head? = some '(' then .ok (some .openArray, place.advance 2, rest.tail)
    else
      match punctuation? c with
      | some token => .ok (some token, place.advance 1, rest)
      | none =>
        if c = '\x27' then stringAt place.offset (singleQuoted (place.advance 1) rest)
        else if c = '"' then stringAt place.offset (doubleQuoted (place.advance 1) rest)
        else if c = '$' then constantAt place rest
        else plainAt place c rest := by
  rw [stepAt, step.eq_def]
  split
  · simp [Except.map, Step.scanned]
  · next rest =>
    split
    · next hcomment => simp [isSkipped, commentAt, hcomment, Except.map, Step.scanned]
    · next hcomment => simp [isSkipped, commentAt, hcomment, Except.map]
  · simp [isSkipped, Except.map, Step.scanned]
  · simp [isSkipped, Except.map, Step.scanned]
  · simp [isSkipped, Except.map, Step.scanned]
  · next rest hnext =>
    have hhead : rest.head? ≠ some '\n' := by
      intro hhead
      obtain ⟨behind, hbehind⟩ := List.head?_eq_some_iff.1 hhead
      exact hnext behind hbehind
    simp [isSkipped, Except.map, Step.scanned, hhead]
  · simp [isSkipped, Except.map, Step.scanned]
  · simp [isSkipped, Except.map, Step.scanned]
  · next rest => simpa [isSkipped, punctuation?] using map_ofQuotation _ _ _
  · next rest => simpa [isSkipped, punctuation?] using map_ofQuotation _ _ _
  · simpa [isSkipped, punctuation?] using map_constantStep _
  · next hline hhash hsingle hdouble hdollar hcomment hfeed _ hreturn htable harray =>
    rw [if_neg hline, if_neg (not_and_head? hcomment), if_neg hhash, if_neg (not_and_head? hfeed),
      if_neg (not_and_head? hreturn), if_neg (not_and_head? htable),
      if_neg (not_and_head? harray), if_neg hsingle, if_neg hdouble, if_neg hdollar]
    split
    · rfl
    · cases punctuation? c with
      | none => exact map_plainStep c rest
      | some token => rfl

theorem tokensFrom_cons (place : Place) (c : Char) (rest : List Char) :
    tokensFrom place (c :: rest) = do
      let next ← stepAt place c rest
      let found ← tokensFrom next.2.1 next.2.2
      return match next.1 with
        | some token => (⟨token, place.line, place.columnOf place.offset⟩ :: found.1, found.2)
        | none => found := by
  rw [tokensFrom, stepAt]
  cases step place c rest with
  | error fault => rfl
  | ok next => rfl

/-! ## Places behind characters -/

theorem foldl_pass_of_not_mem (h : '\n' ∉ s) (place : Place) :
    s.foldl Place.pass place = place.advance s.length := by
  induction s generalizing place with
  | nil => rfl
  | cons c s ih =>
      rw [List.mem_cons, not_or] at h
      rw [List.foldl_cons, ih h.2, Place.pass, if_neg (by simp [Ne.symm h.1])]
      simp only [Place.advance, List.length_cons, Place.mk.injEq, and_true]
      omega

theorem foldl_pass_offset (s : List Char) (place : Place) :
    (s.foldl Place.pass place).offset = place.offset + s.length := by
  induction s generalizing place with
  | nil => rfl
  | cons c s ih =>
      rw [List.foldl_cons, ih, Place.pass, List.length_cons]
      split <;> simp only [Place.advance] <;> omega

theorem pass_of_ne {c : Char} (h : c ≠ '\n') (place : Place) : place.pass c = place.advance 1 :=
  if_neg (by simpa using h)

/-- Behind a line feed the line starts after the place where the characters start. -/
theorem offset_lt_lineStart_of_mem (h : '\n' ∈ s) (place : Place) :
    place.offset < (s.foldl Place.pass place).lineStart := by
  induction s using List.reverseRecOn with
  | nil => cases h
  | append_singleton s c ih =>
      have hoffset := foldl_pass_offset s place
      rw [List.foldl_append, List.foldl_cons, List.foldl_nil]
      by_cases hc : c = '\n'
      · subst hc
        change place.offset < (s.foldl Place.pass place).offset + 1
        omega
      · rw [pass_of_ne hc]
        exact ih (by simpa [Ne.symm hc] using h)

/-- From the start of a text the place behind some characters is the position of their end. -/
theorem foldl_pass_start (s : List Char) :
    (s.foldl Place.pass .start).line = 1 + s.count '\n' ∧
      (s.foldl Place.pass .start).columnOf s.length =
        (1 + (s.reverse.takeWhile (· != '\n')).length : Nat) := by
  induction s using List.reverseRecOn with
  | nil => exact ⟨rfl, rfl⟩
  | append_singleton s c ih =>
      obtain ⟨hline, hcolumn⟩ := ih
      have hoffset : (s.foldl Place.pass .start).offset = s.length :=
        (foldl_pass_offset s .start).trans (Nat.zero_add _)
      rw [List.foldl_append, List.foldl_cons, List.foldl_nil, List.count_append,
        List.reverse_append, List.reverse_singleton, List.singleton_append]
      by_cases hc : c = '\n'
      · subst hc
        refine ⟨?_, ?_⟩
        · simp [Place.pass, hline]
          omega
        · simp [Place.pass, Place.columnOf, hoffset]
      · rw [pass_of_ne hc]
        refine ⟨?_, ?_⟩
        · simp [Place.advance, hline, hc]
        · simp only [Place.columnOf] at hcolumn
          simp [Place.advance, Place.columnOf, hc]
          omega

/-! ## Lexemes as they are counted -/

/-- A string in double quotes as its lines are counted: not the line feeds behind backticks. -/
def masked : List Char → List Char
  | [] => []
  | '\x60' :: c :: rest => '\x60' :: (if c = '\n' then ' ' else c) :: masked rest
  | c :: rest => c :: masked rest

/-- A lexeme as its lines are counted.  A carriage return behind a backtick counts as the end of a
line. -/
def counted : List Char → List Char
  | '"' :: body => '"' :: masked body
  | ['\x60', '\r'] => ['\x60', '\n']
  | spelling => spelling

theorem masked_cons {c : Char} (h : c ≠ '\x60') (rest : List Char) :
    masked (c :: rest) = c :: masked rest := by
  rw [masked]
  exact fun _ _ hc => absurd hc h

theorem length_masked (s : List Char) : (masked s).length = s.length := by
  fun_induction masked s with
  | case1 => rfl
  | case2 c s ih => simp [ih]
  | case3 c s _ ih => simp [ih]

theorem length_counted (s : List Char) : (counted s).length = s.length := by
  unfold counted
  split
  · simp [length_masked]
  · rfl
  · rfl

/-! ## Strings -/

theorem blockComment?_split {content : List Char}
    (h : blockComment? s = some (content, behind)) : s = content ++ '#' :: '>' :: behind := by
  fun_induction blockComment? s generalizing content behind with
  | case1 => cases h
  | case2 =>
      cases h
      rfl
  | case3 c s _ ih =>
      obtain ⟨⟨_, _⟩, hs, heq⟩ := Option.map_eq_some_iff.1 h
      cases heq
      rw [ih hs]
      rfl

theorem singleQuoted_closed (h : (singleQuoted place s).rest = some behind) :
    ∃ body, s = body ++ behind ∧ (singleQuoted place s).place = body.foldl Place.pass place := by
  fun_induction singleQuoted place s with
  | case1 => cases h
  | case2 place s ih =>
      obtain ⟨body, hbody, hplace⟩ := ih h
      exact ⟨'\x27' :: '\x27' :: body, by rw [hbody]; rfl, hplace⟩
  | case3 place s _ =>
      cases h
      exact ⟨['\x27'], rfl, rfl⟩
  | case4 place c s _ _ ih =>
      obtain ⟨body, hbody, hplace⟩ := ih h
      exact ⟨c :: body, by rw [hbody]; rfl, hplace⟩

theorem singleQuoted_open (h : (singleQuoted place s).rest = none) :
    (singleQuoted place s).place = s.foldl Place.pass place := by
  fun_induction singleQuoted place s with
  | case1 => rfl
  | case2 place s ih => exact ih h
  | case3 place s _ => cases h
  | case4 place c s _ _ ih => exact ih h

theorem foldl_pass_escape (c : Char) (rest : List Char) (place : Place) :
    (masked ('\x60' :: c :: rest)).foldl Place.pass place =
      (masked rest).foldl Place.pass (place.advance 2) := by
  have hc : (if c = '\n' then ' ' else c) ≠ '\n' := by
    split
    · decide
    · assumption
  rw [masked, List.foldl_cons, List.foldl_cons, pass_of_ne hc]
  rfl

theorem doubleQuoted_closed (h : (doubleQuoted place s).rest = some behind) :
    ∃ body, s = body ++ behind ∧
      (doubleQuoted place s).place = (masked body).foldl Place.pass place := by
  fun_induction doubleQuoted place s with
  | case1 => cases h
  | case2 place c s ih =>
      obtain ⟨body, hbody, hplace⟩ := ih h
      exact ⟨'\x60' :: c :: body, by rw [hbody]; rfl, hplace.trans (foldl_pass_escape ..).symm⟩
  | case3 place s ih =>
      obtain ⟨body, hbody, hplace⟩ := ih h
      exact ⟨'"' :: '"' :: body, by rw [hbody]; rfl, hplace⟩
  | case4 place s _ =>
      cases h
      exact ⟨['"'], rfl, rfl⟩
  | case5 place c s hescape _ _ ih =>
      obtain ⟨body, hbody, hplace⟩ := ih h
      have hc : c ≠ '\x60' := by
        rintro rfl
        cases s with
        | nil => cases h
        | cons c s => exact hescape c s rfl rfl
      exact ⟨c :: body, by rw [hbody]; rfl, by rw [masked_cons hc]; exact hplace⟩

theorem doubleQuoted_open (h : (doubleQuoted place s).rest = none) :
    (doubleQuoted place s).place = (masked s).foldl Place.pass place := by
  fun_induction doubleQuoted place s with
  | case1 => rfl
  | case2 place c s ih => exact (ih h).trans (foldl_pass_escape ..).symm
  | case3 place s ih => exact ih h
  | case4 place s _ => cases h
  | case5 place c s hescape _ _ ih =>
      have hmasked : masked (c :: s) = c :: masked s := by
        rw [masked]
        exact hescape
      rw [hmasked]
      exact ih h

/-! ## Steps -/

theorem counted_of_ne {c : Char} (hquote : c ≠ '"') (hescape : c ≠ '\x60') (rest : List Char) :
    counted (c :: rest) = c :: rest := by
  rw [counted.eq_def]
  split
  · next heq => exact absurd (List.cons.inj heq).1 hquote
  · next heq => exact absurd (List.cons.inj heq).1 hescape
  · rfl

/-- What a step finds: its token, none if something was skipped, and the text behind it. -/
def found? : Except Fault Scanned → Option (Option Token × List Char)
  | .ok (token, _, behind) => some (token, behind)
  | .error _ => none

/-- A quote starts a string. -/
def IsQuote (c : Char) : Prop := c = '\x27' ∨ c = '"'

instance : DecidablePred IsQuote := fun c => inferInstanceAs (Decidable (c = '\x27' ∨ c = '"'))

/-- What a step takes: characters, and the place behind them.  A fault is placed at the start of the
lexeme, but on the line that a string reaches which does not end. -/
def Takes (place : Place) (c : Char) (rest : List Char) : Except Fault Scanned → Prop
  | .ok (_, next, behind) => ∃ spelling, spelling ≠ [] ∧ c :: rest = spelling ++ behind ∧
      next = (counted spelling).foldl Place.pass place
  | .error fault =>
    ¬ IsQuote c ∧ (∃ cause, fault = place.fault cause place.offset) ∨
      IsQuote c ∧
        fault = ((counted (c :: rest)).foldl Place.pass place).fault .unterminatedString place.offset

theorem takes_line {c : Char} {spelling rest : List Char} {token : Option Token}
    (hquote : c ≠ '"') (hescape : c ≠ '\x60') (hsplit : rest = spelling ++ behind)
    (hline : '\n' ∉ c :: spelling) :
    Takes place c rest (.ok (token, place.advance (c :: spelling).length, behind)) :=
  ⟨c :: spelling, List.cons_ne_nil _ _, congrArg (List.cons c) hsplit, by
    rw [counted_of_ne hquote hescape, foldl_pass_of_not_mem hline]⟩

theorem takes_single {c : Char} (hquote : c ≠ '"') (hescape : c ≠ '\x60') (hline : c ≠ '\n')
    (rest : List Char) (token : Option Token) :
    Takes place c rest (.ok (token, place.advance 1, rest)) :=
  @takes_line place rest c [] rest token hquote hescape rfl (by simpa using Ne.symm hline)

theorem takes_commentAt (place : Place) (rest : List Char) :
    Takes place '<' ('#' :: rest) (commentAt place rest) := by
  unfold commentAt
  split
  · next content behind hcomment =>
    refine ⟨'<' :: '#' :: (content ++ ['#', '>']), nofun, ?_, ?_⟩
    · rw [blockComment?_split hcomment]
      simp
    · rw [counted_of_ne (by decide) (by decide), List.foldl_cons, List.foldl_cons,
        List.foldl_append]
      rfl
  · exact .inl ⟨by decide, .unterminatedComment, rfl⟩

theorem takes_singleQuoted (place : Place) (rest : List Char) :
    Takes place '\x27' rest (stringAt place.offset (singleQuoted (place.advance 1) rest)) := by
  unfold stringAt
  split
  · next behind hrest =>
    obtain ⟨body, hbody, hplace⟩ := singleQuoted_closed hrest
    refine ⟨'\x27' :: body, nofun, by rw [hbody]; rfl, ?_⟩
    rw [counted_of_ne (by decide) (by decide)]
    exact hplace
  · next hrest =>
    refine .inr ⟨.inl rfl, ?_⟩
    rw [singleQuoted_open hrest, counted_of_ne (by decide) (by decide)]
    rfl

theorem takes_doubleQuoted (place : Place) (rest : List Char) :
    Takes place '"' rest (stringAt place.offset (doubleQuoted (place.advance 1) rest)) := by
  unfold stringAt
  split
  · next behind hrest =>
    obtain ⟨body, hbody, hplace⟩ := doubleQuoted_closed hrest
    exact ⟨'"' :: body, nofun, by rw [hbody]; rfl, hplace⟩
  · next hrest =>
    refine .inr ⟨.inr rfl, ?_⟩
    rw [doubleQuoted_open hrest]
    rfl

theorem takes_constantAt (place : Place) (rest : List Char) :
    Takes place '$' rest (constantAt place rest) := by
  obtain ⟨hsplit, hline⟩ := spanWord_split rest
  have hplain : '\n' ∉ '$' :: (spanWord rest).1 := by
    rw [List.mem_cons, not_or]
    exact ⟨by decide, hline⟩
  unfold constantAt
  dsimp only
  split
  · next value _ =>
    have htakes := @takes_line place _ _ _ _ (some (.constant value)) (by decide) (by decide)
      hsplit hplain
    rw [List.length_cons, Nat.add_comm] at htakes
    exact htakes
  · exact .inl ⟨by decide, .unsupportedVariable _, rfl⟩

theorem takes_plainAt {c : Char} (hsingle : c ≠ '\x27') (hdouble : c ≠ '"') (hescape : c ≠ '\x60')
    (rest : List Char) :
    Takes place c rest (plainAt place c rest) := by
  unfold plainAt
  split
  · next value behind hnumber =>
    obtain ⟨spelling, hsplit, hne, hline⟩ := number?_split hnumber
    obtain ⟨d, spelling, rfl⟩ := List.exists_cons_of_ne_nil hne
    obtain ⟨rfl, hrest⟩ := List.cons.inj hsplit
    have hlength : (c :: rest).length - behind.length = (c :: spelling).length := by
      rw [hsplit, List.length_append]
      omega
    rw [hlength]
    exact takes_line hdouble hescape hrest hline
  · split
    · next hstart =>
      refine takes_line hdouble hescape List.takeWhile_append_dropWhile.symm ?_
      rw [List.mem_cons, not_or]
      refine ⟨?_, newline_not_mem_takeWhile (by decide) rest⟩
      rintro rfl
      revert hstart
      decide
    · exact .inl ⟨not_or.2 ⟨hsingle, hdouble⟩, .unexpectedCharacter c, rfl⟩

theorem plainAt_escape (place : Place) (rest : List Char) :
    plainAt place '\x60' rest =
      .error (place.fault (.unexpectedCharacter '\x60') place.offset) := by
  have hnumber : number? ('\x60' :: rest) = none := by
    rw [number?, unsignedNumber?, List.takeWhile_cons_of_neg (by decide)]
    · rfl
    · exact fun _ h => absurd (List.cons.inj h).1 (by decide)
  rw [plainAt, hnumber]
  rfl

theorem takes_stepAt (place : Place) (c : Char) (rest : List Char) :
    Takes place c rest (stepAt place c rest) := by
  rw [stepAt_eq]
  by_cases hline : c = '\n'
  · rw [if_pos hline, hline]
    exact ⟨['\n'], nofun, rfl, rfl⟩
  rw [if_neg hline]
  by_cases hskip : isSkipped c = true
  · rw [if_pos hskip]
    rcases isSkipped_cases hskip with rfl | rfl | rfl | rfl <;>
      exact takes_single (by decide) (by decide) (by decide) rest _
  rw [if_neg hskip]
  by_cases hcomment : c = '<' ∧ rest.head? = some '#'
  · rw [if_pos hcomment]
    obtain ⟨rfl, hrest⟩ := hcomment
    obtain ⟨rest, rfl⟩ := List.head?_eq_some_iff.1 hrest
    exact takes_commentAt place rest
  rw [if_neg hcomment]
  by_cases hhash : c = '#'
  · rw [if_pos hhash, hhash, Nat.add_comm]
    refine takes_line (by decide) (by decide) List.takeWhile_append_dropWhile.symm ?_
    rw [List.mem_cons, not_or]
    exact ⟨by decide, newline_not_mem_takeWhile (by decide) rest⟩
  rw [if_neg hhash]
  by_cases hfeed : c = '\x60' ∧ rest.head? = some '\n'
  · rw [if_pos hfeed]
    obtain ⟨rfl, hrest⟩ := hfeed
    obtain ⟨rest, rfl⟩ := List.head?_eq_some_iff.1 hrest
    exact ⟨['\x60', '\n'], nofun, rfl, rfl⟩
  rw [if_neg hfeed]
  by_cases hreturn : c = '\x60' ∧ rest.head? = some '\r'
  · rw [if_pos hreturn]
    obtain ⟨rfl, hrest⟩ := hreturn
    obtain ⟨rest, rfl⟩ := List.head?_eq_some_iff.1 hrest
    by_cases hpair : rest.head? = some '\n'
    · obtain ⟨rest, rfl⟩ := List.head?_eq_some_iff.1 hpair
      exact ⟨['\x60', '\r', '\n'], nofun, rfl, rfl⟩
    · rw [List.tail_cons, if_neg hpair]
      exact ⟨['\x60', '\r'], nofun, rfl, rfl⟩
  rw [if_neg hreturn]
  by_cases htable : c = '@' ∧ rest.head? = some '\x7b'
  · rw [if_pos htable]
    obtain ⟨rfl, hrest⟩ := htable
    obtain ⟨rest, rfl⟩ := List.head?_eq_some_iff.1 hrest
    exact @takes_line place rest '@' ['\x7b'] _ _ (by decide) (by decide) rfl (by decide)
  rw [if_neg htable]
  by_cases harray : c = '@' ∧ rest.head? = some '('
  · rw [if_pos harray]
    obtain ⟨rfl, hrest⟩ := harray
    obtain ⟨rest, rfl⟩ := List.head?_eq_some_iff.1 hrest
    exact @takes_line place rest '@' ['('] _ _ (by decide) (by decide) rfl (by decide)
  rw [if_neg harray]
  split
  · next token hpunctuation =>
    unfold punctuation? at hpunctuation
    split at hpunctuation <;>
      first
        | exact takes_single (by decide) (by decide) (by decide) rest _
        | cases hpunctuation
  · by_cases hsingle : c = '\x27'
    · rw [if_pos hsingle, hsingle]
      exact takes_singleQuoted place rest
    rw [if_neg hsingle]
    by_cases hdouble : c = '"'
    · rw [if_pos hdouble, hdouble]
      exact takes_doubleQuoted place rest
    rw [if_neg hdouble]
    by_cases hdollar : c = '$'
    · rw [if_pos hdollar, hdollar]
      exact takes_constantAt place rest
    rw [if_neg hdollar]
    by_cases hescape : c = '\x60'
    · rw [hescape, plainAt_escape]
      exact .inl ⟨by decide, .unexpectedCharacter _, rfl⟩
    · exact takes_plainAt hsingle hdouble hescape rest

end DscAudit.DataFile

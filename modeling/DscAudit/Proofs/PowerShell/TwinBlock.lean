import DscAudit.Proofs.PowerShell.TwinAttribute

/-!
# Blocks of two alike texts

Parameters and blocks are read alike in two texts that differ in a comment.  The name of a variable in
braces is copied up to the closing one, whatever stands there, so it must not hold a comment either.  The
keyword is looked for lexeme by lexeme, and no comment joins or parts words.
-/

namespace DscAudit.PowerShell

open List (Forall₂)

/-! ## Variables -/

/-- The name holds no mark that lexemes start with. -/
def IsClear (name : List Char) : Prop := ∀ c ∈ name, c ∉ ['#', '\x60', '\x27', '"']

/-- The span of the variable of a parameter, behind the attributes. -/
def variableAt? (text : List Char) (parameter : Parameter Span) : Except Fault Span := do
  let behind := (parameter.attributes.getLast?.map (·.location.stop)).getD parameter.location.start
  let place ← skipTrivia ⟨behind, text.drop behind⟩ text.length
  return ⟨place.offset, place.offset + ((variableName? place.rest).map (·.2)).getD 0⟩

/-- The variable of the parameter is not around the place, and its name hides no lexeme. -/
def VariableApart (text : List Char) (place : Nat) (parameter : Parameter Span) : Prop :=
  IsClear parameter.name.toList ∧ ∀ found, variableAt? text parameter = .ok found →
    place < found.start ∨ found.stop ≤ place

theorem mem_trimEndWhile {f : Char → Bool} {s : List Char} {c : Char} (h : c ∈ s) :
    f c = true ∨ c ∈ Text.trimEndWhile f s := by
  have hsplit := List.takeWhile_append_dropWhile (p := f) (l := s.reverse)
  rw [← List.mem_reverse, ← hsplit, List.mem_append] at h
  rcases h with hfront | hrest
  · exact .inl (List.mem_takeWhile_imp hfront)
  · exact .inr (List.mem_reverse.mpr hrest)

theorem mem_trimWhile {f : Char → Bool} {s : List Char} {c : Char} (h : c ∈ s) :
    f c = true ∨ c ∈ Text.trimWhile f s := by
  have hsplit := List.takeWhile_append_dropWhile (p := f) (l := s)
  rw [← hsplit, List.mem_append] at h
  rcases h with hfront | hrest
  · exact .inl (List.mem_takeWhile_imp hfront)
  · exact mem_trimEndWhile hrest

theorem IsClear.of_trimBraces {s : List Char} (h : IsClear (Text.trimBraces s)) : IsClear s := by
  intro c hc
  rcases mem_trimWhile (f := Text.isBrace) hc with hbrace | hmem
  · rw [Text.isBrace, Bool.or_eq_true, beq_iff_eq, beq_iff_eq] at hbrace
    rcases hbrace with rfl | rfl <;> decide
  · exact h c hmem

/-- The characters of a class that holds no mark and no space stand for themselves. -/
theorem ordinary_of_any {f : Char → Bool}
    (h : ['<', '#', '\x60', '@', '\x27', '"', ' '].any f = false) {c : Char} (hc : f c = true) :
    IsOrdinary c ∧ c ≠ ' ' := by
  have hmarks := Text.not_mem_of_any h hc
  simp only [IsOrdinary, List.mem_cons, List.not_mem_nil, or_false, not_or] at hmarks ⊢
  exact ⟨⟨hmarks.1, hmarks.2.1, hmarks.2.2.1, hmarks.2.2.2.1, hmarks.2.2.2.2.1,
    hmarks.2.2.2.2.2.1⟩, hmarks.2.2.2.2.2.2⟩

theorem ordinary_of_isVariablePart {c : Char} (h : isVariablePart c = true) :
    IsOrdinary c ∧ c ≠ ' ' := ordinary_of_any (by decide) h

/-- A name in braces ends at the first brace that closes. -/
theorem variableName?_opened (rest : List Char) :
    variableName? ('$' :: '\x7b' :: rest) =
      if rest.dropWhile (· != '\x7d') = [] then none
      else some (String.ofList (Text.trimBraces (rest.takeWhile (· != '\x7d'))),
        (rest.takeWhile (· != '\x7d')).length + 3) := by
  have hsplit := congrArg List.length
    (List.takeWhile_append_dropWhile (p := (· != '\x7d')) (l := rest))
  rw [List.length_append] at hsplit
  rw [variableName?]
  by_cases hnone : rest.dropWhile (· != '\x7d') = []
  · rw [if_pos hnone, if_neg (by rw [hnone, List.length_nil] at hsplit; omega)]
  · have hpos := List.length_pos_iff.2 hnone
    rw [if_neg hnone, if_pos (by omega)]

theorem variableName?_braces {inside more : List Char} (hinside : '\x7d' ∉ inside) :
    variableName? ('$' :: '\x7b' :: (inside ++ '\x7d' :: more)) =
      some (String.ofList (Text.trimBraces inside), inside.length + 3) := by
  obtain ⟨htake, hdrop⟩ := @Text.takeWhile_append_of_head? (· != '\x7d') inside ('\x7d' :: more)
    (fun c hc => by
      rw [bne_iff_ne]
      rintro rfl
      exact hinside hc) fun c hc => by
        cases hc
        decide
  rw [variableName?_opened, htake, hdrop, if_neg (List.cons_ne_nil _ _)]

/-- A name without braces ends where no character of a name follows. -/
theorem variableName?_bare {rest : List Char} (hbrace : rest.head? ≠ some '\x7b') :
    variableName? ('$' :: rest) =
      if rest.takeWhile isVariablePart = [] then none
      else some (String.ofList (rest.takeWhile isVariablePart),
        (rest.takeWhile isVariablePart).length + 1) := by
  unfold variableName?
  split
  · next heq =>
    obtain ⟨-, rfl⟩ := List.cons.inj heq
    exact absurd rfl hbrace
  · next heq =>
    obtain ⟨-, rfl⟩ := List.cons.inj heq
    simp only [List.isEmpty_iff]
  · next hother => exact absurd rfl (hother rest)

theorem variableName?_word {rest : List Char} (hne : rest.takeWhile isVariablePart ≠ []) :
    variableName? ('$' :: rest) = some (String.ofList (rest.takeWhile isVariablePart),
      (rest.takeWhile isVariablePart).length + 1) := by
  have hbrace : rest.head? ≠ some '\x7b' := by
    intro hhead
    obtain ⟨more, rfl⟩ := List.head?_eq_some_iff.1 hhead
    exact hne (List.takeWhile_cons_of_neg (by decide))
  rw [variableName?_bare hbrace, if_neg hne]

/-- The same place is found before any offset behind it. -/
theorem skipTriviaFrom_of_lt {stop stop' offset : Nat} {s : List Char} {cursor : Cursor}
    (h : skipTriviaFrom stop offset s = .ok cursor) (hlt : cursor.offset < stop)
    (hlt' : cursor.offset < stop') (hcode : continuesLine cursor.rest = false) :
    skipTriviaFrom stop' offset s = .ok cursor := by
  have hbounds := (skipTrivia_bounds h).1
  fun_induction skipTriviaFrom stop offset s with
  | case1 offset =>
    cases h
    simp only [Cursor.clip] at hlt hlt' ⊢
    have hbefore : offset < stop := by omega
    rw [Nat.min_eq_left (Nat.le_of_lt hbefore)] at hlt' ⊢
    rw [skipTriviaFrom, Cursor.clip, Nat.min_eq_left (Nat.le_of_lt hlt')]
  | case2 offset c rest _ hblank ih =>
    rw [skipTriviaFrom, if_pos (by omega), if_pos hblank]
    exact ih h (skipTrivia_bounds h).1
  | case3 offset c rest _ hblank hcomment ih =>
    obtain ⟨lexeme, hscan, hskipped⟩ := bind_eq_ok.mp h
    rw [skipTriviaFrom, if_pos (by omega), if_neg hblank, if_pos hcomment, hscan]
    exact ih lexeme hskipped (skipTrivia_bounds hskipped).1
  | case4 offset c rest _ hblank hcomment hcontinues ih =>
    have hnext := (skipTrivia_bounds h).1
    rw [Bool.and_eq_true] at hcontinues
    rw [skipTriviaFrom, if_pos (by omega), if_neg hblank, if_neg hcomment, hcontinues.1,
      Bool.true_and, if_pos (by rw [decide_eq_true_eq]; omega)]
    exact ih h hnext
  | case5 offset c rest _ hblank hcomment =>
    cases h
    rw [skipTriviaFrom, if_pos hlt', if_neg hblank, if_neg hcomment, hcode]
    rfl
  | case6 offset c rest hpast =>
    cases h
    simp only [Cursor.clip] at hlt
    omega

/-- A variable in braces is found where it is read. -/
theorem variableAt?_braces {text : List Char} {start behind : Cursor} {stop : Nat}
    {parameter : Parameter Span} (hat : Cursor.At text start)
    (hread : readAttributes stop start = .ok (parameter.attributes, behind))
    (hstart : parameter.location.start = start.offset) (hbehind : Cursor.At text behind)
    (hlt : behind.offset < stop) {inside more : List Char} (hinside : '\x7d' ∉ inside)
    (hrest : behind.rest = '$' :: '\x7b' :: (inside ++ '\x7d' :: more)) :
    variableAt? text parameter =
      .ok ⟨behind.offset, behind.offset + (inside.length + 3)⟩ := by
  have hlength : behind.offset < text.length := by
    have hdrop : text.drop behind.offset = _ := hbehind.symm.trans hrest
    by_contra hpast
    rw [List.drop_eq_nil_of_le (Nat.not_lt.mp hpast)] at hdrop
    cases hdrop
  have hname := congrArg variableName? hrest
  rw [variableName?_braces hinside] at hname
  have hdone : skipTrivia ⟨(parameter.attributes.getLast?.map (·.location.stop)).getD
        parameter.location.start, text.drop ((parameter.attributes.getLast?.map
        (·.location.stop)).getD parameter.location.start)⟩ text.length = .ok behind := by
    rcases readAttributes_last hat hread with ⟨hnone, rfl⟩ | ⟨owner, hlast, hskip⟩
    · obtain ⟨offset, s⟩ := behind
      obtain rfl : s = _ := hrest
      rw [hnone, hstart]
      simp only [List.getLast?_nil, Option.map_none, Option.getD_none]
      rw [← show _ = text.drop offset from hat]
      exact skipTriviaFrom_char (by decide) (by decide) hlength
    · rw [hlast]
      exact skipTriviaFrom_of_lt hskip hlt hlength (by rw [hrest]; rfl)
  simp only [variableAt?, hdone, bind, Except.bind, hname]
  rfl

/-- A variable is written in braces or as a word. -/
theorem variableName?_cases {s : List Char} {name : String} {length : Nat}
    (h : variableName? s = some (name, length)) :
    (∃ inside more, s = '$' :: '\x7b' :: (inside ++ '\x7d' :: more) ∧ '\x7d' ∉ inside ∧
      name.toList = Text.trimBraces inside) ∨
    ∃ rest, s = '$' :: rest ∧ rest.takeWhile isVariablePart ≠ [] := by
  unfold variableName? at h
  split at h
  · next rest =>
    dsimp only at h
    split at h
    · next hlt =>
      cases h
      have hsplit := List.takeWhile_append_dropWhile (p := (· != '\x7d')) (l := rest)
      have hmem : '\x7d' ∉ rest.takeWhile (· != '\x7d') := fun hmem => by
        simpa using List.mem_takeWhile_imp hmem
      cases hdrop : rest.dropWhile (· != '\x7d') with
      | nil =>
        rw [hdrop, List.append_nil] at hsplit
        rw [hsplit] at hlt
        exact absurd hlt (Nat.lt_irrefl _)
      | cons c more =>
        have hhead := List.head?_dropWhile_not (· != '\x7d') rest
        rw [hdrop] at hhead
        obtain rfl : c = '\x7d' := by simpa using hhead
        rw [hdrop] at hsplit
        exact .inl ⟨_, more, by rw [hsplit], hmem, String.toList_ofList⟩
    · cases h
  · next rest _ =>
    dsimp only at h
    split at h
    · cases h
    · next hne => exact .inr ⟨rest, rfl, by simpa using hne⟩
  · cases h

namespace Twin

variable {place : Nat} {p stop : Twin}

/-- A character that is a lexeme of its own stands on both sides. -/
theorem Path.plain (h : Path place p stop) {c : Char} {more : List Char}
    (hc : c ∉ ['#', '\x60', '\x27', '"']) (hspace : c ≠ ' ' ∨ p.left.offset ≠ place)
    (hmore : IsOrdinary c ∨ ∃ d rest, more = d :: rest ∧ d ∉ ['#', '\x27', '"'])
    (htext : p.left.textTo stop.left.offset = c :: more) :
    ∃ next, Step place p next ∧ Path place next stop ∧ next.left.offset = p.left.offset + 1 ∧
      next.right.offset = p.right.offset + 1 ∧ next.left.textTo stop.left.offset = more ∧
      p.right.textTo stop.right.offset = c :: next.right.textTo stop.right.offset := by
  have hrest : p.left.rest = c :: (more ++ stop.left.rest) := by
    rw [h.split_left, htext, List.cons_append]
  have hleads : Leads (Piece.char c hc) p.left
      ⟨p.left.offset + 1, more ++ stop.left.rest⟩ := by
    refine ⟨hrest, rfl, ?_⟩
    rcases hmore with hordinary | ⟨d, rest, rfl, hd⟩
    · exact ends_ordinary hordinary _
    · simp only [List.mem_cons, List.not_mem_nil, or_false, not_or] at hd
      refine ⟨fun _ hhash => hd.1 (Option.some.inj hhash), fun _ quote _ hquote hmark => ?_⟩
      obtain ⟨rfl, -⟩ := List.cons.inj hquote
      rcases hmark with hmark | hmark
      · exact absurd hmark hd.2.1
      · exact absurd hmark hd.2.2
  rcases h.head_cases with rfl | ⟨next, hstep, hnext⟩
  · rw [textTo_self] at htext
    cases htext
  · obtain ⟨piece, piece', hleft, hright, hsame⟩ := id hstep
    obtain ⟨rfl, -⟩ := hleft.unique hleads
    have hequal : Piece.char c hc = piece' := by
      rcases hsame with hequal | ⟨⟨hhere, -⟩, hspacer, -⟩
      · exact hequal
      · rcases hspace with hspace | haway
        · exact absurd hspacer (not_isSpacer_char hspace)
        · exact absurd hhere haway
    have hle := hnext.le
    have hshown := textTo_of_leads hleft hle.1
    rw [htext] at hshown
    rw [← hequal] at hright
    exact ⟨next, hstep, hnext, hleft.offset, hright.offset, (List.cons.inj hshown).2.symm,
      textTo_of_leads hright hle.2⟩

/-- Characters that are lexemes of their own stand on both sides. -/
theorem Path.word (h : Path place p stop) {word more : List Char} {c : Char} (hword : IsClear word)
    (hplace : place < p.left.offset ∨ p.left.offset + word.length ≤ place) (hc : IsOrdinary c)
    (hspace : c ≠ ' ')
    (htext : p.left.textTo stop.left.offset = word ++ c :: more) :
    ∃ q, Path place p q ∧ Path place q stop ∧ q.left.offset = p.left.offset + (word.length + 1) ∧
      q.right.offset = p.right.offset + (word.length + 1) ∧
      q.left.textTo stop.left.offset = more ∧
      p.right.textTo stop.right.offset = word ++ c :: q.right.textTo stop.right.offset := by
  induction word generalizing p with
  | nil =>
    obtain ⟨next, hstep, hnext, hoffset, hoffset', hmore, htext'⟩ :=
      h.plain hc.plain (.inl hspace) (.inl hc) htext
    exact ⟨next, hstep.path, hnext, hoffset, hoffset', hmore, htext'⟩
  | cons d word ih =>
    rw [IsClear, List.forall_mem_cons] at hword
    rw [List.length_cons] at hplace
    have hmore : ∃ e rest, word ++ c :: more = e :: rest ∧ e ∉ ['#', '\x27', '"'] := by
      have hsubset : ∀ e, e ∉ ['#', '\x60', '\x27', '"'] → e ∉ ['#', '\x27', '"'] := by
        intro e he
        simp only [List.mem_cons, List.not_mem_nil, or_false, not_or] at he ⊢
        exact ⟨he.1, he.2.2⟩
      cases word with
      | nil => exact ⟨c, more, rfl, hsubset c hc.plain⟩
      | cons e word =>
        exact ⟨e, word ++ c :: more, rfl, hsubset e (hword.2 e List.mem_cons_self)⟩
    obtain ⟨next, hstep, hnext, hoffset, hoffset', htext₁, htext'⟩ :=
      h.plain hword.1 (.inr (by omega)) (.inr hmore) htext
    obtain ⟨q, hq, hqStop, hlast, hlast', hrest, hwhole⟩ :=
      ih hnext hword.2 (by omega) htext₁
    refine ⟨q, hstep.trans hq, hqStop, ?_, ?_, hrest, ?_⟩
    · rw [hlast, hoffset, List.length_cons]
      omega
    · rw [hlast', hoffset', List.length_cons]
      omega
    · rw [htext', hwhole, List.cons_append]

theorem Path.variableName? (h : Path place p stop) {name : String} {length : Nat}
    (hname : variableName? (p.left.textTo stop.left.offset) = some (name, length))
    (hclear : IsClear name.toList)
    (hplace : ∀ {inside more : List Char}, '\x7d' ∉ inside →
      p.left.rest = '$' :: '\x7b' :: (inside ++ '\x7d' :: more) →
      place < p.left.offset ∨ p.left.offset + (inside.length + 3) ≤ place) :
    variableName? (p.right.textTo stop.right.offset) = some (name, length) ∧
      ∃ q, Path place p q ∧ Path place q stop ∧ q.left = p.left.advance length ∧
        q.right = p.right.advance length := by
  -- the twin behind the variable
  have hbehind : ∀ {q : Twin}, Path place p q → q.left.offset = p.left.offset + length →
      q.right.offset = p.right.offset + length →
      q.left = p.left.advance length ∧ q.right = p.right.advance length := by
    intro q hq hleft hright
    have hcount : q.left.offset - p.left.offset = length := by omega
    have hcount' : q.right.offset - p.right.offset = length := by omega
    exact ⟨by rw [hq.left_eq, hcount], by rw [hq.right_eq, hcount']⟩
  rcases variableName?_cases hname with ⟨inside, more, htext, hinside, htrim⟩ | ⟨rest, htext, hne⟩
  · rw [htrim] at hclear
    have hword : IsClear ('$' :: '\x7b' :: inside) := by
      rw [IsClear, List.forall_mem_cons, List.forall_mem_cons]
      exact ⟨by decide, by decide, hclear.of_trimBraces⟩
    have haway := @hplace inside (more ++ stop.left.rest) hinside
      (by rw [h.split_left, htext]; simp)
    obtain ⟨q, hq, hqStop, hleft, hright, -, htext'⟩ :=
      h.word hword (by simp only [List.length_cons]; omega) (c := '\x7d') (by decide) (by decide)
        htext
    rw [htext, variableName?_braces hinside] at hname
    rw [htext', List.cons_append, List.cons_append, variableName?_braces hinside]
    cases hname
    obtain ⟨hqLeft, hqRight⟩ := hbehind hq hleft hright
    exact ⟨rfl, q, hq, hqStop, hqLeft, hqRight⟩
  · obtain ⟨next, hstep, hnext, hleft, hright, hrest, htext'⟩ :=
      h.plain (c := '$') (by decide) (.inl (by decide)) (.inl (by decide)) htext
    obtain ⟨word, q, hword, hword', hq, hqStop, hoffset, hoffset'⟩ :=
      hnext.takeWhile fun c => ordinary_of_isVariablePart
    rw [hrest] at hword
    have hne' : (next.right.textTo stop.right.offset).takeWhile isVariablePart ≠ [] := by
      rw [hword', ← hword]
      exact hne
    rw [htext, variableName?_word hne, hword] at hname
    rw [htext', variableName?_word hne', hword']
    cases hname
    obtain ⟨hqLeft, hqRight⟩ := hbehind (hstep.trans hq) (by omega) (by omega)
    exact ⟨rfl, q, hstep.trans hq, hqStop, hqLeft, hqRight⟩

/-! ## Parameters -/

theorem Alike.readDefault (halike : Alike place p) (hstop : Path place p stop) {name : String}
    {default : Option String} {last : Nat}
    (hread : readDefault name p.left stop.left.offset = .ok (default, last)) :
    ∃ last', readDefault name p.right stop.right.offset = .ok (default, last') := by
  obtain ⟨r, hr, hrStop, hskip, hskip'⟩ := hstop.skipTrivia
  have horder := (Path.refl r).lt_iff hrStop
  unfold PowerShell.readDefault at hread ⊢
  simp only [hskip, hskip', bind, Except.bind] at hread ⊢
  by_cases hlt : r.left.offset < stop.left.offset
  · rw [if_pos hlt] at hread
    rw [if_pos (horder.mp hlt)]
    split at hread
    · next rest hrest =>
      obtain ⟨rest', hrest', hstep⟩ :=
        (halike.of_path hr).char (c := '=') (by decide) (by decide) hrest
      have hvalue : Path place (r.inside rest rest') stop :=
        hstep.path.between hrStop (Nat.succ_le_of_lt hlt)
      obtain ⟨value, -, hvalueStop, hvalueSkip, hvalueSkip'⟩ := hvalue.skipTrivia
      obtain ⟨code, hcode, -, hend, hend'⟩ := hvalueStop.codeEnd
      obtain ⟨text, htext, htext'⟩ := hcode.codeText
      have hcodeOrder := (Path.refl value).lt_iff hcode
      dsimp only [Twin.inside] at hvalueSkip hvalueSkip'
      rw [advance_one hrest] at hread
      simp only [hvalueSkip, hend, htext] at hread
      rw [hrest']
      simp only [advance_one hrest', hvalueSkip', hend', htext']
      split at hread
      · cases hread
      · next hcodeLt =>
        cases hread
        rw [if_neg (by omega)]
        exact ⟨_, rfl⟩
    · cases hread
    · next hrest =>
      rcases hrStop.head_cases with rfl | ⟨next, ⟨piece, -, hleft, -⟩, -⟩
      · exact absurd hlt (Nat.lt_irrefl _)
      · have hnil := hleft.rest
        rw [hrest] at hnil
        exact absurd (List.append_eq_nil_iff.mp hnil.symm).1 piece.text_ne_nil
  · rw [if_neg hlt] at hread
    rw [if_neg fun hlt' => hlt (horder.mpr hlt')]
    cases hread
    exact ⟨_, rfl⟩

theorem Alike.readParameter {text s : List Char} (halike : Alike place p)
    (hstop : Path place p stop)
    (hwalk : Walk anyCode p.left.offset p.left.rest stop.left.offset s)
    (hat : Cursor.At text p.left) {parameter : Parameter Span}
    (hread : readParameter p.left stop.left.offset = .ok parameter)
    (hapart : ∀ owner ∈ parameter.attributes, NameApart text place owner)
    (hvariable : VariableApart text place parameter) :
    ∃ parameter', readParameter p.right stop.right.offset = .ok parameter' ∧
      parameter.meaning = parameter'.meaning := by
  unfold PowerShell.readParameter at hread ⊢
  obtain ⟨⟨owners, behind⟩, howners, hread⟩ := bind_eq_ok.mp hread
  dsimp only at hread
  split at hread
  · cases hread
  · next name length hname =>
    obtain ⟨⟨default, last⟩, hdefault, hread⟩ := bind_eq_ok.mp hread
    cases hread
    obtain ⟨owners', q, howners', rfl, hq, hqStop, hsame⟩ :=
      halike.readAttributes hstop hwalk hat howners hapart
    obtain ⟨hclear, haway⟩ := hvariable
    have hlt : q.left.offset < stop.left.offset := by
      by_contra hpast
      rw [Cursor.textTo, Nat.sub_eq_zero_of_le (Nat.not_lt.mp hpast)] at hname
      cases hname
    obtain ⟨hname', v, hv, hvStop, hvLeft, hvRight⟩ := hqStop.variableName? hname hclear
      fun hinside hrest => haway _ (variableAt?_braces hat howners rfl (hq.at hat) hlt hinside hrest)
    rw [← hvLeft] at hdefault
    obtain ⟨last', hdefault'⟩ := (halike.of_path (hq.trans hv)).readDefault hvStop hdefault
    rw [hvRight] at hdefault'
    simp only [howners', bind, Except.bind, hname', hdefault']
    refine ⟨_, rfl, ?_⟩
    simp only [Parameter.meaning, Parameter.map]
    congr 1

theorem readParameters_alike {text : List Char} {parts parts' : List Part}
    (hparts : Forall₂ (IsPart place) parts parts')
    (hwalks : ∀ part ∈ parts, Cursor.At text part.start ∧
      ∃ s, Walk anyCode part.start.offset part.start.rest part.stop s)
    {found : Bool} {parameters : List (Parameter Span)}
    (hread : readParameters found parts = .ok parameters)
    (hapart : ∀ parameter ∈ parameters, VariableApart text place parameter ∧
      ∀ owner ∈ parameter.attributes, NameApart text place owner) :
    ∃ parameters', readParameters found parts' = .ok parameters' ∧
      parameters.map Parameter.meaning = parameters'.map Parameter.meaning := by
  induction hparts generalizing found parameters with
  | nil =>
    rw [readParameters] at hread
    cases hread
    exact ⟨[], rfl, rfl⟩
  | @cons part part' more more' hpart hmore ih =>
    rw [List.forall_mem_cons] at hwalks
    obtain ⟨⟨hat, s, hwalk⟩, hwalks⟩ := hwalks
    obtain ⟨a, b, rfl, rfl, hpath, halike⟩ := hpart
    obtain ⟨r, hr, hrStop, hskip, hskip'⟩ := hpath.skipTrivia
    have horder := (Path.refl r).lt_iff hrStop
    rw [readParameters] at hread ⊢
    simp only [hskip, hskip', bind, Except.bind] at hread ⊢
    by_cases hlt : r.left.offset < b.left.offset
    · rw [if_pos hlt] at hread
      rw [if_pos (horder.mp hlt)]
      obtain ⟨first, hfirst, hread⟩ := bind_eq_ok.mp hread
      obtain ⟨others, hothers, hread⟩ := bind_eq_ok.mp hread
      cases hread
      rw [List.forall_mem_cons] at hapart
      obtain ⟨⟨hvariable, howners⟩, hapart⟩ := hapart
      obtain ⟨first', hfirst', hsame⟩ := (halike.of_path hr).readParameter hrStop
        (hwalk.skipTrivia hskip).2 (hr.at hat) hfirst howners hvariable
      obtain ⟨others', hothers', hall⟩ := ih hwalks hothers hapart
      simp only [hfirst', hothers']
      refine ⟨_, rfl, ?_⟩
      rw [List.map_cons, List.map_cons, hsame, hall]
    · rw [if_neg hlt] at hread
      rw [if_neg fun hlt' => hlt (horder.mpr hlt')]
      have hempty : more'.isEmpty = more.isEmpty := by
        cases hmore <;> rfl
      rw [hempty]
      split at hread
      · cases hread
      · next hlast =>
        rw [if_neg hlast]
        exact ih hwalks hread hapart

end Twin

/-- Each part lies between commas of the code that is split. -/
theorem Parts.walks {text : List Char} {stop : Nat} {start : Cursor} {parts : List Part}
    (h : Parts stop start parts) (hat : Cursor.At text start) :
    ∀ part ∈ parts, Cursor.At text part.start ∧
      ∃ s, Walk anyCode part.start.offset part.start.rest part.stop s := by
  induction h with
  | last hwalk =>
    intro part hpart
    cases List.mem_singleton.mp hpart
    exact ⟨hat, _, hwalk⟩
  | more hwalk _ _ ih =>
    rw [List.forall_mem_cons]
    exact ⟨⟨hat, _, hwalk⟩, ih (hat.walk hwalk).cons.2.2⟩

/-- The names in a block are not around the place, and hide no lexemes. -/
def NamesApart (text : List Char) (place : Nat) (block : ParameterBlock Span) : Prop :=
  ∀ parameter ∈ block.parameters, VariableApart text place parameter ∧
    ∀ owner ∈ parameter.attributes, NameApart text place owner

theorem Twin.Alike.readBlock {place : Nat} {p close : Twin} {text : List Char}
    (halike : Twin.Alike place p) (hclose : Twin.Path place p close)
    (hgroup : Closes ')' [] p.left.offset p.left.rest close.left.offset)
    (hat : Cursor.At text p.left) {keyword : Nat} {block : ParameterBlock Span}
    (hread : readBlock keyword p.left close.left.offset = .ok block)
    (hapart : NamesApart text place block) (keyword' : Nat) :
    ∃ block', readBlock keyword' p.right close.right.offset = .ok block' ∧
      block.meaning = block'.meaning := by
  unfold PowerShell.readBlock at hread ⊢
  obtain ⟨parts, hparts, hread⟩ := bind_eq_ok.mp hread
  obtain ⟨parameters, hparameters, hread⟩ := bind_eq_ok.mp hread
  cases hread
  obtain ⟨parts', hparts', hsame⟩ := halike.splitTopLevel hclose hparts
  obtain ⟨parameters', hparameters', hall⟩ := Twin.readParameters_alike hsame
    ((parts_of_splitTopLevel hgroup.walk hparts).walks hat) hparameters hapart
  simp only [hparts', hparameters', bind, Except.bind]
  refine ⟨_, rfl, ?_⟩
  simp only [ParameterBlock.meaning, ParameterBlock.map]
  congr 1

/-! ## Blocks -/

/-- Where no lexeme starts there is a comment without an end, or there are no trivia. -/
theorem skipTriviaFrom_of_not_leads {here : Cursor} (h : ∀ piece next, ¬ Leads piece here next)
    {stop : Nat} (hstop : here.offset + here.rest.length ≤ stop) :
    if startsComment here.rest then ∃ fault, skipTriviaFrom stop here.offset here.rest = .error fault
    else skipTriviaFrom stop here.offset here.rest = .ok here := by
  have hmark := mark_of_not_leads h
  obtain ⟨offset, s⟩ := here
  cases s with
  | nil =>
    have hle : offset ≤ stop := hstop
    have hcomment : ¬ startsComment [] = true := by decide
    rw [if_neg hcomment, skipTriviaFrom, Cursor.clip, Nat.min_eq_left hle]
  | cons c rest =>
    have hlt : offset < stop := by
      simp only [List.length_cons] at hstop
      omega
    have hblank : Text.isBlank c = false := by
      by_contra hcontra
      exact hmark c rfl (plain_of_isBlank (Bool.of_not_eq_false hcontra)).1
    rcases scan_of_not_leads h with hrest | hrest | ⟨d, more, cause, hrest, hscan⟩
    · cases hrest
    · cases hrest
      have hcomment : ¬ startsComment ['\x60'] = true := by decide
      rw [if_neg hcomment, skipTriviaFrom, if_pos hlt, hblank]
      rfl
    · cases hrest
      simp only
      split
      · next hcomment =>
        refine ⟨⟨cause, offset⟩, ?_⟩
        rw [skipTriviaFrom, if_pos hlt, hblank, if_pos hcomment]
        simp only [Lexeme.scanAt, hscan]
        rfl
      · next hcomment =>
        have hcontinues : continuesLine (c :: rest) = false := by
          by_contra hcontra
          obtain ⟨lexeme, hlexeme, -⟩ :=
            exists_scan_of_continuesLine (Bool.of_not_eq_false hcontra)
          cases hscan.symm.trans hlexeme
        rw [skipTriviaFrom, if_pos hlt, hblank, if_neg hcomment, hcontinues]
        rfl

/-- Where no lexeme starts no block is read. -/
theorem blocksFrom_of_not_leads {here : Cursor} (h : ∀ piece next, ¬ Leads piece here next)
    {previous : Option Char} {blocks : List (ParameterBlock Span)}
    (hread : blocksFrom previous here.offset here.rest = .ok blocks) :
    blocks = [] ∧ ∀ previous' offset', blocksFrom previous' offset' here.rest = .ok [] := by
  rcases scan_of_not_leads h with hrest | hrest | ⟨c, rest, cause, hrest, hscan⟩
  · rw [hrest] at hread ⊢
    rw [blocksFrom] at hread
    cases hread
    refine ⟨rfl, fun previous' offset' => ?_⟩
    rw [blocksFrom]
  · have hscans : Scans .escape ['\x60'] [] := ⟨'\x60', [], _, rfl, rfl, rfl, rfl⟩
    have hnone : ∀ previous' offset', blocksFrom previous' offset' ['\x60'] = .ok [] := by
      intro previous' offset'
      have hstep : blocksFrom previous' offset' ['\x60'] = blocksFrom _ _ [] :=
        blocksFrom_scans hscans (fun hplain => by cases hplain) offset'
      rw [hstep, blocksFrom]
    rw [hrest] at hread ⊢
    cases (hnone _ _).symm.trans hread
    exact ⟨rfl, hnone⟩
  · rw [hrest, blocksFrom] at hread
    simp only [Lexeme.scanAt, hscan] at hread
    cases hread

/-- The last character of a comment, or of the space in its place, is part of no word, or no word
follows. -/
theorem IsSpacer.last {piece : Piece} {here next : Cursor} (h : IsSpacer piece)
    (hleads : Leads piece here next) :
    keywordMayFollow piece.text.getLast? = true ∨
      ∀ c ∈ next.rest.head?, Text.isLetter c = false := by
  have hends := hleads.ends
  obtain ⟨kind, text, hlexeme⟩ := piece
  rcases h with hcomment | hspace
  · cases hlexeme with
    | lineComment =>
      refine .inr fun c hc => ?_
      rw [hends c hc]
      decide
    | @blockComment content =>
      refine .inl ?_
      simp only [getLast?_blockComment content]
      decide
    | _ => cases hcomment
  · refine .inl ?_
    rw [hspace]
    decide

/-- A plain lexeme of two texts is the character that both start with. -/
theorem Leads.exists_rests {piece : Piece} {here here' next next' : Cursor}
    (h : Leads piece here next) (h' : Leads piece here' next') (hplain : piece.kind = .plain) {c : Char}
    (hc : c ∈ piece.text) : ∃ rest rest', here.rest = c :: rest ∧ here'.rest = c :: rest' := by
  have hscans := h.scans
  rw [hplain] at hscans
  obtain ⟨d, hd⟩ := hscans.exists_of_plain
  rw [hd, List.mem_singleton] at hc
  refine ⟨next.rest, next'.rest, ?_, ?_⟩
  · rw [h.rest, hd, hc, List.singleton_append]
  · rw [h'.rest, hd, hc, List.singleton_append]

namespace Twin

variable {place : Nat} {p : Twin}

/-- A keyword may follow the characters before the twin in both texts or in none, or there is no
word. -/
def SamePrevious (p : Twin) (previous previous' : Option Char) : Prop :=
  keywordMayFollow previous = keywordMayFollow previous' ∨
    (∀ c ∈ p.left.rest.head?, Text.isLetter c = false) ∨
    ∀ c ∈ p.right.rest.head?, Text.isLetter c = false

theorem SamePrevious.follow {previous previous' : Option Char} {c : Char}
    {rest rest' : List Char} (h : SamePrevious p previous previous')
    (hleft : p.left.rest = c :: rest) (hright : p.right.rest = c :: rest') :
    (Text.isLetter c && keywordMayFollow previous) =
      (Text.isLetter c && keywordMayFollow previous') := by
  rw [SamePrevious, hleft, hright] at h
  rcases h with hsame | hnone | hnone
  · rw [hsame]
  · rw [hnone c rfl, Bool.false_and, Bool.false_and]
  · rw [hnone c rfl, Bool.false_and, Bool.false_and]

theorem Alike.skipTrivia_end (halike : Alike place p) {stop stop' : Nat}
    (hstop : p.left.offset + p.left.rest.length ≤ stop)
    (hstop' : p.right.offset + p.right.rest.length ≤ stop') {next : Cursor}
    (hskip : skipTrivia p.left stop = .ok next) :
    ∃ q, Path place p q ∧ next = q.left ∧ skipTrivia p.right stop' = .ok q.right := by
  obtain ⟨last, hpath, hended⟩ := halike
  obtain ⟨front, front', hfront, hoffset, hfront', hoffset', -⟩ := hpath.fronts
  rw [hfront, List.length_append] at hstop
  rw [hfront', List.length_append] at hstop'
  have hlast : last.left.offset + last.left.rest.length ≤ stop := by omega
  have hlast' : last.right.offset + last.right.rest.length ≤ stop' := by omega
  rcases hpath.skipTriviaFrom (Nat.le_of_add_right_le hlast) (Nat.le_of_add_right_le hlast')
    with ⟨q, hq, -, hleft, hright⟩ | ⟨hleft, hright⟩
  · cases hleft.symm.trans hskip
    exact ⟨q, hq, rfl, hright⟩
  · have hends := skipTriviaFrom_of_not_leads hended.2 hlast
    have hends' := skipTriviaFrom_of_not_leads hended.swap.2 hlast'
    rw [← hleft] at hends
    simp only [Twin.swap, ← hended.1] at hends'
    rw [← hended.1] at hright
    split at hends
    · obtain ⟨fault, hfault⟩ := hends
      cases hfault.symm.trans hskip
    · next hcomment =>
      rw [if_neg hcomment] at hends'
      cases hends.symm.trans hskip
      exact ⟨last, hpath, rfl, hright.trans hends'⟩

theorem ordinary_of_isNamePart {c : Char} (h : isNamePart c = true) : IsOrdinary c ∧ c ≠ ' ' :=
  ordinary_of_any (by decide) h

theorem takeWhile_of_mark {f : Char → Bool} {s more : List Char}
    (h : ∀ c ∈ more.head?, f c = false) : (s ++ more).takeWhile f = s.takeWhile f := by
  have hnone : more.takeWhile f = [] := by
    cases more with
    | nil => rfl
    | cons c more => exact List.takeWhile_cons_of_neg (by rw [h c rfl]; exact Bool.false_ne_true)
  rw [List.takeWhile_append, hnone, List.append_nil]
  split
  · next hall => exact ((List.takeWhile_prefix f).eq_of_length hall).symm
  · rfl

/-- The same word stands on both sides, up to a twin. -/
theorem Alike.name (halike : Alike place p) :
    ∃ word r, p.left.rest.takeWhile isNamePart = word ∧ p.right.rest.takeWhile isNamePart = word ∧
      Path place p r ∧ r.left = p.left.advance word.length ∧
      r.right = p.right.advance word.length := by
  obtain ⟨last, hpath, hended⟩ := halike
  obtain ⟨word, r, hword, hword', hr, -, hleft, hright⟩ :=
    hpath.takeWhile fun c => ordinary_of_isNamePart
  have hmark : ∀ {here : Cursor}, (∀ piece next, ¬ Leads piece here next) →
      ∀ c ∈ here.rest.head?, isNamePart c = false := by
    intro here hnone c hc
    by_contra hcontra
    exact mark_of_not_leads hnone c hc (ordinary_of_isNamePart (Bool.of_not_eq_false hcontra)).1
  rw [← takeWhile_of_mark (hmark hended.2), ← hpath.split_left] at hword
  rw [← takeWhile_of_mark (hmark hended.swap.2)] at hword'
  have hsplit : p.right.textTo last.right.offset ++ last.swap.left.rest = p.right.rest :=
    hpath.split_right.symm
  rw [hsplit] at hword'
  have hcount : r.left.offset - p.left.offset = word.length := by omega
  have hcount' : r.right.offset - p.right.offset = word.length := by omega
  exact ⟨word, r, hword, hword', hr, by rw [hr.left_eq, hcount], by rw [hr.right_eq, hcount']⟩

/-- Blocks that are read on the left from here on are read on the right. -/
def BlocksFollow (text : List Char) (place : Nat) (p : Twin) : Prop :=
  ∀ (previous previous' : Option Char) (blocks : List (ParameterBlock Span)),
    SamePrevious p previous previous' →
    PowerShell.blocksFrom previous p.left.offset p.left.rest = .ok blocks →
    (∀ block ∈ blocks, NamesApart text place block) →
    ∃ blocks', PowerShell.blocksFrom previous' p.right.offset p.right.rest = .ok blocks' ∧
      blocks.map ParameterBlock.meaning = blocks'.map ParameterBlock.meaning

theorem behind_word {here behind : Cursor} {c : Char} {rest word : List Char}
    (hrest : here.rest = c :: rest) (hword : here.rest.takeWhile isNamePart = word)
    (hletter : Text.isLetter c = true) (hbehind : behind = here.advance word.length) :
    c :: rest.takeWhile isNamePart = word ∧
      ⟨here.offset + word.length, rest.drop (word.length - 1)⟩ = behind ∧
      behind.rest.length < here.rest.length := by
  rw [hrest, List.takeWhile_cons_of_pos (isNamePart_of_isLetter hletter)] at hword
  subst hword hbehind
  rw [Cursor.advance, hrest, List.length_cons, List.drop_succ_cons, List.length_drop,
    List.length_cons, Nat.add_sub_cancel]
  exact ⟨rfl, rfl, by omega⟩

/-- A word is the keyword of a block in both texts or in none. -/
theorem Alike.blocksFrom_letter {text : List Char} (halike : Alike place p)
    (hat : Cursor.At text p.left) {c : Char} {rest rest' : List Char}
    (hrest : p.left.rest = c :: rest) (hrest' : p.right.rest = c :: rest')
    (hletter : Text.isLetter c = true) {previous previous' : Option Char}
    (hfollow : keywordMayFollow previous = true) (hfollow' : keywordMayFollow previous' = true)
    (hbehind : ∀ r, Path place p r → r.left.rest.length < p.left.rest.length →
      BlocksFollow text place r) {blocks : List (ParameterBlock Span)}
    (hread : blocksFrom previous p.left.offset p.left.rest = .ok blocks)
    (hapart : ∀ block ∈ blocks, NamesApart text place block) :
    ∃ blocks', blocksFrom previous' p.right.offset p.right.rest = .ok blocks' ∧
      blocks.map ParameterBlock.meaning = blocks'.map ParameterBlock.meaning := by
  obtain ⟨word, r, hword, hword', hr, hrLeft, hrRight⟩ := halike.name
  obtain ⟨hleftWord, hleftBehind, hshorter⟩ := behind_word hrest hword hletter hrLeft
  obtain ⟨hrightWord, hrightBehind, hshorter'⟩ := behind_word hrest' hword' hletter hrRight
  have hwordBlocks := hbehind r hr hshorter word.getLast? word.getLast? blocks (.inl rfl)
  rw [hrest] at hread
  rw [hrest']
  by_cases hkeyword : Text.lower word = "param".toList
  · rw [blocksFrom_keyword hletter hfollow hleftWord hleftBehind hkeyword] at hread
    rw [blocksFrom_keyword hletter hfollow' hrightWord hrightBehind hkeyword]
    obtain ⟨next, hnext, hread⟩ := bind_eq_ok.mp hread
    have hend : r.left.offset + r.left.rest.length ≤ p.left.offset + rest.length + 1 := by
      rw [← hleftBehind, List.length_drop]
      rw [← hleftWord, List.length_cons]
      have hle := (List.takeWhile_sublist isNamePart (l := rest)).length_le
      simp only
      omega
    have hend' : r.right.offset + r.right.rest.length ≤ p.right.offset + rest'.length + 1 := by
      rw [← hrightBehind, List.length_drop]
      rw [← hrightWord, List.length_cons]
      have hle := (List.takeWhile_sublist isNamePart (l := rest')).length_le
      simp only
      omega
    have hrAlike := halike.of_path hr
    obtain ⟨q, hq, rfl, hskip'⟩ := hrAlike.skipTrivia_end hend hend' hnext
    have hqAlike := hrAlike.of_path hq
    simp only [hskip', bind, Except.bind]
    split at hread
    · next inside hopens =>
      simp only [bind_eq_ok] at hread
      obtain ⟨close, hclose, block, hblock, more, hmore, hread⟩ := hread
      cases hread
      rw [List.forall_mem_cons] at hapart
      obtain ⟨inside', stop, behind, hgroup, rfl⟩ := hqAlike.group rfl hopens hclose
      have hpath := hr.trans (hq.trans hgroup.path)
      have hinside := (hr.trans (hq.trans hgroup.opens.path)).at hat
      obtain ⟨block', hblock', hsame⟩ := (hqAlike.of_path hgroup.opens.path).readBlock
        hgroup.closes (closing_eq_iff.mp hclose) hinside hblock hapart.1 p.right.offset
      have hshorter := hgroup.shorter.trans_le (hr.trans hq).length_le
      have hmoreBlocks := hbehind behind hpath hshorter (some ')') (some ')') more (.inl rfl)
      rw [hgroup.behindLeft, hgroup.behindRight] at hmoreBlocks
      obtain ⟨more', hmore', hall⟩ := hmoreBlocks hmore hapart.2
      dsimp only [Twin.inside] at hblock'
      rw [hgroup.right]
      simp only [hgroup.closing, hblock', hmore']
      refine ⟨_, rfl, ?_⟩
      rw [List.map_cons, List.map_cons, hsame, hall]
    · next hother =>
      split
      · next inside' hopens' =>
        obtain ⟨inside, hopens, -⟩ := hqAlike.swap.char (by decide) (by decide) hopens'
        exact absurd hopens (hother inside)
      · exact hwordBlocks hread hapart
  · rw [blocksFrom_word hletter hfollow hleftWord hleftBehind hkeyword] at hread
    rw [blocksFrom_word hletter hfollow' hrightWord hrightBehind hkeyword]
    exact hwordBlocks hread hapart

/-- The same blocks are read from here on. -/
theorem Alike.blocksFollow {text : List Char} (halike : Alike place p)
    (hat : Cursor.At text p.left) : BlocksFollow text place p := by
  induction hlength : p.left.rest.length using Nat.strong_induction_on generalizing p with
  | _ length ih =>
    subst hlength
    intro previous previous' blocks hprevious hread hapart
    have hbehind : ∀ r, Path place p r → r.left.rest.length < p.left.rest.length →
        BlocksFollow text place r :=
      fun r hr hshorter => ih _ hshorter (halike.of_path hr) (hr.at hat) rfl
    obtain ⟨last, hpath, hended⟩ := id halike
    rcases hpath.head_cases with rfl | ⟨next, hstep, -⟩
    · obtain ⟨rfl, hnone⟩ := blocksFrom_of_not_leads hended.2 hread
      rw [← hended.1]
      exact ⟨[], hnone _ _, rfl⟩
    · obtain ⟨piece, piece', hleft, hright, hsame⟩ := hstep
      have hstep : Step place p next := ⟨piece, piece', hleft, hright, hsame⟩
      have hnext := hbehind next hstep.path hstep.shorter piece.text.getLast? piece'.text.getLast? blocks
      rw [hleft.offset, hright.offset] at hnext
      rcases hsame with rfl | ⟨-, hspacer, hspacer'⟩
      · by_cases hnone : piece.kind = .plain → ∀ c ∈ piece.text,
            (Text.isLetter c && keywordMayFollow previous) = false
        · have hnone' : piece.kind = .plain → ∀ c ∈ piece.text,
              (Text.isLetter c && keywordMayFollow previous') = false := by
            intro hplain c hc
            obtain ⟨rest, rest', hrest, hrest'⟩ := hleft.exists_rests hright hplain hc
            rw [← hprevious.follow hrest hrest']
            exact hnone hplain c hc
          rw [hleft.rest, blocksFrom_scans hleft.scans hnone] at hread
          rw [hright.rest, blocksFrom_scans hright.scans hnone']
          exact hnext (.inl rfl) hread hapart
        · push Not at hnone
          obtain ⟨hplain, c, hc, hletter⟩ := hnone
          obtain ⟨rest, rest', hrest, hrest'⟩ := hleft.exists_rests hright hplain hc
          have hletter' := hletter
          rw [hprevious.follow hrest hrest'] at hletter'
          rw [Bool.ne_false_iff, Bool.and_eq_true] at hletter hletter'
          exact halike.blocksFrom_letter hat hrest hrest' hletter.1 hletter.2 hletter'.2 hbehind
            hread hapart
      · have hnone : ∀ {piece : Piece} {previous : Option Char}, IsSpacer piece →
            piece.kind = .plain → ∀ c ∈ piece.text,
              (Text.isLetter c && keywordMayFollow previous) = false := by
          intro piece previous hspacer hplain c hc
          rw [hspacer.isFiller.not_letter hplain c hc, Bool.false_and]
        rw [hleft.rest, blocksFrom_scans hleft.scans (hnone hspacer)] at hread
        rw [hright.rest, blocksFrom_scans hright.scans (hnone hspacer')]
        refine hnext ?_ hread hapart
        rcases hspacer.last hleft with hfollow | hnone
        · rcases hspacer'.last hright with hfollow' | hnone'
          · exact .inl (hfollow.trans hfollow'.symm)
          · exact .inr (.inr hnone')
        · exact .inr (.inl hnone)

end Twin

end DscAudit.PowerShell

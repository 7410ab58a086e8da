import DscAudit.Proofs.DataFile.Lexeme
import DscAudit.Proofs.Text.Scan

/-!
# The lexer by offsets

The lexer as a loop over an offset, which reads single characters, looks for the ends of comments and
strings and could read behind the end of the text.  It does not: from every offset within the text a turn
moves on and does what a step of the lexer of lists does, so the loop ends with the same tokens or with the
same fault.
-/

namespace DscAudit.DataFile.ByOffset

open Text (Halt charAt startsAt find? loop)

/-! ## The loop -/

/-- The tokens so far and the place where the loop stands. -/
abbrev Course : Type := List Located × Place

/-- The characters from an offset on, up to another one, are looked at for line feeds. -/
def countLines (text : List Char) (place : Place) (stop : Nat) : Except (Halt Fault) Place :=
  (List.range' place.offset (stop - place.offset)).foldlM (fun place offset => do
    let c ← charAt text offset
    return if c = '\n' then ⟨place.offset, place.line + 1, offset + 1⟩ else place) place

/-- A turn of the loop over a string in single quotes. -/
def singleTurn (text : List Char) (start : Nat) :
    List Char × Place → Except (Halt Fault) (List Char × Place ⊕ List Char × Place)
  | (content, place) =>
    if text.length ≤ place.offset then .error (.fault (place.fault .unterminatedString start))
    else do
      let c ← charAt text place.offset
      if c = '\x27' then
        if startsAt text (place.offset + 1) ['\x27'] then
          return .inl (content ++ ['\x27'], place.advance 2)
        else return .inr (content, place.advance 1)
      else return .inl (content ++ [c], place.pass c)

/-- A turn of the loop over a string in double quotes. -/
def doubleTurn (text : List Char) (start : Nat) :
    List Char × Place → Except (Halt Fault) (List Char × Place ⊕ List Char × Place)
  | (content, place) =>
    if text.length ≤ place.offset then .error (.fault (place.fault .unterminatedString start))
    else do
      let c ← charAt text place.offset
      if c = '\x60' ∧ place.offset + 1 < text.length then do
        let next ← charAt text (place.offset + 1)
        return .inl (content ++ [escaped next], place.advance 2)
      else if c = '"' then
        if startsAt text (place.offset + 1) ['"'] then
          return .inl (content ++ ['"'], place.advance 2)
        else return .inr (content, place.advance 1)
      else return .inl (content ++ [c], place.pass c)

/-- A string from its quote on. -/
def string (text : List Char)
    (turn : List Char × Place → Except (Halt Fault) (List Char × Place ⊕ List Char × Place))
    (place : Place) : Except (Halt Fault) (Option Token × Place) := do
  let (content, stop) ← loop turn (text.length + 1) ([], place.advance 1)
  return (some (.string (String.ofList content)), stop)

def comment (text : List Char) (place : Place) : Except (Halt Fault) (Option Token × Place) :=
  match find? text ['#', '>'] (place.offset + 2) with
  | none => .error (.fault (place.fault .unterminatedComment place.offset))
  | some stop => do
    let place ← countLines text place stop
    return (none, { place with offset := stop + 2 })

def lineComment (text : List Char) (place : Place) : Option Token × Place :=
  (none, { place with offset := (find? text ['\n'] place.offset).getD text.length })

def continued (text : List Char) (place : Place) : Option Token × Place :=
  if startsAt text (place.offset + 1) ['\r', '\n'] then (none, (place.advance 3).nextLine)
  else (none, (place.advance 2).nextLine)

/-- A constant: its name is looked up once more when it is known to be there. -/
def constant (text : List Char) (place : Place) : Except (Halt Fault) (Option Token × Place) :=
  let name := (spanWord (text.drop (place.offset + 1))).1
  let lowered := Text.lower name
  if (constant? lowered).isNone then
    .error (.fault (place.fault (.unsupportedVariable (String.ofList lowered)) place.offset))
  else
    match constant? lowered with
    | none => .error .unknownKey
    | some value => .ok (some (.constant value), place.advance (1 + name.length))

/-- A number: it is matched once more when it is known to match. -/
def number (text : List Char) (place : Place) : Except (Halt Fault) (Option Token × Place) :=
  match number? (text.drop place.offset) with
  | none => .error .brokenAssertion
  | some (value, behind) =>
    .ok (some (.constant value), { place with offset := text.length - behind.length })

/-- A bare word, likewise. -/
def word (text : List Char) (place : Place) : Except (Halt Fault) (Option Token × Place) :=
  let name := (spanWord (text.drop place.offset)).1
  if name.isEmpty then .error .brokenAssertion
  else .ok (some (.word (String.ofList name)), place.advance name.length)

/-- What stands at an offset within the text, and the place behind it. -/
def lexeme (text : List Char) (place : Place) : Except (Halt Fault) (Option Token × Place) := do
  let c ← charAt text place.offset
  if c = '\n' then return (some .newLine, place.pass '\n')
  else if isSkipped c then return (none, place.advance 1)
  else if startsAt text place.offset ['<', '#'] then comment text place
  else if c = '#' then return lineComment text place
  else if c = '\x60' ∧ (startsAt text (place.offset + 1) ['\n'] ∨
      startsAt text (place.offset + 1) ['\r']) then return continued text place
  else if startsAt text place.offset ['@', '\x7b'] then return (some .openTable, place.advance 2)
  else if startsAt text place.offset ['@', '('] then return (some .openArray, place.advance 2)
  else
    match punctuation? c with
    | some token => return (some token, place.advance 1)
    | none =>
      if c = '\x27' then string text (singleTurn text place.offset) place
      else if c = '"' then string text (doubleTurn text place.offset) place
      else if c = '$' then constant text place
      else if (number? (text.drop place.offset)).isSome then number text place
      else if !(spanWord (text.drop place.offset)).1.isEmpty then word text place
      else throw (.fault (place.fault (.unexpectedCharacter c) place.offset))

/-- A turn of the loop over the text. -/
def turn (text : List Char) : Course → Except (Halt Fault) (Course ⊕ Course)
  | (tokens, place) =>
    if text.length ≤ place.offset then return .inr (tokens, place)
    else do
      let (token, next) ← lexeme text place
      return .inl (tokens ++ token.toList.map (⟨·, place.line, place.columnOf place.offset⟩), next)

/-- The tokens of a text and the place where it ends. -/
def tokens (text : List Char) : Except (Halt Fault) Course :=
  loop (turn text) (text.length + 1) ([], .start)

variable {text rest behind : List Char} {place : Place} {c : Char}

/-! ## Comments -/

theorem distance?_blockComment (s : List Char) :
    Text.distance? ['#', '>'] s = (blockComment? s).map (·.1.length) := by
  fun_induction blockComment? s with
  | case1 => rfl
  | case2 s => rfl
  | case3 c s hclose ih =>
      have hnot : ¬ ['#', '>'].isPrefixOf (c :: s) = true := by
        rw [List.isPrefixOf_iff_prefix]
        rintro ⟨behind, hbehind⟩
        obtain ⟨rfl, hs⟩ := List.cons.inj hbehind
        exact hclose behind rfl hs.symm
      rw [Text.distance?, if_neg hnot, ih]
      cases blockComment? s <;> rfl

theorem countLines_eq {piece : List Char} (h : text.drop place.offset = piece ++ behind) :
    countLines text place (place.offset + piece.length) =
      .ok { piece.foldl Place.pass place with offset := place.offset } := by
  have hfold : ∀ offset line lineStart, text.drop offset = piece ++ behind →
      (List.range' offset piece.length).foldlM (m := Except (Halt Fault)) (fun place offset => do
        let c ← charAt text offset
        return if c = '\n' then ⟨place.offset, place.line + 1, offset + 1⟩ else place)
        ⟨place.offset, line, lineStart⟩ =
      .ok { piece.foldl Place.pass ⟨offset, line, lineStart⟩ with offset := place.offset } := by
    clear h
    induction piece with
    | nil => exact fun _ _ _ _ => rfl
    | cons c piece ih =>
        intro offset line lineStart hdrop
        have hrest := Text.drop_succ_of_drop hdrop
        rw [List.length_cons, List.range'_succ, List.foldlM_cons, Text.charAt_of_drop hdrop]
        by_cases hc : c = '\n'
        · subst hc
          exact ih (offset + 1) (line + 1) (offset + 1) hrest
        · have hpass : Place.pass ⟨offset, line, lineStart⟩ c = ⟨offset + 1, line, lineStart⟩ :=
            pass_of_ne hc _
          rw [List.foldl_cons, hpass, ← ih (offset + 1) line lineStart hrest]
          simp only [bind, Except.bind, pure, Except.pure, if_neg hc]
  rw [countLines, Nat.add_sub_cancel_left]
  exact hfold place.offset place.line place.lineStart h

/-- What a step gives without the text behind it. -/
def settled : Except Fault Scanned → Except (Halt Fault) (Option Token × Place)
  | .ok (token, next, _) => .ok (token, next)
  | .error fault => .error (.fault fault)

theorem comment_eq (h : text.drop place.offset = '<' :: '#' :: rest) :
    comment text place = settled (commentAt place rest) := by
  have hbehind : text.drop (place.offset + 2) = rest :=
    @Text.drop_add_of_drop text ['<', '#'] rest place.offset h
  rw [comment, find?, hbehind, distance?_blockComment, commentAt]
  cases hcomment : blockComment? rest with
  | none => rfl
  | some found =>
      obtain ⟨content, behind⟩ := found
      have hpiece : text.drop place.offset = ('<' :: '#' :: content) ++ '#' :: '>' :: behind := by
        rw [h, blockComment?_split hcomment]
        rfl
      have hcount := countLines_eq hpiece
      have hstop : place.offset + 2 + content.length =
          place.offset + ('<' :: '#' :: content).length := by
        simp only [List.length_cons]
        omega
      have hoffset := foldl_pass_offset content (place.advance 2)
      simp only [Option.map_some, hstop, hcount]
      change Except.ok (none, ({ content.foldl Place.pass (place.advance 2) with
        offset := place.offset + ('<' :: '#' :: content).length + 2 } : Place)) = Except.ok _
      rw [← hstop, show place.offset + 2 = (place.advance 2).offset from rfl, ← hoffset]
      rfl

theorem lineComment_eq (h : text.drop place.offset = '#' :: rest) :
    lineComment text place =
      (none, place.advance (1 + (rest.takeWhile (· != '\n')).length)) := by
  rw [lineComment, Text.getD_find?_newline h, List.takeWhile_cons_of_pos (by decide),
    List.length_cons, Nat.add_comm _ 1]
  rfl

/-! ## Strings -/

/-- The loop over a string ends as its reader of lists does. -/
def quoted (read : Place → List Char → Quotation) (text : List Char) (start : Nat) :
    List Char × Place → Except (Halt Fault) (List Char × Place)
  | (content, place) =>
    let quotation := read place (text.drop place.offset)
    match quotation.rest with
    | none => .error (.fault (quotation.place.fault .unterminatedString start))
    | some _ => .ok (content ++ quotation.content, quotation.place)

theorem quoted_cons {read : Place → List Char → Quotation} {start : Nat} {content : List Char}
    {place next : Place}
    (h : read place (text.drop place.offset) = (read next (text.drop next.offset)).cons c) :
    quoted read text start (content ++ [c], next) = quoted read text start (content, place) := by
  rw [quoted, quoted, h, Quotation.cons]
  dsimp only
  split
  · rfl
  · rw [List.append_assoc]
    rfl

theorem keeps_singleTurn (start : Nat) (state : List Char × Place) :
    Text.Keeps (quoted singleQuoted text start) (fun state => text.length - state.2.offset)
      (fun _ => True) state (singleTurn text start state) := by
  obtain ⟨content, place⟩ := state
  rw [singleTurn]
  cases hdrop : text.drop place.offset with
  | nil =>
      rw [if_pos (List.drop_eq_nil_iff.1 hdrop)]
      simp only [Text.Keeps, quoted, hdrop]
      rfl
  | cons c rest =>
      have hrest := Text.drop_succ_of_drop hdrop
      have hlength := Text.length_of_drop hdrop
      rw [if_neg (by omega), Text.charAt_of_drop hdrop]
      simp only [bind, Except.bind]
      by_cases hc : c = '\x27'
      · subst hc
        rw [if_pos rfl]
        by_cases hnext : rest.head? = some '\x27'
        · rw [if_pos ((Text.startsAt_singleton_iff hrest).2 hnext)]
          obtain ⟨rest, rfl⟩ := List.head?_eq_some_iff.1 hnext
          refine ⟨trivial, by simp only [Place.advance]; omega, quoted_cons ?_⟩
          rw [hdrop, show text.drop (place.advance 2).offset = rest from
            Text.drop_succ_of_drop hrest]
          rfl
        · rw [if_neg (fun h => hnext ((Text.startsAt_singleton_iff hrest).1 h))]
          simp only [pure, Except.pure, Text.Keeps, quoted, hdrop, singleQuoted_close hnext,
            List.append_nil]
      · rw [if_neg hc]
        have hoffset : (place.pass c).offset = place.offset + 1 := foldl_pass_offset [c] place
        refine ⟨trivial, by simp only [hoffset]; omega, quoted_cons ?_⟩
        rw [hdrop, hoffset, hrest, singleQuoted_plain hc]

theorem keeps_doubleTurn (start : Nat) (state : List Char × Place) :
    Text.Keeps (quoted doubleQuoted text start) (fun state => text.length - state.2.offset)
      (fun _ => True) state (doubleTurn text start state) := by
  obtain ⟨content, place⟩ := state
  rw [doubleTurn]
  cases hdrop : text.drop place.offset with
  | nil =>
      rw [if_pos (List.drop_eq_nil_iff.1 hdrop)]
      simp only [Text.Keeps, quoted, hdrop]
      rfl
  | cons c rest =>
      have hrest := Text.drop_succ_of_drop hdrop
      have hlength := Text.length_of_drop hdrop
      have hoffset : (place.pass c).offset = place.offset + 1 := foldl_pass_offset [c] place
      rw [if_neg (by omega), Text.charAt_of_drop hdrop]
      simp only [bind, Except.bind]
      by_cases hescape : c = '\x60'
      · subst hescape
        cases rest with
        | nil =>
            rw [if_neg (fun h => absurd h.2 (by simp only [List.length_nil] at hlength; omega)),
              if_neg (by decide)]
            refine ⟨trivial, by simp only [hoffset]; omega, quoted_cons ?_⟩
            rw [hdrop, hoffset, hrest]
            rfl
        | cons next rest =>
            rw [if_pos ⟨rfl, by simp only [List.length_cons] at hlength; omega⟩,
              Text.charAt_of_drop hrest]
            refine ⟨trivial, by simp only [Place.advance]; omega, quoted_cons ?_⟩
            rw [hdrop, show text.drop (place.advance 2).offset = rest from
              Text.drop_succ_of_drop hrest]
            rfl
      · rw [if_neg (fun h => hescape h.1)]
        by_cases hc : c = '"'
        · subst hc
          rw [if_pos rfl]
          by_cases hnext : rest.head? = some '"'
          · rw [if_pos ((Text.startsAt_singleton_iff hrest).2 hnext)]
            obtain ⟨rest, rfl⟩ := List.head?_eq_some_iff.1 hnext
            refine ⟨trivial, by simp only [Place.advance]; omega, quoted_cons ?_⟩
            rw [hdrop, show text.drop (place.advance 2).offset = rest from
              Text.drop_succ_of_drop hrest]
            rfl
          · rw [if_neg (fun h => hnext ((Text.startsAt_singleton_iff hrest).1 h))]
            simp only [pure, Except.pure, Text.Keeps, quoted, hdrop, doubleQuoted_close hnext,
              List.append_nil]
        · rw [if_neg hc]
          refine ⟨trivial, by simp only [hoffset]; omega, quoted_cons ?_⟩
          rw [hdrop, hoffset, hrest, doubleQuoted_plain hc hescape]

theorem string_eq {read : Place → List Char → Quotation}
    {turn : List Char × Place → Except (Halt Fault) (List Char × Place ⊕ List Char × Place)}
    (hturn : ∀ state, Text.Keeps (quoted read text place.offset)
      (fun state => text.length - state.2.offset) (fun _ => True) state (turn state))
    (h : text.drop place.offset = c :: rest) :
    string text turn place = settled (stringAt place.offset (read (place.advance 1) rest)) := by
  have hrest : text.drop (place.advance 1).offset = rest := Text.drop_succ_of_drop h
  rw [string, Text.loop_eq (fun state _ => hturn state) trivial (by dsimp only; omega), quoted,
    hrest, stringAt]
  dsimp only
  split
  · next hnone =>
    rw [hnone]
    rfl
  · next hsome =>
    rw [hsome]
    rfl

/-! ## Constants, numbers and words -/

theorem constant_eq (h : text.drop place.offset = '$' :: rest) :
    constant text place = settled (constantAt place rest) := by
  rw [constant, Text.drop_succ_of_drop h, constantAt]
  cases hvalue : constant? (Text.lower (spanWord rest).1) with
  | none => rfl
  | some value => rfl

theorem number_eq {value : Value} (h : text.drop place.offset = c :: rest)
    (hnumber : number? (c :: rest) = some (value, behind)) :
    number text place = .ok (some (.constant value),
      place.advance ((c :: rest).length - behind.length)) := by
  obtain ⟨spelling, hsplit, _, _⟩ := number?_split hnumber
  have hlength := Text.length_of_drop h
  have hbehind := congrArg List.length hsplit
  rw [List.length_cons, List.length_append] at hbehind
  rw [number, h, hnumber]
  simp only [Place.advance, List.length_cons, Except.ok.injEq, Prod.mk.injEq, Place.mk.injEq,
    true_and, and_true]
  omega

theorem word_eq (h : text.drop place.offset = c :: rest) (hstart : isWordStart c = true) :
    word text place = .ok (some (.word (String.ofList (c :: rest.takeWhile isWordPart))),
      place.advance (c :: rest.takeWhile isWordPart).length) := by
  rw [word, h, spanWord, if_pos hstart]
  rfl

/-- A number or a word is tried for before it is read, so the assertions in them hold. -/
theorem plain_eq (h : text.drop place.offset = c :: rest) :
    (if (number? (text.drop place.offset)).isSome then number text place
      else if !(spanWord (text.drop place.offset)).1.isEmpty then word text place
      else throw (.fault (place.fault (.unexpectedCharacter c) place.offset))) =
      settled (plainAt place c rest) := by
  rw [plainAt]
  cases hnumber : number? (c :: rest) with
  | some found =>
      rw [if_pos (by rw [h, hnumber]; rfl), number_eq h hnumber]
      rfl
  | none =>
      rw [if_neg (by rw [h, hnumber]; exact Bool.false_ne_true), h, spanWord]
      by_cases hstart : isWordStart c = true
      · simp only [hstart, if_true]
        exact word_eq h hstart
      · simp only [hstart]
        rfl

/-! ## A turn -/

theorem ite_eq_settled {p q : Prop} [Decidable p] [Decidable q]
    {first second : Except (Halt Fault) (Option Token × Place)} {first' second' : Except Fault Scanned}
    (hiff : p ↔ q) (hfirst : q → first = settled first') (hsecond : second = settled second') :
    (if p then first else second) = settled (if q then first' else second') := by
  by_cases hq : q
  · rw [if_pos (hiff.2 hq), if_pos hq, hfirst hq]
  · rw [if_neg (fun hp => hq (hiff.1 hp)), if_neg hq, hsecond]

theorem startsAt_iff {second : Char} {first : Char} (h : text.drop place.offset = c :: rest) :
    startsAt text place.offset [first, second] = true ↔ c = first ∧ rest.head? = some second := by
  rw [Text.startsAt_pair_iff h, List.head?_cons, List.tail_cons, Option.some_inj]

/-- Within the text a turn takes the lexeme that a step takes. -/
theorem lexeme_eq (h : text.drop place.offset = c :: rest) :
    lexeme text place = settled (stepAt place c rest) := by
  have hrest := Text.drop_succ_of_drop h
  have hfeed : startsAt text (place.offset + 1) ['\n'] = true ↔ rest.head? = some '\n' :=
    Text.startsAt_singleton_iff hrest
  have hreturn : startsAt text (place.offset + 1) ['\r'] = true ↔ rest.head? = some '\r' :=
    Text.startsAt_singleton_iff hrest
  have hpair : startsAt text (place.offset + 1) ['\r', '\n'] = true ↔
      rest.head? = some '\r' ∧ rest.tail.head? = some '\n' := Text.startsAt_pair_iff hrest
  rw [lexeme, Text.charAt_of_drop h, stepAt_eq]
  refine ite_eq_settled Iff.rfl (fun _ => rfl) ?_
  refine ite_eq_settled Iff.rfl (fun _ => rfl) ?_
  refine ite_eq_settled (startsAt_iff h) ?_ ?_
  · rintro ⟨rfl, hhead⟩
    obtain ⟨rest, rfl⟩ := List.head?_eq_some_iff.1 hhead
    exact comment_eq h
  refine ite_eq_settled Iff.rfl ?_ ?_
  · rintro rfl
    rw [lineComment_eq h]
    rfl
  by_cases hline : c = '\x60' ∧ rest.head? = some '\n'
  · have hnot : rest.head? ≠ some '\r' := fun hhead => by
      rw [hline.2] at hhead
      exact absurd hhead (by decide)
    rw [if_pos hline, if_pos ⟨hline.1, .inl (hfeed.2 hline.2)⟩, continued,
      if_neg (fun hstarts => hnot (hpair.1 hstarts).1)]
    rfl
  rw [if_neg hline]
  refine ite_eq_settled ?_ ?_ ?_
  · rw [hfeed, hreturn]
    exact ⟨fun ⟨hc, hhead⟩ => ⟨hc, hhead.resolve_left fun hhead => hline ⟨hc, hhead⟩⟩,
      fun ⟨hc, hhead⟩ => ⟨hc, .inr hhead⟩⟩
  · rintro ⟨_, hhead⟩
    by_cases htail : rest.tail.head? = some '\n'
    · rw [if_pos htail, continued, if_pos (hpair.2 ⟨hhead, htail⟩)]
      rfl
    · rw [if_neg htail, continued, if_neg (fun hstarts => htail (hpair.1 hstarts).2)]
      rfl
  refine ite_eq_settled (startsAt_iff h) (fun _ => rfl) ?_
  refine ite_eq_settled (startsAt_iff h) (fun _ => rfl) ?_
  cases punctuation? c with
  | some token => rfl
  | none =>
      refine ite_eq_settled Iff.rfl (fun _ => string_eq (keeps_singleTurn _) h) ?_
      refine ite_eq_settled Iff.rfl (fun _ => string_eq (keeps_doubleTurn _) h) ?_
      refine ite_eq_settled Iff.rfl ?_ (plain_eq h)
      rintro rfl
      exact constant_eq h

/-- The tokens and the place that the loop adds to a course. -/
def continuation (text : List Char) : Course → Except (Halt Fault) Course
  | (tokens, place) =>
    match tokensFrom place (text.drop place.offset) with
    | .ok (more, stop) => .ok (tokens ++ more, stop)
    | .error fault => .error (.fault fault)

theorem step_forward {next : Place} {token : Option Token} (h : text.drop place.offset = c :: rest)
    (hstep : stepAt place c rest = .ok (token, next, behind)) :
    place.offset < next.offset ∧ next.offset ≤ text.length ∧ text.drop next.offset = behind := by
  have htakes := takes_stepAt place c rest
  rw [hstep] at htakes
  obtain ⟨spelling, hne, hsplit, rfl⟩ := htakes
  have hoffset := foldl_pass_offset (counted spelling) place
  rw [length_counted] at hoffset
  have hpos := List.length_pos_iff.2 hne
  have hlength := Text.length_of_drop h
  have hsum := congrArg List.length hsplit
  rw [List.length_cons, List.length_append] at hsum
  refine ⟨by omega, by omega, ?_⟩
  rw [hoffset]
  exact Text.drop_add_of_drop (h.trans hsplit)

theorem turn_eq (tokens : List Located) (h : text.drop place.offset = c :: rest) :
    turn text (tokens, place) =
      match stepAt place c rest with
      | .ok (token, next, _) => .ok (.inl
          (tokens ++ token.toList.map (⟨·, place.line, place.columnOf place.offset⟩), next))
      | .error fault => .error (.fault fault) := by
  have hlt := Text.lt_length_of_drop h
  rw [turn, if_neg (by omega), lexeme_eq h]
  rcases stepAt place c rest with fault | ⟨token, next, behind⟩ <;> rfl

theorem turn_end (tokens : List Located) (h : text.drop place.offset = []) :
    turn text (tokens, place) = .ok (.inr (tokens, place)) := by
  rw [turn, if_pos (List.drop_eq_nil_iff.1 h)]
  rfl

/-- From an offset within the text a turn moves on, and not beyond the end. -/
theorem turn_forward {tokens tokens' : List Located} {next : Place}
    (h : turn text (tokens, place) = .ok (.inl (tokens', next))) :
    place.offset < next.offset ∧ next.offset ≤ text.length := by
  cases hdrop : text.drop place.offset with
  | nil =>
      rw [turn_end tokens hdrop] at h
      cases h
  | cons c rest =>
      rw [turn_eq tokens hdrop] at h
      rcases hstep : stepAt place c rest with fault | ⟨token, next, behind⟩ <;> rw [hstep] at h
      · cases h
      · cases h
        have hforward := step_forward hdrop hstep
        exact ⟨hforward.1, hforward.2.1⟩

theorem keeps_turn (course : Course) :
    Text.Keeps (continuation text) (fun course => text.length - course.2.offset)
      (fun _ => True) course (turn text course) := by
  obtain ⟨tokens, place⟩ := course
  cases hdrop : text.drop place.offset with
  | nil =>
      rw [turn_end tokens hdrop]
      simp only [Text.Keeps, continuation, hdrop, tokensFrom, List.append_nil]
  | cons c rest =>
      rw [turn_eq tokens hdrop]
      rcases hstep : stepAt place c rest with fault | ⟨token, next, behind⟩
      · simp only [Text.Keeps, continuation, hdrop, tokensFrom_cons, hstep]
        rfl
      · obtain ⟨hlt, hle, hbehind⟩ := step_forward hdrop hstep
        refine ⟨trivial, by dsimp only; omega, ?_⟩
        simp only [continuation, hdrop, tokensFrom_cons, hstep, hbehind, bind, Except.bind, pure,
          Except.pure]
        cases tokensFrom next behind with
        | error fault => rfl
        | ok found => cases token <;> simp

/-- The loop over offsets ends with the tokens of the text or with its fault. -/
theorem tokens_eq (text : List Char) :
    ByOffset.tokens text = (DataFile.tokens text).mapError .fault := by
  have hdrop : text.drop Place.start.offset = text := rfl
  rw [ByOffset.tokens, Text.loop_eq (fun course _ => keeps_turn course) trivial
    (by dsimp only; omega), continuation, DataFile.tokens, hdrop]
  cases tokensFrom .start text <;> rfl

end DscAudit.DataFile.ByOffset

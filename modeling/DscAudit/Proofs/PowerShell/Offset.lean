import DscAudit.PowerShell.ParameterBlock
import DscAudit.Proofs.PowerShell.Layout
import DscAudit.Proofs.Text.Scan

/-!
# The scanner of scripts by offsets

The scanner as loops over offsets into the text.  It looks up the bracket that closes another one, takes
the innermost open bracket from a stack and asserts that a comment has been skipped; each of these could
go wrong, and so could every character that is read.  None does: from every offset within the text the
scanner moves on, and it finds what the scanner of lists finds.
-/

namespace DscAudit.PowerShell.ByOffset

open Text (Halt charAt startsAt find? loop settled)

/-! ## The scanner -/

/-- A fault at an offset. -/
def raise {α : Type} (cause : Cause) (offset : Nat) : Except (Halt Fault) α :=
  .error (.fault ⟨cause, offset⟩)

section

variable (text : List Char)

/-- A turn of a loop over characters of a class. -/
def spanTurn (p : Char → Bool) (place : Nat) : Except (Halt Fault) (Nat ⊕ Nat) :=
  if place < text.length then do
    let c ← charAt text place
    if p c then return .inl (place + 1) else return .inr place
  else return .inr place

/-- The offset behind characters of a class. -/
def span (p : Char → Bool) (offset : Nat) : Except (Halt Fault) Nat :=
  loop (spanTurn text p) (text.length + 1) offset

/-- Does a line end come next, blanks apart? -/
def hereStringOpens (offset : Nat) : Except (Halt Fault) Bool := do
  let place ← span text Lexeme.isIndent offset
  if place < text.length then do
    let c ← charAt text place
    return c == '\r' || c == '\n'
  else return false

/-- A turn at the mark that may close a string: a doubled one does not. -/
def closeTurn (mark : Char) (place : Nat) : Except (Halt Fault) (Nat ⊕ Nat) :=
  if place + 1 < text.length then do
    let next ← charAt text (place + 1)
    if next = mark then return .inl (place + 2) else return .inr (place + 1)
  else return .inr (place + 1)

/-- A turn of the loop over a string in single quotes. -/
def singleTurn (start place : Nat) : Except (Halt Fault) (Nat ⊕ Nat) :=
  if place < text.length then do
    let c ← charAt text place
    if c = '\x27' then closeTurn text '\x27' place
    else return .inl (place + 1)
  else raise .unterminatedString start

/-- A turn of the loop over a string in double quotes.  An escape may lead behind the end of the text. -/
def doubleTurn (start place : Nat) : Except (Halt Fault) (Nat ⊕ Nat) :=
  if place < text.length then do
    let c ← charAt text place
    if c = '\x60' then return .inl (place + 2)
    else if c = '"' then closeTurn text '"' place
    else return .inl (place + 1)
  else raise .unterminatedString start

/-- The offset behind the here-string at an offset. -/
def skipHereString (offset : Nat) : Except (Halt Fault) Nat := do
  let quote ← charAt text (offset + 1)
  match Lexeme.hereStringLength? quote (text.drop (offset + 2)) with
  | none => raise .unterminatedHereString offset
  | some length => return offset + 2 + length

/-- Does a here-string open at an offset? -/
def startsHereString (offset : Nat) : Except (Halt Fault) Bool :=
  if startsAt text offset ['@', '\x27'] ∨ startsAt text offset ['@', '"'] then
    hereStringOpens text (offset + 2)
  else return false

/-- The offset behind the string that starts with the character at an offset, nothing if none does. -/
def skipString (c : Char) (offset : Nat) : Except (Halt Fault) (Option Nat) := do
  if ← startsHereString text offset then return some (← skipHereString text offset)
  else if c = '\x27' then
    return some (← loop (singleTurn text offset) (text.length + 1) (offset + 1))
  else if c = '"' then
    return some (← loop (doubleTurn text offset) (text.length + 1) (offset + 1))
  else return none

/-- The offset behind the comment, the string or the escape at an offset, nothing if none is there. -/
def skipOpaque (offset : Nat) : Except (Halt Fault) (Option Nat) :=
  if startsAt text offset ['<', '#'] then
    match find? text ['#', '>'] (offset + 2) with
    | none => raise .unterminatedComment offset
    | some stop => return some (stop + 2)
  else do
    let c ← charAt text offset
    if c = '#' then return some ((find? text ['\n'] offset).getD text.length)
    else if c = '\x60' then return some (min (offset + 2) text.length)
    else skipString text c offset

/-- The offset behind a comment, which is known to be there. -/
def skipComment (offset : Nat) : Except (Halt Fault) Nat := do
  match ← skipOpaque text offset with
  | none => .error .brokenAssertion
  | some skipped => return skipped

/-- Does a comment start with the character at an offset? -/
def opensComment (c : Char) (offset : Nat) : Bool := c == '#' || startsAt text offset ['<', '#']

end

variable {text rest : List Char} {offset place stop : Nat} {c : Char}

/-! ## Comments, strings and escapes -/

theorem keeps_spanTurn (p : Char → Bool) (place : Nat) :
    Text.Keeps (fun place => .ok (place + ((text.drop place).takeWhile p).length))
      (fun place => text.length - place) (fun _ => True) place (spanTurn text p place) := by
  rw [spanTurn]
  cases hdrop : text.drop place with
  | nil =>
      rw [if_neg (Nat.not_lt.2 (List.drop_eq_nil_iff.1 hdrop))]
      simp only [pure, Except.pure, Text.Keeps, hdrop]
      rfl
  | cons c rest =>
      have hlength := Text.length_of_drop hdrop
      rw [if_pos (by omega), Text.charAt_of_drop hdrop]
      simp only [bind, Except.bind]
      by_cases hc : p c = true
      · rw [if_pos hc]
        refine ⟨trivial, by dsimp only; omega, ?_⟩
        simp only [Text.drop_succ_of_drop hdrop, hdrop, List.takeWhile_cons_of_pos hc,
          List.length_cons, Nat.add_assoc, Nat.add_comm 1]
      · rw [if_neg hc]
        simp only [pure, Except.pure, Text.Keeps, hdrop, List.takeWhile_cons_of_neg hc]
        rfl

theorem span_eq (p : Char → Bool) (offset : Nat) :
    span text p offset = .ok (offset + ((text.drop offset).takeWhile p).length) :=
  Text.loop_eq (fun place _ => keeps_spanTurn p place) trivial (by omega)

theorem drop_span (p : Char → Bool) (offset : Nat) :
    text.drop (offset + ((text.drop offset).takeWhile p).length) = (text.drop offset).dropWhile p :=
  Text.drop_add_of_drop List.takeWhile_append_dropWhile.symm

theorem hereStringOpens_eq (offset : Nat) :
    hereStringOpens text offset = .ok (Lexeme.opensHereString (text.drop offset)) := by
  have hbehind := @drop_span text Lexeme.isIndent offset
  rw [hereStringOpens, span_eq, Lexeme.opensHereString]
  simp only [bind, Except.bind]
  cases hrest : (text.drop offset).dropWhile Lexeme.isIndent with
  | nil =>
      rw [hrest] at hbehind
      rw [if_neg (Nat.not_lt.2 (List.drop_eq_nil_iff.1 hbehind))]
      rfl
  | cons c rest =>
      rw [hrest] at hbehind
      rw [if_pos (Text.lt_length_of_drop hbehind), Text.charAt_of_drop hbehind]
      rfl

/-- Where a string ends that is measured from a place on. -/
def ended (measure : List Char → Option Nat) (text : List Char) (start place : Nat) :
    Except (Halt Fault) Nat :=
  match measure (text.drop place) with
  | none => raise .unterminatedString start
  | some length => .ok (place + length)

theorem ended_add {measure : List Char → Option Nat} {start count : Nat}
    (h : measure (text.drop place) = (measure (text.drop (place + count))).map (· + count)) :
    ended measure text start (place + count) = ended measure text start place := by
  rw [ended, ended, h]
  cases measure (text.drop (place + count)) with
  | none => rfl
  | some length => exact congrArg Except.ok (by rw [Nat.add_assoc, Nat.add_comm count])

theorem singleQuotedLength?_close {rest : List Char} (h : rest.head? ≠ some '\x27') :
    Lexeme.singleQuotedLength? ('\x27' :: rest) = some 1 := by
  rcases rest with _ | ⟨c, rest⟩
  · rfl
  · rw [Lexeme.singleQuotedLength?]
    rintro rest' heq
    exact h (congrArg List.head? heq)

theorem singleQuotedLength?_plain {c : Char} (h : c ≠ '\x27') (rest : List Char) :
    Lexeme.singleQuotedLength? (c :: rest) = (Lexeme.singleQuotedLength? rest).map (· + 1) := by
  rw [Lexeme.singleQuotedLength?]
  · rintro rest' rfl
    exact fun _ => h rfl
  · exact h

theorem doubleQuotedLength?_close {rest : List Char} (h : rest.head? ≠ some '"') :
    Lexeme.doubleQuotedLength? ('"' :: rest) = some 1 := by
  rcases rest with _ | ⟨c, rest⟩
  · rfl
  · rw [Lexeme.doubleQuotedLength?]
    rintro rest' heq
    exact h (congrArg List.head? heq)

theorem doubleQuotedLength?_escape (rest : List Char) :
    Lexeme.doubleQuotedLength? ('\x60' :: rest) =
      (Lexeme.doubleQuotedLength? rest.tail).map (· + 2) := by
  cases rest <;> rfl

theorem doubleQuotedLength?_plain {c : Char} (h : c ≠ '"') (hescape : c ≠ '\x60')
    (rest : List Char) :
    Lexeme.doubleQuotedLength? (c :: rest) = (Lexeme.doubleQuotedLength? rest).map (· + 1) := by
  rw [Lexeme.doubleQuotedLength?]
  · rintro c' rest' rfl
    exact fun _ => hescape rfl
  · rintro rest' rfl
    exact fun _ => h rfl
  · exact h

theorem drop_two_of_drop (h : text.drop (place + 1) = rest) : text.drop (place + 2) = rest.tail := by
  rw [← h, List.tail_drop]

theorem closeTurn_eq {mark : Char} (hrest : text.drop (place + 1) = rest) :
    closeTurn text mark place =
      .ok (if rest.head? = some mark then .inl (place + 2) else .inr (place + 1)) := by
  rw [closeTurn]
  rcases rest with _ | ⟨next, rest⟩
  · rw [if_neg (Nat.not_lt.2 (List.drop_eq_nil_iff.1 hrest))]
    rfl
  · rw [if_pos (Text.lt_length_of_drop hrest), Text.charAt_of_drop hrest]
    by_cases hnext : next = mark <;> simp [bind, Except.bind, pure, Except.pure, hnext]

theorem keeps_closeTurn {measure : List Char → Option Nat} {mark : Char} (start : Nat)
    (hdrop : text.drop place = mark :: rest)
    (hclose : rest.head? ≠ some mark → measure (mark :: rest) = some 1)
    (hdouble : ∀ rest', measure (mark :: mark :: rest') = (measure rest').map (· + 2)) :
    Text.Keeps (ended measure text start) (fun place => text.length - place) (fun _ => True) place
      (closeTurn text mark place) := by
  have hrest := Text.drop_succ_of_drop hdrop
  have hlength := Text.length_of_drop hdrop
  rw [closeTurn_eq hrest]
  by_cases hhead : rest.head? = some mark
  · obtain ⟨rest, rfl⟩ := List.head?_eq_some_iff.1 hhead
    rw [if_pos hhead]
    refine ⟨trivial, by dsimp only; omega, ended_add ?_⟩
    rw [hdrop, drop_two_of_drop hrest, hdouble]
    rfl
  · rw [if_neg hhead]
    simp only [Text.Keeps, ended, hdrop, hclose hhead]

theorem keeps_singleTurn (start place : Nat) :
    Text.Keeps (ended Lexeme.singleQuotedLength? text start) (fun place => text.length - place)
      (fun _ => True) place (singleTurn text start place) := by
  rw [singleTurn]
  cases hdrop : text.drop place with
  | nil =>
      rw [if_neg (Nat.not_lt.2 (List.drop_eq_nil_iff.1 hdrop))]
      simp only [raise, Text.Keeps, ended, hdrop]
      rfl
  | cons c rest =>
      have hrest := Text.drop_succ_of_drop hdrop
      have hlength := Text.length_of_drop hdrop
      rw [if_pos (by omega), Text.charAt_of_drop hdrop]
      simp only [bind, Except.bind]
      by_cases hc : c = '\x27'
      · subst hc
        rw [if_pos rfl]
        exact keeps_closeTurn start hdrop singleQuotedLength?_close fun _ => rfl
      · rw [if_neg hc]
        refine ⟨trivial, by dsimp only; omega, ended_add ?_⟩
        rw [hdrop, hrest, singleQuotedLength?_plain hc]

theorem keeps_doubleTurn (start place : Nat) :
    Text.Keeps (ended Lexeme.doubleQuotedLength? text start) (fun place => text.length - place)
      (fun _ => True) place (doubleTurn text start place) := by
  rw [doubleTurn]
  cases hdrop : text.drop place with
  | nil =>
      rw [if_neg (Nat.not_lt.2 (List.drop_eq_nil_iff.1 hdrop))]
      simp only [raise, Text.Keeps, ended, hdrop]
      rfl
  | cons c rest =>
      have hrest := Text.drop_succ_of_drop hdrop
      have hlength := Text.length_of_drop hdrop
      rw [if_pos (by omega), Text.charAt_of_drop hdrop]
      simp only [bind, Except.bind]
      by_cases hescape : c = '\x60'
      · subst hescape
        rw [if_pos rfl]
        refine ⟨trivial, by dsimp only; omega, ended_add ?_⟩
        rw [hdrop, drop_two_of_drop hrest, doubleQuotedLength?_escape]
      rw [if_neg hescape]
      by_cases hc : c = '"'
      · subst hc
        rw [if_pos rfl]
        exact keeps_closeTurn start hdrop doubleQuotedLength?_close fun _ => rfl
      · rw [if_neg hc]
        refine ⟨trivial, by dsimp only; omega, ended_add ?_⟩
        rw [hdrop, hrest, doubleQuotedLength?_plain hc hescape]

theorem skipHereString_eq {quote : Char} (h : text.drop offset = c :: quote :: rest) :
    skipHereString text offset =
      match Lexeme.hereStringLength? quote rest with
      | none => raise .unterminatedHereString offset
      | some length => .ok (offset + 2 + length) := by
  have hquote := Text.drop_succ_of_drop h
  rw [skipHereString, Text.charAt_of_drop hquote, drop_two_of_drop hquote, List.tail_cons]
  rfl

theorem distance?_blockComment (s : List Char) :
    Lexeme.blockCommentLength? s = (Text.distance? ['#', '>'] s).map (· + 2) := by
  fun_induction Lexeme.blockCommentLength? s with
  | case1 => rfl
  | case2 rest => rfl
  | case3 c rest hclose ih =>
      have hnot : ¬ ['#', '>'].isPrefixOf (c :: rest) = true := by
        rw [List.isPrefixOf_iff_prefix]
        rintro ⟨behind, hbehind⟩
        obtain ⟨rfl, hrest⟩ := List.cons.inj hbehind
        exact hclose behind rfl hrest.symm
      rw [Text.distance?, if_neg hnot, ih]
      cases Text.distance? ['#', '>'] rest <;> rfl

/-- The offset behind a lexeme unless it is plain. -/
def lexemeEnd {s : List Char} (offset : Nat) (lexeme : Lexeme s) : Option Nat :=
  if lexeme.kind = .plain then none else some (offset + lexeme.length)

/-- What a scan finds at an offset. -/
def opaqueAt {s : List Char} (offset : Nat) : Except Cause (Lexeme s) → Except (Halt Fault) (Option Nat)
  | .ok lexeme => .ok (lexemeEnd offset lexeme)
  | .error cause => raise cause offset

theorem settled_scanAt (offset : Nat) (c : Char) (rest : List Char) :
    settled (lexemeEnd offset) (Lexeme.scanAt offset c rest) = opaqueAt offset (Lexeme.scan c rest) := by
  rw [Lexeme.scanAt]
  cases Lexeme.scan c rest <;> rfl

/-- What is found where a lexeme goes on for a length behind its first characters. -/
def foundAt (cause : Cause) (offset skipped : Nat) : Option Nat → Except (Halt Fault) (Option Nat)
  | none => raise cause offset
  | some length => .ok (some (offset + (skipped + length)))

theorem opaqueAt_ofLength? {kind : LexemeKind} {cause : Cause} {s : List Char} {skipped : Nat}
    {length? : Option Nat} (pos : 0 < skipped)
    {le : ∀ n, length? = some n → skipped + n ≤ s.length} (hkind : kind ≠ .plain) :
    opaqueAt offset (Lexeme.ofLength? kind cause s skipped length? pos le) =
      foundAt cause offset skipped length? := by
  cases length? with
  | none => rfl
  | some n => simp [Lexeme.ofLength?, opaqueAt, lexemeEnd, hkind, foundAt]

theorem startsAt_iff {first second : Char} (h : text.drop offset = c :: rest) :
    startsAt text offset [first, second] = true ↔ c = first ∧ rest.head? = some second := by
  rw [Text.startsAt_pair_iff h, List.head?_cons, List.tail_cons, Option.some_inj]

theorem opaqueAt_plain {s : List Char} {pos : 0 < 1} {le : 1 ≤ s.length} :
    opaqueAt offset (.ok (⟨.plain, 1, pos, le⟩ : Lexeme s)) = .ok none :=
  rfl

theorem scan_plain_of_ne (hcomment : ¬(c = '<' ∧ rest.head? = some '#')) (hline : c ≠ '#')
    (hescape : c ≠ '\x60') (hquoted : c = '@' → rest = []) (hsingle : c ≠ '\x27')
    (hdouble : c ≠ '"') :
    Lexeme.scan c rest = .ok ⟨.plain, 1, Nat.one_pos, Nat.le_add_left 1 rest.length⟩ := by
  rw [Lexeme.scan]
  · exact hline
  · exact hescape
  · exact hsingle
  · exact hdouble
  · rintro rest' rfl rfl
    exact hcomment ⟨rfl, rfl⟩
  · rintro quote rest' rfl rfl
    cases hquoted rfl

theorem startsHereString_eq {quote : Char} (h : text.drop offset = '@' :: quote :: rest) :
    startsHereString text offset =
      .ok ((quote == '\x27' || quote == '"') && Lexeme.opensHereString rest) := by
  have hbehind : text.drop (offset + 2) = rest := drop_two_of_drop (Text.drop_succ_of_drop h)
  rw [startsHereString]
  by_cases hquote : quote = '\x27' ∨ quote = '"'
  · rw [if_pos (hquote.imp (fun hsingle => (startsAt_iff h).2 ⟨rfl, congrArg some hsingle⟩)
      fun hdouble => (startsAt_iff h).2 ⟨rfl, congrArg some hdouble⟩), hereStringOpens_eq, hbehind]
    rcases hquote with rfl | rfl <;> rfl
  · rw [if_neg fun hstarts => hquote (hstarts.imp
      (fun hsingle => Option.some.inj ((startsAt_iff h).1 hsingle).2)
      fun hdouble => Option.some.inj ((startsAt_iff h).1 hdouble).2)]
    rw [not_or] at hquote
    simp [hquote.1, hquote.2, pure, Except.pure]

theorem startsHereString_of_ne (h : text.drop offset = c :: rest) (hquoted : c = '@' → rest = []) :
    startsHereString text offset = .ok false := by
  have hnot : ∀ quote, ¬ startsAt text offset ['@', quote] = true := by
    intro quote hstarts
    obtain ⟨hc, hhead⟩ := (startsAt_iff h).1 hstarts
    rw [hquoted hc] at hhead
    cases hhead
  exact if_neg (not_or.2 ⟨hnot _, hnot _⟩)

theorem opaqueAt_quoted {measure : List Char → Option Nat} {kind : LexemeKind}
    {le : ∀ n, measure rest = some n → 1 + n ≤ (c :: rest).length} (hkind : kind ≠ .plain)
    (h : text.drop (offset + 1) = rest) :
    opaqueAt offset
        (Lexeme.ofLength? kind .unterminatedString (c :: rest) 1 (measure rest) Nat.one_pos le) =
      (do return some (← ended measure text offset (offset + 1))) := by
  rw [opaqueAt_ofLength? Nat.one_pos hkind, ended, h]
  cases measure rest with
  | none => rfl
  | some length => exact congrArg (fun stop => Except.ok (some stop)) (Nat.add_assoc offset 1 length).symm

theorem skipString_eq (h : text.drop offset = c :: rest)
    (hcomment : ¬(c = '<' ∧ rest.head? = some '#')) (hline : c ≠ '#') (hescape : c ≠ '\x60') :
    skipString text c offset = opaqueAt offset (Lexeme.scan c rest) := by
  have hrest := Text.drop_succ_of_drop h
  have hlength := Text.length_of_drop h
  rw [skipString]
  by_cases hquoted : c = '@' → rest = []
  · rw [startsHereString_of_ne h hquoted]
    simp only [bind, Except.bind, Bool.false_eq_true, if_false]
    by_cases hsingle : c = '\x27'
    · subst hsingle
      rw [if_pos rfl, Text.loop_eq (fun place _ => keeps_singleTurn offset place) trivial (by omega)]
      have hkind : LexemeKind.singleQuoted ≠ .plain := by decide
      exact (opaqueAt_quoted hkind hrest).symm
    rw [if_neg hsingle]
    by_cases hdouble : c = '"'
    · subst hdouble
      rw [if_pos rfl, Text.loop_eq (fun place _ => keeps_doubleTurn offset place) trivial (by omega)]
      have hkind : LexemeKind.doubleQuoted ≠ .plain := by decide
      exact (opaqueAt_quoted hkind hrest).symm
    rw [if_neg hdouble, scan_plain_of_ne hcomment hline hescape hquoted hsingle hdouble]
    rfl
  · rw [Classical.not_imp] at hquoted
    obtain ⟨rfl, hne⟩ := hquoted
    obtain ⟨quote, rest, rfl⟩ := List.exists_cons_of_ne_nil hne
    have hscan : Lexeme.scan '@' (quote :: rest) =
        if ((quote == '\x27' || quote == '"') && Lexeme.opensHereString rest) = true then
          Lexeme.ofLength? .hereString .unterminatedHereString _ 2
            (Lexeme.hereStringLength? quote rest) Nat.two_pos fun n hn => by
              have := Lexeme.hereStringLength?_le hn
              simp only [List.length_cons]
              omega
        else .ok ⟨.plain, 1, Nat.one_pos, Nat.le_add_left 1 _⟩ := rfl
    rw [startsHereString_eq h, hscan]
    simp only [bind, Except.bind]
    by_cases hopens : ((quote == '\x27' || quote == '"') && Lexeme.opensHereString rest) = true
    · rw [if_pos hopens, if_pos hopens, opaqueAt_ofLength? Nat.two_pos (by decide),
        skipHereString_eq h]
      cases Lexeme.hereStringLength? quote rest with
      | none => rfl
      | some length => exact congrArg (fun stop => Except.ok (some stop)) (Nat.add_assoc offset 2 length)
    · rw [if_neg hopens, if_neg hopens]
      rfl

/-- From an offset within the text a comment, a string or an escape is skipped if it is the next lexeme. -/
theorem skipOpaque_eq (h : text.drop offset = c :: rest) :
    skipOpaque text offset = settled (lexemeEnd offset) (Lexeme.scanAt offset c rest) := by
  have hlength := Text.length_of_drop h
  have hstarts := @startsAt_iff text rest offset c '<' '#' h
  rw [settled_scanAt, skipOpaque, Text.charAt_of_drop h]
  by_cases hcomment : c = '<' ∧ rest.head? = some '#'
  · obtain ⟨rfl, hhead⟩ := hcomment
    obtain ⟨rest, rfl⟩ := List.head?_eq_some_iff.1 hhead
    have hbehind : text.drop (offset + 2) = rest := drop_two_of_drop (Text.drop_succ_of_drop h)
    rw [if_pos (hstarts.2 ⟨rfl, hhead⟩), find?, hbehind]
    refine Eq.trans ?_ (opaqueAt_ofLength? Nat.two_pos (by decide)).symm
    rw [distance?_blockComment]
    cases Text.distance? ['#', '>'] rest with
    | none => rfl
    | some distance =>
        refine congrArg (fun stop => Except.ok (some stop)) ?_
        dsimp only
        omega
  rw [if_neg fun h => hcomment (hstarts.1 h)]
  simp only [bind, Except.bind]
  by_cases hline : c = '#'
  · subst hline
    rw [if_pos rfl, Text.getD_find?_newline h, List.takeWhile_cons_of_pos (by decide),
      List.length_cons, Nat.add_comm _ 1]
    rfl
  rw [if_neg hline]
  by_cases hescape : c = '\x60'
  · subst hescape
    rw [if_pos rfl]
    change Except.ok (some (min (offset + 2) text.length)) =
      Except.ok (some (offset + min 2 (rest.length + 1)))
    rw [hlength, ← Nat.add_min_add_left, Nat.add_assoc]
  rw [if_neg hescape]
  exact skipString_eq h hcomment hline hescape

end DscAudit.PowerShell.ByOffset

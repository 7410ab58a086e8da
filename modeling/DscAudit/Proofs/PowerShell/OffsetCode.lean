import DscAudit.PowerShell.ParameterBlock
import DscAudit.Proofs.PowerShell.Layout
import DscAudit.Proofs.PowerShell.Offset

/-!
# Code and brackets by offsets

The loops that skip what stands between code, find where it ends, copy it, match brackets and split lists.
Their scanner may run beyond the end of the part that they are given, but not beyond the text.
-/

namespace DscAudit.PowerShell.ByOffset

open Text (Halt charAt startsAt loop settled)

/-! ## The loops -/

section

variable (text : List Char)

def triviaTurn (stop place : Nat) : Except (Halt Fault) (Nat ⊕ Nat) :=
  if place < stop then do
    let c ← charAt text place
    if Text.isBlank c then return .inl (place + 1)
    else if opensComment text c place then return .inl (← skipComment text place)
    else if c = '\x60' ∧ place + 1 < stop then do
      let next ← charAt text (place + 1)
      if isLineEnd next then return .inl (place + 2) else return .inr (min place stop)
    else return .inr (min place stop)
  else return .inr (min place stop)

/-- The first offset before `stop` that is neither blank nor within a comment, or `stop`. -/
def skipTrivia (offset stop : Nat) : Except (Halt Fault) Nat :=
  loop (triviaTurn text stop) (text.length + 1) offset

def trimTurn (start place : Nat) : Except (Halt Fault) (Nat ⊕ Nat) :=
  if start < place then do
    let c ← charAt text (place - 1)
    if Text.isBlank c then return .inl (place - 1) else return .inr place
  else return .inr place

/-- The offset behind the last character before `stop` that is not blank. -/
def trimEnd (start stop : Nat) : Except (Halt Fault) Nat :=
  loop (trimTurn text start) (text.length + 1) stop

def codeEndTurn (stop : Nat) : Nat × Nat → Except (Halt Fault) (Nat × Nat ⊕ Nat)
  | (last, place) =>
    if place < stop then do
      let c ← charAt text place
      if c = '\x60' ∧ (startsAt text (place + 1) ['\r'] ∨ startsAt text (place + 1) ['\n']) then
        return .inl (last, place + 2)
      else
        match ← skipOpaque text place with
        | some skipped =>
          if opensComment text c place then return .inl (last, skipped)
          else return .inl (min skipped stop, skipped)
        | none =>
          if Text.isBlank c then return .inl (last, place + 1) else return .inl (place + 1, place + 1)
    else return .inr last

/-- The offset behind the last code before `stop`. -/
def codeEnd (start stop : Nat) : Except (Halt Fault) Nat :=
  loop (codeEndTurn text stop) (text.length + 1) (start, start)

/-- The characters between two offsets. -/
def slice (start stop : Nat) : List Char := Span.slice ⟨start, stop⟩ text

def codeTextTurn (stop : Nat) :
    List Char × Nat × Nat → Except (Halt Fault) (List Char × Nat × Nat ⊕ List Char)
  | (shown, first, place) =>
    if place < stop then do
      let c ← charAt text place
      if opensComment text c place then
        let next := min (← skipComment text place) stop
        return .inl (shown ++ slice text first place ++ [' '], next, next)
      else
        match ← skipOpaque text place with
        | some skipped => return .inl (shown, first, skipped)
        | none => return .inl (shown, first, place + 1)
    else return .inr (shown ++ slice text first stop)

/-- The text before `stop` with each comment replaced by a single space. -/
def codeText (start stop : Nat) : Except (Halt Fault) (List Char) :=
  loop (codeTextTurn text stop) (text.length + 1) ([], start, start)

/-- The bracket that closes another one must be known. -/
def closer (c : Char) : Except (Halt Fault) Char :=
  match closer? c with
  | none => .error .unknownKey
  | some expected => return expected

def closingTurn (opening : Char) (start : Nat) :
    List Char × Nat → Except (Halt Fault) (List Char × Nat ⊕ Nat)
  | (stack, place) =>
    if place < text.length then do
      match ← skipOpaque text place with
      | some skipped => return .inl (stack, skipped)
      | none => do
        let c ← charAt text place
        if (closer? c).isSome then return .inl ((← closer c) :: stack, place + 1)
        else if isCloser c then
          match stack with
          | [] => .error .pastEnd
          | expected :: outer =>
            if c ≠ expected then raise (.wrongClosing expected c) place
            else if outer.isEmpty then return .inr place
            else return .inl (outer, place + 1)
        else return .inl (stack, place + 1)
    else raise (.unbalanced opening) start

/-- The offset of the bracket that closes the one at an offset. -/
def findClosing (offset : Nat) : Except (Halt Fault) Nat := do
  let opening ← charAt text offset
  let expected ← closer opening
  loop (closingTurn text opening offset) (text.length + 1) ([expected], offset + 1)

def splitTurn (stop : Nat) :
    List Span × Nat × Nat → Except (Halt Fault) (List Span × Nat × Nat ⊕ List Span)
  | (spans, first, place) =>
    if place < stop then do
      match ← skipOpaque text place with
      | some skipped => return .inl (spans, first, skipped)
      | none => do
        let c ← charAt text place
        if (closer? c).isSome then return .inl (spans, first, (← findClosing text place) + 1)
        else if c = ',' then return .inl (spans ++ [⟨first, place⟩], place + 1, place + 1)
        else return .inl (spans, first, place + 1)
    else return .inr (spans ++ [⟨first, stop⟩])

/-- The spans up to `stop` that commas outside brackets separate. -/
def splitTopLevel (start stop : Nat) : Except (Halt Fault) (List Span) :=
  loop (splitTurn text stop) (text.length + 1) ([], start, start)

end

variable {text rest : List Char} {offset place stop : Nat} {c : Char}

/-! ## Code between comments -/

theorem startsComment_iff : startsComment (c :: rest) = true ↔
    c = '#' ∨ (c = '<' ∧ rest.head? = some '#') := by
  constructor
  · intro h
    unfold startsComment at h
    split at h
    · next heq => exact .inl (List.cons.inj heq).1
    · next heq =>
      obtain ⟨rfl, rfl⟩ := List.cons.inj heq
      exact .inr ⟨rfl, rfl⟩
    · cases h
  · rintro (rfl | ⟨rfl, hhead⟩)
    · rfl
    · obtain ⟨rest, rfl⟩ := List.head?_eq_some_iff.1 hhead
      rfl

theorem opensComment_eq (h : text.drop offset = c :: rest) :
    opensComment text c offset = startsComment (c :: rest) := by
  rw [Bool.eq_iff_iff, startsComment_iff, opensComment, Bool.or_eq_true, beq_iff_eq, startsAt_iff h]

theorem startsComment_of_isComment {lexeme : Lexeme (c :: rest)}
    (hscan : Lexeme.scan c rest = .ok lexeme) (hkind : lexeme.kind.isComment = true) :
    startsComment (c :: rest) = true := by
  by_contra hnot
  rw [startsComment_iff, not_or] at hnot
  unfold Lexeme.scan at hscan
  split at hscan
  · exact hnot.2 ⟨rfl, rfl⟩
  · exact hnot.1 rfl
  · cases hscan
    cases hkind
  · split at hscan
    · rw [ofLength?_kind _ hscan] at hkind
      cases hkind
    · cases hscan
      cases hkind
  · rw [ofLength?_kind _ hscan] at hkind
    cases hkind
  · rw [ofLength?_kind _ hscan] at hkind
    cases hkind
  · cases hscan
    cases hkind

theorem skipComment_eq (h : text.drop offset = c :: rest)
    (hcomment : startsComment (c :: rest) = true) :
    skipComment text offset =
      settled (fun lexeme => offset + lexeme.length) (Lexeme.scanAt offset c rest) := by
  rw [skipComment, skipOpaque_eq h]
  rcases hscan : Lexeme.scanAt offset c rest with fault | lexeme
  · rfl
  · have hkind := isComment_of_startsComment (scanAt_eq_ok_iff.1 hscan) hcomment
    have hplain : lexeme.kind ≠ .plain := fun hplain => by
      rw [hplain] at hkind
      cases hkind
    simp only [settled, lexemeEnd, if_neg hplain, bind, Except.bind, pure, Except.pure]

theorem drop_lexeme_of_drop (h : text.drop offset = c :: rest) (length : Nat) :
    text.drop (offset + length) = (c :: rest).drop length := by
  rw [← h, List.drop_drop]

theorem exists_drop_of_lt (h : place < text.length) : ∃ c rest, text.drop place = c :: rest :=
  List.exists_cons_of_ne_nil fun hnil => absurd (List.drop_eq_nil_iff.1 hnil) (Nat.not_le.2 h)

/-- What is skipped from a place on. -/
def triviaFrom (text : List Char) (stop place : Nat) : Except (Halt Fault) Nat :=
  settled Cursor.offset (skipTriviaFrom stop place (text.drop place))

theorem keeps_triviaTurn (hstop : stop ≤ text.length) (place : Nat) :
    Text.Keeps (triviaFrom text stop) (fun place => text.length - place) (fun _ => True) place
      (triviaTurn text stop place) := by
  rw [triviaTurn]
  by_cases hlt : place < stop
  swap
  · rw [if_neg hlt, Nat.min_eq_right (Nat.not_lt.1 hlt)]
    simp only [pure, Except.pure, Text.Keeps, triviaFrom, skipTriviaFrom_past (Nat.not_lt.1 hlt)]
    rfl
  obtain ⟨c, rest, hdrop⟩ := exists_drop_of_lt (Nat.lt_of_lt_of_le hlt hstop)
  have hlength := Text.length_of_drop hdrop
  have hrest := Text.drop_succ_of_drop hdrop
  have hfrom : triviaFrom text stop place =
      settled Cursor.offset (skipTriviaFrom stop place (c :: rest)) := by rw [triviaFrom, hdrop]
  rw [skipTriviaFrom, if_pos hlt] at hfrom
  rw [if_pos hlt, Text.charAt_of_drop hdrop]
  simp only [bind, Except.bind, opensComment_eq hdrop]
  by_cases hblank : Text.isBlank c = true
  · rw [if_pos hblank] at hfrom ⊢
    refine ⟨trivial, by dsimp only; omega, ?_⟩
    rw [hfrom, triviaFrom, hrest]
  rw [if_neg hblank] at hfrom ⊢
  by_cases hcomment : startsComment (c :: rest) = true
  · rw [if_pos hcomment] at hfrom ⊢
    rw [skipComment_eq hdrop hcomment]
    rcases hscan : Lexeme.scanAt place c rest with fault | lexeme
    · rw [hscan] at hfrom
      exact hfrom
    · rw [hscan] at hfrom
      have hpos := lexeme.length_pos
      refine ⟨trivial, by dsimp only; omega, ?_⟩
      rw [hfrom, triviaFrom, drop_lexeme_of_drop hdrop]
      rfl
  rw [if_neg hcomment] at hfrom ⊢
  by_cases hescape : c = '\x60' ∧ place + 1 < stop
  · obtain ⟨rfl, hnext⟩ := hescape
    obtain ⟨next, rest, rfl⟩ : ∃ next rest', rest = next :: rest' := by
      rw [← hrest]
      exact exists_drop_of_lt (Nat.lt_of_lt_of_le hnext hstop)
    rw [if_pos ⟨rfl, hnext⟩, Text.charAt_of_drop hrest]
    have hcontinues : continuesLine ('\x60' :: next :: rest) = isLineEnd next := rfl
    rw [hcontinues] at hfrom
    simp only [hnext, decide_true, Bool.and_true] at hfrom
    by_cases hline : isLineEnd next = true
    · rw [if_pos hline] at hfrom
      simp only [hline, if_true]
      refine ⟨trivial, by dsimp only; omega, ?_⟩
      rw [hfrom, triviaFrom, drop_two_of_drop hrest]
      rfl
    · rw [if_neg hline] at hfrom
      simp only [hline, Nat.min_eq_left (Nat.le_of_lt hlt)]
      exact hfrom
  · rw [if_neg hescape, Nat.min_eq_left (Nat.le_of_lt hlt)]
    rw [if_neg] at hfrom
    · exact hfrom
    · rw [Bool.and_eq_true, decide_eq_true_eq]
      rintro ⟨hcontinues, hnext⟩
      refine hescape ⟨?_, hnext⟩
      unfold continuesLine at hcontinues
      split at hcontinues
      · next heq => exact (List.cons.inj heq).1
      · cases hcontinues

/-- The cursor stands where it says, unless that is behind a place where all reading stops. -/
def Tracks (text : List Char) (stop : Nat) (cursor : Cursor) : Prop :=
  cursor.offset < stop → Cursor.At text cursor

theorem tracks_clip {s : List Char} (hat : Tracks text stop ⟨offset, s⟩) :
    Tracks text stop (Cursor.clip ⟨offset, s⟩ stop) := by
  intro hlt
  have hoffset : offset < stop := (min_lt_iff.1 hlt).resolve_right (Nat.lt_irrefl stop)
  rw [Cursor.clip, Nat.min_eq_left (Nat.le_of_lt hoffset)]
  exact hat hoffset

theorem tracks_skipTriviaFrom {s : List Char} {cursor : Cursor} (hat : Tracks text stop ⟨offset, s⟩)
    (h : skipTriviaFrom stop offset s = .ok cursor) : Tracks text stop cursor := by
  fun_induction skipTriviaFrom stop offset s with
  | case1 offset =>
      cases h
      exact tracks_clip hat
  | case2 offset c rest hlt _ ih => exact ih (fun _ => (hat hlt).cons.2.2) h
  | case3 offset c rest hlt _ _ ih =>
      obtain ⟨lexeme, _, hskipped⟩ := bind_eq_ok.1 h
      exact ih lexeme (fun _ => (hat hlt).drop _) hskipped
  | case4 offset c rest hlt _ _ _ ih => exact ih (fun _ => (hat hlt).cons.2.2.drop 1) h
  | case5 offset c rest =>
      cases h
      exact hat
  | case6 offset c rest =>
      cases h
      exact tracks_clip hat

theorem skipTrivia_eq {cursor : Cursor} (hstop : stop ≤ text.length) (h : Tracks text stop cursor) :
    skipTrivia text cursor.offset stop = settled Cursor.offset (PowerShell.skipTrivia cursor stop) := by
  rw [skipTrivia, Text.loop_eq (fun place _ => keeps_triviaTurn hstop place) trivial (by omega),
    triviaFrom, PowerShell.skipTrivia]
  by_cases hlt : cursor.offset < stop
  · rw [h hlt]
  · rw [skipTriviaFrom_past (Nat.not_lt.1 hlt), skipTriviaFrom_past (Nat.not_lt.1 hlt)]
    rfl

theorem slice_succ {start : Nat} (hle : start ≤ place) (hdrop : text.drop place = c :: rest) :
    slice text start (place + 1) = slice text start place ++ [c] := by
  have hget : (text.drop start)[place - start]? = some c := by
    rw [List.getElem?_drop, Nat.add_sub_cancel' hle, ← List.head?_drop, hdrop]
    rfl
  rw [slice, slice, Span.slice, Span.slice]
  dsimp only
  rw [Nat.sub_add_comm hle, List.take_add_one, hget]
  rfl

theorem length_slice {start : Nat} (hplace : place ≤ text.length) :
    (slice text start place).length = place - start := by
  rw [slice, Span.slice, List.length_take, List.length_drop]
  dsimp only
  omega

/-- Where the text from an offset to a place ends without the blanks at its end. -/
def trimmed (text : List Char) (start place : Nat) : Except (Halt Fault) Nat :=
  .ok (start + (Text.trimEnd (slice text start place)).length)

theorem keeps_trimTurn {start : Nat} (hplace : start ≤ place ∧ place ≤ text.length) :
    Text.Keeps (trimmed text start) id (fun place => start ≤ place ∧ place ≤ text.length) place
      (trimTurn text start place) := by
  have hlength := @length_slice text place start hplace.2
  rw [trimTurn]
  by_cases hlt : start < place
  swap
  · rw [if_neg hlt]
    have hempty : slice text start place = [] := List.eq_nil_of_length_eq_zero (by omega)
    have heq : start = place := by omega
    rw [← heq] at hempty ⊢
    simp only [pure, Except.pure, Text.Keeps, trimmed, hempty]
    rfl
  obtain ⟨place, rfl⟩ := Nat.exists_eq_add_one_of_ne_zero (Nat.ne_of_gt (Nat.zero_lt_of_lt hlt))
  obtain ⟨c, rest, hdrop⟩ := exists_drop_of_lt (Nat.lt_of_succ_le hplace.2)
  have hslice := slice_succ (Nat.le_of_lt_succ hlt) hdrop
  rw [if_pos hlt, Nat.add_sub_cancel, Text.charAt_of_drop hdrop]
  simp only [bind, Except.bind]
  by_cases hblank : Text.isBlank c = true
  · rw [if_pos hblank]
    refine ⟨⟨Nat.le_of_lt_succ hlt, Nat.le_of_succ_le hplace.2⟩, Nat.lt_succ_self _, ?_⟩
    rw [trimmed, trimmed, hslice, Text.trimEnd_concat, if_pos hblank]
  · rw [if_neg hblank]
    simp only [pure, Except.pure, Text.Keeps, trimmed, hslice, Text.trimEnd_concat, if_neg hblank]
    rw [← hslice, hlength, Nat.add_sub_cancel' (Nat.le_of_lt hlt)]

theorem slice_prefix {start : Nat} {shorter : List Char}
    (h : shorter <+: slice text start stop) : slice text start (start + shorter.length) = shorter := by
  have hle := h.length_le
  rw [slice, Span.slice, List.length_take] at hle
  rw [List.prefix_iff_eq_take, slice, Span.slice, List.take_take, Nat.min_eq_left (by omega)] at h
  rw [slice, Span.slice, Nat.add_sub_cancel_left]
  exact h.symm

/-- Between the offsets is the trimmed text. -/
theorem exists_trimEnd {start : Nat} (hstart : start ≤ stop) (hstop : stop ≤ text.length) :
    ∃ place, trimEnd text start stop = .ok place ∧
      slice text start place = Text.trimEnd (slice text start stop) :=
  ⟨_, Text.loop_eq (fun _ => keeps_trimTurn) ⟨hstart, hstop⟩ (Nat.lt_succ_of_le hstop),
    slice_prefix (List.rdropWhile_prefix _ _)⟩

theorem continuesLine_iff : continuesLine (c :: rest) = true ↔
    c = '\x60' ∧ ∃ next behind, rest = next :: behind ∧ isLineEnd next = true := by
  constructor
  · intro h
    unfold continuesLine at h
    split at h
    · next heq =>
      obtain ⟨rfl, rfl⟩ := List.cons.inj heq
      exact ⟨rfl, _, _, rfl, h⟩
    · cases h
  · rintro ⟨rfl, next, behind, rfl, hnext⟩
    exact hnext

/-- Does an escaped line end stand at an offset? -/
theorem escapesLine_iff (h : text.drop offset = c :: rest) :
    (c = '\x60' ∧ (startsAt text (offset + 1) ['\r'] = true ∨ startsAt text (offset + 1) ['\n'] = true)) ↔
      continuesLine (c :: rest) = true := by
  have hrest := Text.drop_succ_of_drop h
  rw [continuesLine_iff, Text.startsAt_singleton_iff hrest, Text.startsAt_singleton_iff hrest]
  refine and_congr_right fun _ => ?_
  rcases rest with _ | ⟨next, behind⟩
  · simp
  · simp [isLineEnd]

theorem isComment_iff {lexeme : Lexeme (c :: rest)} (hscan : Lexeme.scan c rest = .ok lexeme) :
    lexeme.kind.isComment = startsComment (c :: rest) :=
  Bool.eq_iff_iff.2 ⟨startsComment_of_isComment hscan, isComment_of_startsComment hscan⟩

/-- Where code ends that has ended at `last` so far. -/
def codeEndOn (text : List Char) (stop : Nat) : Nat × Nat → Except (Halt Fault) Nat
  | (last, place) => settled id (codeEndFrom stop last place (text.drop place))

theorem keeps_codeEndTurn (hstop : stop ≤ text.length) (state : Nat × Nat) :
    Text.Keeps (codeEndOn text stop) (fun state => text.length - state.2) (fun _ => True) state
      (codeEndTurn text stop state) := by
  obtain ⟨last, place⟩ := state
  rw [codeEndTurn]
  by_cases hlt : place < stop
  swap
  · rw [if_neg hlt]
    simp only [pure, Except.pure, Text.Keeps, codeEndOn, codeEndFrom_past (Nat.not_lt.1 hlt)]
    rfl
  obtain ⟨c, rest, hdrop⟩ := exists_drop_of_lt (Nat.lt_of_lt_of_le hlt hstop)
  have hlength := Text.length_of_drop hdrop
  have hrest := Text.drop_succ_of_drop hdrop
  have hfrom : codeEndOn text stop (last, place) =
      settled id (codeEndFrom stop last place (c :: rest)) := by rw [codeEndOn, hdrop]
  rw [codeEndFrom, if_pos hlt] at hfrom
  rw [if_pos hlt, Text.charAt_of_drop hdrop]
  simp only [bind, Except.bind, escapesLine_iff hdrop, opensComment_eq hdrop, skipOpaque_eq hdrop]
  by_cases hcontinues : continuesLine (c :: rest) = true
  · rw [if_pos hcontinues] at hfrom ⊢
    refine ⟨trivial, by dsimp only; omega, ?_⟩
    rw [hfrom, codeEndOn, ← hrest, List.drop_drop]
  rw [if_neg hcontinues] at hfrom ⊢
  rcases hscan : Lexeme.scanAt place c rest with fault | lexeme
  · rw [hscan] at hfrom
    exact hfrom
  have hpos := lexeme.length_pos
  have hscan' := scanAt_eq_ok_iff.1 hscan
  rw [hscan] at hfrom
  simp only [bind, Except.bind, isComment_iff hscan', ← drop_lexeme_of_drop hdrop] at hfrom
  by_cases hkind : lexeme.kind = .plain
  · have hcomment : startsComment (c :: rest) = false := by
      rw [← isComment_iff hscan', hkind]
      rfl
    simp only [settled, lexemeEnd, if_pos hkind]
    simp only [length_of_plain hscan' hkind, hkind, hcomment, Nat.min_eq_left (Nat.succ_le_of_lt hlt),
      decide_true, Bool.true_and, Bool.false_or] at hfrom
    by_cases hblank : Text.isBlank c = true
    · rw [if_pos hblank] at hfrom ⊢
      exact ⟨trivial, by dsimp only; omega, hfrom.symm⟩
    · rw [if_neg hblank] at hfrom ⊢
      exact ⟨trivial, by dsimp only; omega, hfrom.symm⟩
  · simp only [settled, lexemeEnd, if_neg hkind]
    simp only [decide_eq_false hkind, Bool.false_and, Bool.or_false] at hfrom
    by_cases hcomment : startsComment (c :: rest) = true
    · rw [if_pos hcomment] at hfrom ⊢
      exact ⟨trivial, by dsimp only; omega, hfrom.symm⟩
    · rw [if_neg hcomment] at hfrom ⊢
      exact ⟨trivial, by dsimp only; omega, hfrom.symm⟩

/-- What is found behind a place where all reading stops does not depend on the text there. -/
theorem apply_of_tracks {β : Type} {cursor : Cursor} (h : Tracks text stop cursor)
    (f : List Char → β) (hpast : stop ≤ cursor.offset → ∀ s s', f s = f s') :
    f (text.drop cursor.offset) = f cursor.rest := by
  by_cases hlt : cursor.offset < stop
  · rw [h hlt]
  · exact hpast (Nat.not_lt.1 hlt) _ _

theorem codeEnd_eq {cursor : Cursor} (hstop : stop ≤ text.length) (h : Tracks text stop cursor) :
    codeEnd text cursor.offset stop = settled id (PowerShell.codeEnd cursor stop) :=
  (Text.loop_eq (fun state _ => keeps_codeEndTurn hstop state) trivial (by dsimp only; omega)).trans
    (apply_of_tracks h (fun s => settled id (codeEndFrom stop cursor.offset cursor.offset s))
      fun hle s s' => by rw [codeEndFrom_past hle, codeEndFrom_past hle])

/-- The text that is shown for the code from a place on, behind what is shown before it. -/
def codeTextOn (text : List Char) (stop : Nat) :
    List Char × Nat × Nat → Except (Halt Fault) (List Char)
  | (shown, first, place) =>
    settled (fun more => shown ++ slice text first (min place stop) ++ more)
      (codeTextFrom stop place (text.drop place))

theorem slice_add {start : Nat} (hle : start ≤ place) (count : Nat) :
    slice text start (place + count) = slice text start place ++ (text.drop place).take count := by
  have hdrop : text.drop place = (text.drop start).drop (place - start) := by
    rw [List.drop_drop, Nat.add_sub_cancel' hle]
  rw [slice, slice, Span.slice, Span.slice, hdrop, Nat.sub_add_comm hle, List.take_add]

theorem slice_self (text : List Char) (offset : Nat) : slice text offset offset = [] := by
  rw [slice, Span.slice, Nat.sub_self, List.take_zero]

theorem settled_bind_ok {α β γ : Type} (shown : γ → α) (further : β → γ) (read : Except Fault β) :
    settled shown (read >>= fun found => .ok (further found)) = settled (shown ∘ further) read := by
  cases read <;> rfl

/-- Behind a lexeme the text goes on with what is shown for it. -/
theorem codeTextOn_lexeme {shown shown' piece : List Char} {first first' length : Nat}
    (hpiece : shown' ++ slice text first' (min (place + length) stop) =
      shown ++ slice text first place ++ piece) :
    settled (fun more => shown' ++ slice text first' (min (place + length) stop) ++ more)
        (codeTextFrom stop (place + length) (text.drop (place + length))) =
      settled (fun more => shown ++ slice text first place ++ more) (do
        let more ← codeTextFrom stop (place + length) (text.drop (place + length))
        return piece ++ more) := by
  rw [hpiece]
  refine Eq.trans ?_ (settled_bind_ok _ (piece ++ ·) _).symm
  refine congrArg (settled · _) (funext fun more => ?_)
  exact List.append_assoc _ _ _

theorem codeTextOn_min (shown : List Char) (next : Nat) :
    codeTextOn text stop (shown, min next stop, min next stop) =
      settled (fun more => shown ++ slice text (min next stop) (min next stop) ++ more)
        (codeTextFrom stop next (text.drop next)) := by
  rw [codeTextOn]
  rcases Nat.le_total next stop with hle | hle
  · rw [Nat.min_eq_left hle, Nat.min_eq_left hle]
  · rw [Nat.min_eq_right hle, Nat.min_self, codeTextFrom_past (Nat.le_refl stop),
      codeTextFrom_past hle]

theorem keeps_codeTextTurn (hstop : stop ≤ text.length) {state : List Char × Nat × Nat}
    (hstate : state.2.1 ≤ state.2.2 ∧ state.2.1 ≤ stop) :
    Text.Keeps (codeTextOn text stop) (fun state => text.length - state.2.2)
      (fun state => state.2.1 ≤ state.2.2 ∧ state.2.1 ≤ stop) state
      (codeTextTurn text stop state) := by
  obtain ⟨shown, first, place⟩ := state
  obtain ⟨hplace, hfirst⟩ := hstate
  dsimp only at hplace hfirst
  rw [codeTextTurn]
  by_cases hlt : place < stop
  swap
  · rw [if_neg hlt]
    simp only [pure, Except.pure, Text.Keeps, codeTextOn, codeTextFrom_past (Nat.not_lt.1 hlt),
      Nat.min_eq_right (Nat.not_lt.1 hlt), settled, List.append_nil]
  obtain ⟨c, rest, hdrop⟩ := exists_drop_of_lt (Nat.lt_of_lt_of_le hlt hstop)
  have hlength := Text.length_of_drop hdrop
  have hfrom : codeTextOn text stop (shown, first, place) =
      settled (fun more => shown ++ slice text first place ++ more)
        (codeTextFrom stop place (c :: rest)) := by
    rw [codeTextOn, hdrop, Nat.min_eq_left (Nat.le_of_lt hlt)]
  rw [codeTextFrom, if_pos hlt] at hfrom
  rw [if_pos hlt, Text.charAt_of_drop hdrop]
  simp only [bind, Except.bind, opensComment_eq hdrop]
  by_cases hcomment : startsComment (c :: rest) = true
  · rw [if_pos hcomment, skipComment_eq hdrop hcomment]
    rcases hscan : Lexeme.scanAt place c rest with fault | lexeme
    · rw [hscan] at hfrom
      exact hfrom
    have hpos := lexeme.length_pos
    have hnext : place < min (place + lexeme.length) stop := lt_min (Nat.lt_add_of_pos_right hpos) hlt
    rw [hscan] at hfrom
    simp only [bind, Except.bind, isComment_iff (scanAt_eq_ok_iff.1 hscan), if_pos hcomment,
      ← drop_lexeme_of_drop hdrop] at hfrom
    refine ⟨⟨Nat.le_refl _, Nat.min_le_right _ _⟩, by dsimp only; omega, ?_⟩
    rw [hfrom]
    refine (codeTextOn_min _ _).trans (codeTextOn_lexeme ?_)
    rw [slice_self, List.append_nil]
  rw [if_neg hcomment, skipOpaque_eq hdrop]
  rcases hscan : Lexeme.scanAt place c rest with fault | lexeme
  · rw [hscan] at hfrom
    exact hfrom
  have hpos := lexeme.length_pos
  have hscan' := scanAt_eq_ok_iff.1 hscan
  rw [hscan] at hfrom
  simp only [bind, Except.bind, isComment_iff hscan', if_neg hcomment,
    ← drop_lexeme_of_drop hdrop] at hfrom
  have hnext : codeTextOn text stop (shown, first, place + lexeme.length) =
      codeTextOn text stop (shown, first, place) := by
    rw [hfrom]
    refine codeTextOn_lexeme ?_
    have hmin : min (place + lexeme.length) stop = place + min lexeme.length (stop - place) := by
      omega
    rw [hmin, slice_add hplace, hdrop, List.append_assoc]
  by_cases hkind : lexeme.kind = .plain
  · rw [length_of_plain hscan' hkind] at hnext
    simp only [settled, lexemeEnd, if_pos hkind]
    exact ⟨⟨by dsimp only; omega, hfirst⟩, by dsimp only; omega, hnext⟩
  · simp only [settled, lexemeEnd, if_neg hkind]
    exact ⟨⟨by dsimp only; omega, hfirst⟩, by dsimp only; omega, hnext⟩

theorem codeText_eq {cursor : Cursor} (hstop : stop ≤ text.length) (hle : cursor.offset ≤ stop)
    (h : Tracks text stop cursor) :
    codeText text cursor.offset stop = settled id (PowerShell.codeText cursor stop) := by
  rw [codeText, Text.loop_eq (fun _ => keeps_codeTextTurn hstop) ⟨Nat.le_refl _, hle⟩
    (by dsimp only; omega), codeTextOn, Nat.min_eq_left hle, slice_self]
  exact apply_of_tracks h (fun s => settled id (codeTextFrom stop cursor.offset s))
    fun hle s s' => by rw [codeTextFrom_past hle, codeTextFrom_past hle]

/-! ## Brackets -/

theorem closer_eq {expected : Char} (h : closer? c = some expected) : closer c = .ok expected := by
  rw [closer, h]
  rfl

/-- Where the outermost open bracket closes, none of which is left when the stack is empty. -/
def closingOn (text : List Char) (opening : Char) (start : Nat) :
    List Char × Nat → Except (Halt Fault) Nat
  | ([], _) => .error .pastEnd
  | (expected :: outer, place) =>
    settled id (do
      match ← closingFrom expected outer place (text.drop place) with
      | some offset => return offset
      | none => throw ⟨.unbalanced opening, start⟩)

theorem closingOn_congr {opening : Char} {start place' : Nat} {expected expected' : Char}
    {outer outer' : List Char}
    (h : closingFrom expected outer place (text.drop place) =
      closingFrom expected' outer' place' (text.drop place')) :
    closingOn text opening start (expected :: outer, place) =
      closingOn text opening start (expected' :: outer', place') := by
  rw [closingOn, closingOn, h]

theorem keeps_closingTurn (opening : Char) (start : Nat) {state : List Char × Nat}
    (hstate : state.1 ≠ []) :
    Text.Keeps (closingOn text opening start) (fun state => text.length - state.2)
      (fun state => state.1 ≠ []) state (closingTurn text opening start state) := by
  obtain ⟨stack, place⟩ := state
  obtain ⟨expected, outer, rfl⟩ := List.exists_cons_of_ne_nil hstate
  rw [closingTurn]
  by_cases hlt : place < text.length
  swap
  · rw [if_neg hlt]
    have hnil : text.drop place = [] := List.drop_eq_nil_iff.2 (Nat.not_lt.1 hlt)
    simp only [raise, Text.Keeps, closingOn, hnil]
    rw [closingFrom.eq_def]
    rfl
  obtain ⟨c, rest, hdrop⟩ := exists_drop_of_lt hlt
  have hlength := Text.length_of_drop hdrop
  have hrest := Text.drop_succ_of_drop hdrop
  rw [if_pos hlt, Text.charAt_of_drop hdrop, skipOpaque_eq hdrop]
  rcases hscan : Lexeme.scanAt place c rest with fault | lexeme
  · simp only [settled, bind, Except.bind, Text.Keeps, closingOn, hdrop]
    rw [closingFrom.eq_def]
    simp only [hscan, bind, Except.bind]
  have hpos := lexeme.length_pos
  have hscan' := scanAt_eq_ok_iff.1 hscan
  by_cases hkind : lexeme.kind = .plain
  swap
  · simp only [settled, lexemeEnd, if_neg hkind, bind, Except.bind]
    refine ⟨hstate, by dsimp only; omega, closingOn_congr ?_⟩
    rw [hdrop, drop_lexeme_of_drop hdrop]
    exact (closingFrom_lexeme hscan' fun hplain => absurd hplain hkind).symm
  simp only [settled, lexemeEnd, if_pos hkind, bind, Except.bind]
  by_cases hopener : (closer? c).isSome = true
  · obtain ⟨inner, hinner⟩ := Option.isSome_iff_exists.1 hopener
    rw [if_pos hopener, closer_eq hinner]
    refine ⟨List.cons_ne_nil _ _, by dsimp only; omega, closingOn_congr ?_⟩
    rw [hdrop, hrest]
    exact (closingFrom_opener hscan' hkind hinner).symm
  rw [if_neg hopener]
  by_cases hcloser : isCloser c = true
  · rw [if_pos hcloser]
    have hclosing := @closingFrom_closer expected c outer rest place lexeme hscan' hkind hcloser
    rw [← hdrop] at hclosing
    by_cases hexpected : c = expected
    · rw [if_pos hexpected] at hclosing
      rw [if_neg (not_not.2 hexpected)]
      rcases outer with _ | ⟨next, outer⟩
      · simp only [List.isEmpty_nil, if_true, pure, Except.pure, Text.Keeps, closingOn, hclosing]
        rfl
      · refine ⟨List.cons_ne_nil _ _, by dsimp only; omega, closingOn_congr ?_⟩
        rw [hclosing, hrest]
    · rw [if_neg hexpected] at hclosing
      rw [if_pos hexpected]
      simp only [raise, Text.Keeps, closingOn, hclosing]
      rfl
  · rw [if_neg hcloser]
    refine ⟨hstate, by dsimp only; omega, closingOn_congr ?_⟩
    rw [hdrop, hrest, closingFrom_lexeme hscan' fun _ => ?_, length_of_plain hscan' hkind]
    · rfl
    · rw [isBracket, Bool.eq_false_iff.2 hopener, Bool.eq_false_iff.2 hcloser]
      rfl

/-- The text behind brackets of which the first one stands at a place. -/
theorem drop_group {close : Nat} (h : text.drop (place + 1) = rest) (hlt : place < close) :
    rest.drop (close - place) = text.drop (close + 1) := by
  rw [← h, List.drop_drop]
  congr 1
  omega

/-- From an opening bracket the one that closes it is found. -/
theorem findClosing_eq {expected : Char} (h : text.drop offset = c :: rest)
    (hopener : closer? c = some expected) :
    findClosing text offset = settled id (closing c expected ⟨offset + 1, rest⟩) := by
  have hlength := Text.length_of_drop h
  rw [findClosing, Text.charAt_of_drop h]
  simp only [bind, Except.bind, closer_eq hopener]
  rw [Text.loop_eq (fun _ => keeps_closingTurn c offset) (List.cons_ne_nil _ _)
    (by dsimp only; omega), closingOn, Text.drop_succ_of_drop h]
  rfl

/-! ## Parts -/

/-- The offsets of a part. -/
def spanOf (part : Part) : Span := ⟨part.start.offset, part.stop⟩

/-- The spans of the parts, of which some have been found. -/
def partsOn (text : List Char) (stop : Nat) :
    List Span × Nat × Nat → Except (Halt Fault) (List Span)
  | (spans, first, place) =>
    settled (fun parts => spans ++ parts.map spanOf)
      (splitFrom stop ⟨first, text.drop first⟩ place (text.drop place))

theorem keeps_splitTurn (hstop : stop ≤ text.length) (state : List Span × Nat × Nat) :
    Text.Keeps (partsOn text stop) (fun state => text.length - state.2.2) (fun _ => True) state
      (splitTurn text stop state) := by
  obtain ⟨spans, first, place⟩ := state
  rw [splitTurn]
  by_cases hlt : place < stop
  swap
  · rw [if_neg hlt]
    simp only [pure, Except.pure, Text.Keeps, partsOn, splitFrom_past (Nat.not_lt.1 hlt)]
    rfl
  obtain ⟨c, rest, hdrop⟩ := exists_drop_of_lt (Nat.lt_of_lt_of_le hlt hstop)
  have hlength := Text.length_of_drop hdrop
  have hrest := Text.drop_succ_of_drop hdrop
  rw [if_pos hlt, Text.charAt_of_drop hdrop, skipOpaque_eq hdrop]
  have hparts : partsOn text stop (spans, first, place) =
      settled (fun parts => spans ++ parts.map spanOf)
        (splitFrom stop ⟨first, text.drop first⟩ place (c :: rest)) := by
    rw [partsOn, hdrop]
  rcases hscan : Lexeme.scanAt place c rest with fault | lexeme
  · rw [splitFrom, if_pos hlt, hscan] at hparts
    exact hparts
  have hpos := lexeme.length_pos
  have hscan' := scanAt_eq_ok_iff.1 hscan
  by_cases hkind : lexeme.kind = .plain
  swap
  · simp only [settled, lexemeEnd, if_neg hkind, bind, Except.bind]
    refine ⟨trivial, by dsimp only; omega, ?_⟩
    rw [hparts, partsOn, splitFrom_lexeme hscan' (fun hplain => absurd hplain hkind)
      (fun hplain => absurd hplain hkind) hlt, drop_lexeme_of_drop hdrop]
  simp only [settled, lexemeEnd, if_pos hkind, bind, Except.bind]
  by_cases hopener : (closer? c).isSome = true
  · obtain ⟨expected, hexpected⟩ := Option.isSome_iff_exists.1 hopener
    rw [if_pos hopener, findClosing_eq hdrop hexpected]
    rw [splitFrom, if_pos hlt, hscan] at hparts
    simp only [bind, Except.bind, if_pos hkind, hexpected] at hparts
    rcases hclosing : closing c expected ⟨place + 1, rest⟩ with fault | close
    · rw [hclosing] at hparts
      exact hparts
    · have hbounds : place + 1 ≤ close := (closing_eq_iff.1 hclosing).bounds.1
      rw [hclosing] at hparts
      refine ⟨trivial, by dsimp only [id]; omega, ?_⟩
      rw [hparts, partsOn]
      dsimp only [id]
      rw [drop_group hrest hbounds]
  rw [if_neg hopener]
  by_cases hcomma : c = ','
  · subst hcomma
    rw [if_pos rfl]
    refine ⟨trivial, by dsimp only; omega, ?_⟩
    rw [hparts, splitFrom_comma hlt, partsOn, hrest]
    cases splitFrom stop ⟨place + 1, rest⟩ (place + 1) rest with
    | error fault => rfl
    | ok parts => exact congrArg Except.ok (List.append_assoc spans [⟨first, place⟩] _)
  · rw [if_neg hcomma]
    refine ⟨trivial, by dsimp only; omega, ?_⟩
    rw [splitFrom, if_pos hlt, hscan] at hparts
    simp only [bind, Except.bind, if_pos hkind, Option.not_isSome_iff_eq_none.1 hopener,
      if_neg hcomma] at hparts
    rw [hparts, partsOn, hrest]

/-- Up to an offset within the text the spans are those of the parts. -/
theorem splitTopLevel_eq {start : Cursor} (hstop : stop ≤ text.length) (h : Cursor.At text start) :
    splitTopLevel text start.offset stop =
      settled (List.map spanOf) (PowerShell.splitTopLevel start stop) := by
  rw [splitTopLevel, Text.loop_eq (fun state _ => keeps_splitTurn hstop state) trivial
    (by dsimp only; omega), partsOn, ← h]
  rfl

end DscAudit.PowerShell.ByOffset

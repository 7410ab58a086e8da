import DscAudit.PowerShell.Lexeme

/-!
# Code between comments

Blanks, comments and continued line ends may stand between any two pieces of code.  The functions
here skip them, find where code ends, and give the text of code with each comment as a single space.
-/

namespace DscAudit.PowerShell

/-- The character continues a line if an escape stands before it. -/
def isLineEnd (c : Char) : Bool := c == '\r' || c == '\n'

/-- Does the text start with an escaped line end? -/
def continuesLine : List Char → Bool
  | '\x60' :: c :: _ => isLineEnd c
  | _ => false

/-- Does the text start with a comment? -/
def startsComment : List Char → Bool
  | '#' :: _ => true
  | '<' :: '#' :: _ => true
  | _ => false

/-- The first place before `stop` that is neither blank nor within a comment, or `stop`. -/
def skipTriviaFrom (stop offset : Nat) (s : List Char) : Except Fault Cursor :=
  match s with
  | [] => .ok (Cursor.clip ⟨offset, []⟩ stop)
  | c :: rest =>
    if offset < stop then
      if Text.isBlank c then skipTriviaFrom stop (offset + 1) rest
      else if startsComment (c :: rest) then do
        let lexeme ← Lexeme.scanAt offset c rest
        have := lexeme.length_pos
        skipTriviaFrom stop (offset + lexeme.length) ((c :: rest).drop lexeme.length)
      else if continuesLine (c :: rest) && offset + 1 < stop then
        skipTriviaFrom stop (offset + 2) (rest.drop 1)
      else .ok ⟨offset, c :: rest⟩
    else .ok (Cursor.clip ⟨offset, c :: rest⟩ stop)
termination_by s.length
decreasing_by all_goals
  simp only [List.length_cons, List.length_drop]
  omega

/-- The first place before `stop` that is neither blank nor within a comment, or `stop`. -/
def skipTrivia (start : Cursor) (stop : Nat) : Except Fault Cursor :=
  skipTriviaFrom stop start.offset start.rest

theorem skipTriviaFrom_length_le {stop offset : Nat} {s : List Char} {cursor : Cursor}
    (h : skipTriviaFrom stop offset s = .ok cursor) : cursor.rest.length ≤ s.length := by
  fun_induction skipTriviaFrom stop offset s with
  | case1 => cases h; simp [Cursor.clip]
  | case2 offset c rest _ _ ih =>
    exact Nat.le_succ_of_le (ih h)
  | case3 offset c rest _ _ _ ih =>
    cases hscan : Lexeme.scanAt offset c rest with
    | error fault => simp [hscan, bind, Except.bind] at h
    | ok lexeme =>
      simp only [hscan, bind, Except.bind] at h
      exact Nat.le_trans (ih lexeme h) (by simp)
  | case4 offset c rest _ _ _ _ ih =>
    have := ih h
    simp only [List.length_drop, List.length_cons] at this ⊢
    omega
  | case5 => cases h; simp
  | case6 => cases h; simp [Cursor.clip]

theorem skipTrivia_length_le {start cursor : Cursor} {stop : Nat}
    (h : skipTrivia start stop = .ok cursor) : cursor.rest.length ≤ start.rest.length :=
  skipTriviaFrom_length_le h

/-- The offset behind the last lexeme before `stop` that is neither blank, a comment nor a continued
line end; `last` if there is none. -/
def codeEndFrom (stop last offset : Nat) (s : List Char) : Except Fault Nat :=
  match s with
  | [] => .ok last
  | c :: rest =>
    if offset < stop then
      if continuesLine (c :: rest) then codeEndFrom stop last (offset + 2) (rest.drop 1)
      else do
        let lexeme ← Lexeme.scanAt offset c rest
        have := lexeme.length_pos
        let next := offset + lexeme.length
        let last :=
          if lexeme.kind.isComment || (lexeme.kind = .plain && Text.isBlank c) then last
          else min next stop
        codeEndFrom stop last next ((c :: rest).drop lexeme.length)
    else .ok last
termination_by s.length
decreasing_by all_goals
  simp only [List.length_cons, List.length_drop]
  omega

/-- The offset behind the last code before `stop`, or the start if there is none. -/
def codeEnd (start : Cursor) (stop : Nat) : Except Fault Nat :=
  codeEndFrom stop start.offset start.offset start.rest

/-- The text up to `stop` with each comment replaced by a single space. -/
def codeTextFrom (stop offset : Nat) (s : List Char) : Except Fault (List Char) :=
  match s with
  | [] => .ok []
  | c :: rest =>
    if offset < stop then do
      let lexeme ← Lexeme.scanAt offset c rest
      have := lexeme.length_pos
      let shown :=
        if lexeme.kind.isComment then [' ']
        else (c :: rest).take (min lexeme.length (stop - offset))
      let more ← codeTextFrom stop (offset + lexeme.length) ((c :: rest).drop lexeme.length)
      return shown ++ more
    else .ok []
termination_by s.length
decreasing_by all_goals
  simp only [List.length_cons, List.length_drop]
  omega

/-- The text up to `stop` with each comment replaced by a single space. -/
def codeText (start : Cursor) (stop : Nat) : Except Fault (List Char) :=
  codeTextFrom stop start.offset start.rest

end DscAudit.PowerShell

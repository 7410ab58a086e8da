import DscAudit.PowerShell.Lexeme

/-!
# Matching brackets

Round, square and curly brackets nest.  Only plain lexemes count: a bracket within a string or a
comment matches nothing.
-/

namespace DscAudit.PowerShell

/-- The bracket that closes what the character opens. -/
def closer? : Char → Option Char
  | '(' => some ')'
  | '[' => some ']'
  | '\x7b' => some '\x7d'
  | _ => none

def isCloser (c : Char) : Bool := c == ')' || c == ']' || c == '\x7d'

/-- The offset of the bracket that closes the outermost open one, nothing if the text ends before it.
The innermost open bracket is closed by `expected`, those around it by `outer`. -/
def closingFrom (expected : Char) (outer : List Char) (offset : Nat) (s : List Char) :
    Except Fault (Option Nat) :=
  match s with
  | [] => .ok none
  | c :: rest => do
    let lexeme ← Lexeme.scanAt offset c rest
    have := lexeme.length_pos
    if lexeme.kind = .plain then
      match closer? c with
      | some inner => closingFrom inner (expected :: outer) (offset + 1) rest
      | none =>
        if isCloser c then
          if c = expected then
            match outer with
            | [] => return some offset
            | next :: outer => closingFrom next outer (offset + 1) rest
          else throw ⟨.wrongClosing expected c, offset⟩
        else closingFrom expected outer (offset + 1) rest
    else closingFrom expected outer (offset + lexeme.length) ((c :: rest).drop lexeme.length)
termination_by s.length
decreasing_by all_goals
  simp only [List.length_cons, List.length_drop]
  omega

/-- The offset of the bracket that closes the one before the cursor, which is `opening` and is closed
by `expected`. -/
def closing (opening expected : Char) (inside : Cursor) : Except Fault Nat := do
  match ← closingFrom expected [] inside.offset inside.rest with
  | some offset => return offset
  | none => throw ⟨.unbalanced opening, inside.offset - 1⟩

/-- Why no closing bracket can be given for an offset. -/
inductive ClosingError where
  | pastEnd
  | noBracket
  | fault (fault : Fault)

/-- The offset of the bracket that closes the one at an offset of a text. -/
def findClosing (text : List Char) (offset : Nat) : Except ClosingError Nat :=
  match text.drop offset with
  | [] => .error .pastEnd
  | opening :: rest =>
    match closer? opening with
    | none => .error .noBracket
    | some expected => (closing opening expected ⟨offset + 1, rest⟩).mapError .fault

/-- A part of a text: where it starts, and the offset where it stops. -/
structure Part where
  start : Cursor
  stop : Nat

/-- The parts that commas outside brackets separate, where `part` is the start of the first of them
and the scan goes on at the given offset. -/
def splitFrom (stop : Nat) (part : Cursor) (offset : Nat) (s : List Char) :
    Except Fault (List Part) :=
  match s with
  | [] => .ok [⟨part, stop⟩]
  | c :: rest =>
    if offset < stop then do
      let lexeme ← Lexeme.scanAt offset c rest
      have := lexeme.length_pos
      if lexeme.kind = .plain then
        match closer? c with
        | some expected => do
          let close ← closing c expected ⟨offset + 1, rest⟩
          splitFrom stop part (close + 1) (rest.drop (close - offset))
        | none =>
          if c = ',' then do
            let parts ← splitFrom stop ⟨offset + 1, rest⟩ (offset + 1) rest
            return ⟨part, offset⟩ :: parts
          else splitFrom stop part (offset + 1) rest
      else splitFrom stop part (offset + lexeme.length) ((c :: rest).drop lexeme.length)
    else .ok [⟨part, stop⟩]
termination_by s.length
decreasing_by all_goals
  simp only [List.length_cons, List.length_drop]
  omega

/-- The parts of a text up to an offset that commas outside brackets separate. -/
def splitTopLevel (start : Cursor) (stop : Nat) : Except Fault (List Part) :=
  splitFrom stop start start.offset start.rest

end DscAudit.PowerShell

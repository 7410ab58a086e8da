import DscAudit.Text.CharacterClass
import DscAudit.Text.Lines

/-!
# Lexemes of scripts

A script falls into lexemes: comments, strings, here-strings and escaped characters, in which
brackets and commas mean nothing, and single plain characters.  `Lexeme.scan` finds the lexeme that
a text starts with.  A lexeme is never empty and never longer than the text, so a walk over lexemes
always moves on and ends.
-/

namespace DscAudit.PowerShell

/-- Why a script cannot be read. -/
inductive Cause where
  | unterminatedComment
  | unterminatedString
  | unterminatedHereString
  | wrongClosing (expected found : Char)
  | unbalanced (opening : Char)
  | emptyParameter
  | noVariable
  | unexpectedAfterParameter (found : Char) (name : String)
  | noDefault (name : String)
  | unexpectedAfterArguments (owner : String)
  deriving DecidableEq

def Cause.message : Cause → String
  | unterminatedComment => "unterminated block comment"
  | unterminatedString => "unterminated string"
  | unterminatedHereString => "unterminated here-string"
  | wrongClosing expected found =>
    "expected \x60" ++ String.singleton expected ++ "\x60 but found \x60" ++ String.singleton found ++
      "\x60"
  | unbalanced opening => "unbalanced \x60" ++ String.singleton opening ++ "\x60"
  | emptyParameter => "empty parameter declaration"
  | noVariable => "expected a parameter variable"
  | unexpectedAfterParameter found name =>
    "unexpected \x60" ++ String.singleton found ++ "\x60 after parameter $" ++ name
  | noDefault name => "missing default value for parameter $" ++ name
  | unexpectedAfterArguments owner =>
    "unexpected text after arguments of attribute \x60" ++ owner ++ "\x60"

/-- A cause at an offset. -/
structure Fault where
  cause : Cause
  offset : Nat
  deriving DecidableEq

/-- The line and the column of a fault in the text. -/
def Fault.position (fault : Fault) (text : List Char) : Text.Position :=
  Text.positionAt text fault.offset

def Fault.message (fault : Fault) (text : List Char) : String :=
  let position := fault.position text
  toString position.line ++ ":" ++ toString position.column ++ ": " ++ fault.cause.message

/-- A place in a text: the offset and the text from there on. -/
structure Cursor where
  offset : Nat
  rest : List Char

namespace Cursor

/-- The start of a text. -/
def start (text : List Char) : Cursor := ⟨0, text⟩

def advance (cursor : Cursor) (count : Nat) : Cursor :=
  ⟨cursor.offset + count, cursor.rest.drop count⟩

/-- The text up to an offset. -/
def textTo (cursor : Cursor) (stop : Nat) : List Char := cursor.rest.take (stop - cursor.offset)

/-- The cursor, no farther than an offset.  Nothing is read behind that offset. -/
def clip (cursor : Cursor) (stop : Nat) : Cursor := ⟨min cursor.offset stop, cursor.rest⟩

end Cursor

/-- The kinds of lexemes. -/
inductive LexemeKind where
  | lineComment
  | blockComment
  | escape
  | hereString
  | singleQuoted
  | doubleQuoted
  | plain
  deriving DecidableEq, Repr

def LexemeKind.isComment (kind : LexemeKind) : Bool := kind == .lineComment || kind == .blockComment

/-- A lexeme that the text `s` starts with. -/
structure Lexeme (s : List Char) where
  kind : LexemeKind
  length : Nat
  length_pos : 0 < length
  length_le : length ≤ s.length

namespace Lexeme

/-- The length of a block comment behind its opening mark. -/
def blockCommentLength? : List Char → Option Nat
  | [] => none
  | '#' :: '>' :: _ => some 2
  | _ :: rest => (blockCommentLength? rest).map (· + 1)

/-- The length of a string in single quotes behind its first one.  Two of them in a row belong to the
string. -/
def singleQuotedLength? : List Char → Option Nat
  | [] => none
  | '\x27' :: '\x27' :: rest => (singleQuotedLength? rest).map (· + 2)
  | '\x27' :: _ => some 1
  | _ :: rest => (singleQuotedLength? rest).map (· + 1)

/-- The length of a string in double quotes behind its first one.  Two of them in a row, and an
escaped character, belong to the string. -/
def doubleQuotedLength? : List Char → Option Nat
  | [] => none
  | '\x60' :: _ :: rest => (doubleQuotedLength? rest).map (· + 2)
  | '"' :: '"' :: rest => (doubleQuotedLength? rest).map (· + 2)
  | '"' :: _ => some 1
  | _ :: rest => (doubleQuotedLength? rest).map (· + 1)

/-- Characters that may stand between a mark of a here-string and the end or the start of its line. -/
def isIndent (c : Char) : Bool := c == ' ' || c == '\t'

/-- Does a line end come next, blanks apart? -/
def opensHereString (s : List Char) : Bool :=
  match s.dropWhile isIndent with
  | c :: _ => c == '\r' || c == '\n'
  | [] => false

/-- Does the mark that closes a here-string come next, blanks apart? -/
def closesHereString (quote : Char) (s : List Char) : Bool :=
  [quote, '@'].isPrefixOf (s.dropWhile isIndent)

/-- The length of a here-string behind its opening mark: up to the first closing mark that comes
first on a line, blanks apart. -/
def hereStringLength? (quote : Char) : List Char → Option Nat
  | [] => none
  | c :: rest =>
    if c == '\n' && closesHereString quote rest then some ((rest.takeWhile isIndent).length + 3)
    else (hereStringLength? quote rest).map (· + 1)

theorem blockCommentLength?_le {s : List Char} {n : Nat} (h : blockCommentLength? s = some n) :
    n ≤ s.length := by
  fun_induction blockCommentLength? s generalizing n with
  | case1 => cases h
  | case2 => cases h; simp
  | case3 c s _ ih =>
    obtain ⟨m, hm, rfl⟩ := Option.map_eq_some_iff.1 h
    exact Nat.succ_le_succ (ih hm)

theorem singleQuotedLength?_le {s : List Char} {n : Nat} (h : singleQuotedLength? s = some n) :
    n ≤ s.length := by
  fun_induction singleQuotedLength? s generalizing n with
  | case1 => cases h
  | case2 s ih =>
    obtain ⟨m, hm, rfl⟩ := Option.map_eq_some_iff.1 h
    exact Nat.succ_le_succ (Nat.succ_le_succ (ih hm))
  | case3 => cases h; simp
  | case4 c s _ _ ih =>
    obtain ⟨m, hm, rfl⟩ := Option.map_eq_some_iff.1 h
    exact Nat.succ_le_succ (ih hm)

theorem doubleQuotedLength?_le {s : List Char} {n : Nat} (h : doubleQuotedLength? s = some n) :
    n ≤ s.length := by
  fun_induction doubleQuotedLength? s generalizing n with
  | case1 => cases h
  | case2 c s ih =>
    obtain ⟨m, hm, rfl⟩ := Option.map_eq_some_iff.1 h
    exact Nat.succ_le_succ (Nat.succ_le_succ (ih hm))
  | case3 s ih =>
    obtain ⟨m, hm, rfl⟩ := Option.map_eq_some_iff.1 h
    exact Nat.succ_le_succ (Nat.succ_le_succ (ih hm))
  | case4 => cases h; simp
  | case5 c s _ _ _ ih =>
    obtain ⟨m, hm, rfl⟩ := Option.map_eq_some_iff.1 h
    exact Nat.succ_le_succ (ih hm)

theorem hereStringLength?_le {quote : Char} {s : List Char} {n : Nat}
    (h : hereStringLength? quote s = some n) : n ≤ s.length := by
  fun_induction hereStringLength? quote s generalizing n with
  | case1 => cases h
  | case2 c rest hc =>
    cases h
    simp only [Bool.and_eq_true, closesHereString, List.isPrefixOf_iff_prefix] at hc
    have hle := hc.2.length_le
    have hsplit := congrArg List.length (List.takeWhile_append_dropWhile (p := isIndent) (l := rest))
    simp only [List.length_append, List.length_cons, List.length_nil] at hle hsplit ⊢
    omega
  | case3 c rest _ ih =>
    obtain ⟨m, hm, rfl⟩ := Option.map_eq_some_iff.1 h
    exact Nat.succ_le_succ (ih hm)

/-- The lexeme of a kind that ends as given, or the cause that it does not end. -/
def ofLength? (kind : LexemeKind) (cause : Cause) (s : List Char) (skipped : Nat) (n? : Option Nat)
    (pos : 0 < skipped) (le : ∀ n, n? = some n → skipped + n ≤ s.length) : Except Cause (Lexeme s) :=
  match n?, le with
  | some n, le => .ok ⟨kind, skipped + n, Nat.add_pos_left pos n, le n rfl⟩
  | none, _ => .error cause

/-- The lexeme that a text starts with.  A string that starts with an at sign is a here-string if
nothing else follows on its line. -/
def scan (c : Char) (rest : List Char) : Except Cause (Lexeme (c :: rest)) :=
  match c, rest with
  | '<', '#' :: rest =>
    ofLength? .blockComment .unterminatedComment _ 2 (blockCommentLength? rest) Nat.two_pos
      fun n h => by
        have := blockCommentLength?_le h
        simp only [List.length_cons]
        omega
  | '#', rest =>
    .ok ⟨.lineComment, 1 + (rest.takeWhile (· != '\n')).length, by omega, by
      have := (List.takeWhile_sublist (· != '\n') (l := rest)).length_le
      simp only [List.length_cons]
      omega⟩
  | '\x60', rest =>
    .ok ⟨.escape, min 2 (rest.length + 1), by omega, by simp only [List.length_cons]; omega⟩
  | '@', quote :: rest =>
    if (quote == '\x27' || quote == '"') && opensHereString rest then
      ofLength? .hereString .unterminatedHereString _ 2 (hereStringLength? quote rest) Nat.two_pos
        fun n h => by
          have := hereStringLength?_le h
          simp only [List.length_cons]
          omega
    else .ok ⟨.plain, 1, Nat.one_pos, by simp⟩
  | '\x27', rest =>
    ofLength? .singleQuoted .unterminatedString _ 1 (singleQuotedLength? rest) Nat.one_pos
      fun n h => by
        have := singleQuotedLength?_le h
        simp only [List.length_cons]
        omega
  | '"', rest =>
    ofLength? .doubleQuoted .unterminatedString _ 1 (doubleQuotedLength? rest) Nat.one_pos
      fun n h => by
        have := doubleQuotedLength?_le h
        simp only [List.length_cons]
        omega
  | _, _ => .ok ⟨.plain, 1, Nat.one_pos, by simp⟩

/-- The lexeme at an offset, or the fault there. -/
def scanAt (offset : Nat) (c : Char) (rest : List Char) : Except Fault (Lexeme (c :: rest)) :=
  match scan c rest with
  | .ok lexeme => .ok lexeme
  | .error cause => .error ⟨cause, offset⟩

/-- What follows a lexeme is shorter than the text. -/
theorem length_drop_lt {c : Char} {rest : List Char} (lexeme : Lexeme (c :: rest)) :
    ((c :: rest).drop lexeme.length).length < (c :: rest).length := by
  have := lexeme.length_pos
  simp only [List.length_drop, List.length_cons]
  omega

end Lexeme

end DscAudit.PowerShell

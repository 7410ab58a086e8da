import DscAudit.Text.CharacterClass
import DscAudit.Text.Digit
import DscAudit.Text.LetterCase
import DscAudit.Value.Basic

/-!
# Tokens of data files

A data file holds one literal table.  Its text falls into tokens: the brackets of tables and arrays,
separators, strings in single or double quotes, numbers, the three constants and bare words.  Blanks,
comments and continued line ends stand between tokens.  Each token carries the place where it starts.
-/

namespace DscAudit.DataFile

open Decimal (Binary64)

/-- A token of a data file. -/
inductive Token where
  | newLine
  | openTable
  | openArray
  | closeTable
  | closeArray
  | comma
  | semicolon
  | equals
  | string (content : String)
  | constant (value : Value)
  | word (name : String)

/-- What a message calls the token, or the end of the text where there is none. -/
def Token.kind : Option Token → String
  | none => "eof"
  | some .newLine => "newline"
  | some .openTable => "@\x7b"
  | some .openArray => "@("
  | some .closeTable => "\x7d"
  | some .closeArray => ")"
  | some .comma => ","
  | some .semicolon => ";"
  | some .equals => "="
  | some (.string _) => "string"
  | some (.constant _) => "literal"
  | some (.word _) => "word"

/-- Why a text is no data file. -/
inductive Cause where
  | unterminatedComment
  | unterminatedString
  | unsupportedVariable (name : String)
  | unexpectedCharacter (c : Char)
  | expected (wanted found : Option Token)
  | contentAfterTable
  | noKey (found : Option Token)
  | noSeparatorAfter (key : String)
  | unsupportedValue (found : Option Token)
  | noSeparatorInArray

def Cause.message : Cause → String
  | unterminatedComment => "unterminated block comment"
  | unterminatedString => "unterminated string"
  | unsupportedVariable name => "unsupported variable \x60$" ++ name ++ "\x60"
  | unexpectedCharacter c => "unexpected character \x60" ++ String.singleton c ++ "\x60"
  | expected wanted found =>
    "expected \x60" ++ Token.kind wanted ++ "\x60 but found \x60" ++ Token.kind found ++ "\x60"
  | contentAfterTable => "unexpected content after the top-level hashtable"
  | noKey found => "expected a key but found \x60" ++ Token.kind found ++ "\x60"
  | noSeparatorAfter key => "expected a newline or \x60;\x60 after \x60" ++ key ++ "\x60"
  | unsupportedValue (some (.word name)) => "unsupported value \x60" ++ name ++ "\x60"
  | unsupportedValue found => "unsupported value \x60" ++ Token.kind found ++ "\x60"
  | noSeparatorInArray => "expected a separator inside \x60@( )\x60"

/-- A cause at a line and a column, both counted from one.  The column of a string that does not end
is counted from the last line that the string reaches, so it may be zero or less. -/
structure Fault where
  cause : Cause
  line : Nat
  column : Int

def Fault.message (fault : Fault) : String :=
  toString fault.line ++ ":" ++ String.ofList (integerText fault.column) ++ ": " ++
    fault.cause.message

/-- How far a text is read: the offset, the number of the line, and the offset where it starts. -/
structure Place where
  offset : Nat
  line : Nat
  lineStart : Nat

namespace Place

/-- The start of a text. -/
def start : Place := ⟨0, 1, 0⟩

/-- The column of an offset on the line. -/
def columnOf (place : Place) (offset : Nat) : Int := offset - place.lineStart + 1

/-- The place after some characters that end no line. -/
def advance (place : Place) (count : Nat) : Place := { place with offset := place.offset + count }

/-- The place after a character. -/
def pass (place : Place) (c : Char) : Place :=
  if c == '\n' then ⟨place.offset + 1, place.line + 1, place.offset + 1⟩ else place.advance 1

/-- The place where the next line starts, if a line ends here. -/
def nextLine (place : Place) : Place := ⟨place.offset, place.line + 1, place.offset⟩

/-- A cause at an offset of the line. -/
def fault (place : Place) (cause : Cause) (offset : Nat) : Fault :=
  ⟨cause, place.line, place.columnOf offset⟩

end Place

/-- A token and where it starts. -/
structure Located where
  token : Token
  line : Nat
  column : Int

/-- The content of a block comment after its opening mark, and the text after its closing one. -/
def blockComment? : List Char → Option (List Char × List Char)
  | [] => none
  | '#' :: '>' :: rest => some ([], rest)
  | c :: rest => (blockComment? rest).map fun (content, rest) => (c :: content, rest)

theorem blockComment?_length {s content rest : List Char}
    (h : blockComment? s = some (content, rest)) : rest.length < s.length := by
  fun_induction blockComment? s generalizing content rest with
  | case1 => cases h
  | case2 =>
    cases h
    simp only [List.length_cons]
    omega
  | case3 c s _ ih =>
    obtain ⟨⟨_, _⟩, hs, heq⟩ := Option.map_eq_some_iff.1 h
    cases heq
    have := ih hs
    simp only [List.length_cons]
    omega

/-- The content of a string so far, the place behind it, and the text behind the closing quote,
nothing if there is none. -/
structure Quotation where
  content : List Char
  place : Place
  rest : Option (List Char)

def Quotation.cons (c : Char) (quotation : Quotation) : Quotation :=
  { quotation with content := c :: quotation.content }

/-- A string in single quotes after its first quote.  A quote in it is written twice. -/
def singleQuoted (place : Place) : List Char → Quotation
  | [] => ⟨[], place, none⟩
  | '\x27' :: '\x27' :: rest => (singleQuoted (place.advance 2) rest).cons '\x27'
  | '\x27' :: rest => ⟨[], place.advance 1, some rest⟩
  | c :: rest => (singleQuoted (place.pass c) rest).cons c

/-- The character that an escape stands for. -/
def escaped : Char → Char
  | 'n' => '\n'
  | 'r' => '\r'
  | 't' => '\t'
  | '0' => '\x00'
  | 'a' => '\x07'
  | 'b' => '\x08'
  | 'f' => '\x0c'
  | 'v' => '\x0b'
  | c => c

/-- A string in double quotes after its first quote.  A quote in it is written twice or escaped.  An
escaped line feed does not count as the end of a line. -/
def doubleQuoted (place : Place) : List Char → Quotation
  | [] => ⟨[], place, none⟩
  | '\x60' :: c :: rest => (doubleQuoted (place.advance 2) rest).cons (escaped c)
  | '"' :: '"' :: rest => (doubleQuoted (place.advance 2) rest).cons '"'
  | '"' :: rest => ⟨[], place.advance 1, some rest⟩
  | c :: rest => (doubleQuoted (place.pass c) rest).cons c

theorem singleQuoted_length {place : Place} {s rest : List Char}
    (h : (singleQuoted place s).rest = some rest) : rest.length < s.length := by
  fun_induction singleQuoted place s with
  | case1 => cases h
  | case2 place s ih =>
    have := ih h
    simp only [List.length_cons]
    omega
  | case3 => simp_all
  | case4 place c s _ _ ih =>
    have := ih h
    simp only [List.length_cons]
    omega

theorem doubleQuoted_length {place : Place} {s rest : List Char}
    (h : (doubleQuoted place s).rest = some rest) : rest.length < s.length := by
  fun_induction doubleQuoted place s with
  | case1 => cases h
  | case2 place c s ih =>
    have := ih h
    simp only [List.length_cons]
    omega
  | case3 place s ih =>
    have := ih h
    simp only [List.length_cons]
    omega
  | case4 => simp_all
  | case5 place c s _ _ _ ih =>
    have := ih h
    simp only [List.length_cons]
    omega

def isWordStart (c : Char) : Bool := c.isAlpha || c == '_'

def isWordPart (c : Char) : Bool := Text.isWordChar c || c == '.' || c == '-'

/-- The bare word that a text starts with, empty if there is none. -/
def spanWord : List Char → List Char × List Char
  | [] => ([], [])
  | c :: rest =>
    if isWordStart c then (c :: rest.takeWhile isWordPart, rest.dropWhile isWordPart)
    else ([], c :: rest)

/-- The constants by their names in lower case. -/
def constant? (name : List Char) : Option Value :=
  if name = "true".toList then some (.bool true)
  else if name = "false".toList then some (.bool false)
  else if name = "null".toList then some .null
  else none

/-- The digits of a fraction and the text after it, if the text starts with a point and a digit. -/
def fraction? : List Char → Option (List Char × List Char)
  | '.' :: c :: rest =>
    if Text.isDigit c then some (c :: rest.takeWhile Text.isDigit, rest.dropWhile Text.isDigit)
    else none
  | _ => none

/-- Can a number end before this text?  It cannot before a word character or a point. -/
def endsNumber : List Char → Bool
  | [] => true
  | c :: _ => !(Text.isWordChar c || c == '.')

/-- The number that a text starts with after its sign, and the text after it. -/
def unsignedNumber? (negative : Bool) (s : List Char) : Option (Value × List Char) :=
  let whole := s.takeWhile Text.isDigit
  let rest := s.dropWhile Text.isDigit
  if whole.isEmpty then none
  else
    let (value, rest) := match fraction? rest with
      | some (fraction, rest) =>
        (Value.float
          (.ofDecimal negative (Text.digitsValue (whole ++ fraction)) (-(fraction.length : Int))), rest)
      | none =>
        let n : Int := Text.digitsValue whole
        (Value.int (if negative then -n else n), rest)
    if endsNumber rest then some (value, rest) else none

/-- The number that a text starts with, and the text after it. -/
def number? : List Char → Option (Value × List Char)
  | '-' :: rest => unsignedNumber? true rest
  | s => unsignedNumber? false s

/-- One step through a text `s`: a token, or none if something was skipped; the place and the text
behind it. -/
structure Step (s : List Char) where
  token : Option Token
  place : Place
  rest : List Char
  shorter : rest.length < s.length

/-- Blanks are skipped; a byte order mark counts as one. -/
def isSkipped (c : Char) : Bool := c == ' ' || c == '\t' || c == '\r' || c == '\uFEFF'

/-- The token that a character is by itself. -/
def punctuation? : Char → Option Token
  | '\x7d' => some .closeTable
  | ')' => some .closeArray
  | ',' => some .comma
  | ';' => some .semicolon
  | '=' => some .equals
  | _ => none

/-- A string, or the fault that it does not end. -/
def ofQuotation {s : List Char} (start : Nat) (quotation : Quotation)
    (h : ∀ rest, quotation.rest = some rest → rest.length < s.length) : Except Fault (Step s) :=
  match hr : quotation.rest with
  | some rest => .ok ⟨some (.string (String.ofList quotation.content)), quotation.place, rest, h rest hr⟩
  | none => .error (quotation.place.fault .unterminatedString start)

/-- A number, a bare word, or the fault that the text starts with neither. -/
def plainStep (place : Place) (c : Char) (rest : List Char) : Except Fault (Step (c :: rest)) :=
  let s := c :: rest
  match number? s with
  | some (value, behind) =>
    if h : behind.length < s.length then
      .ok ⟨some (.constant value), place.advance (s.length - behind.length), behind, h⟩
    else .error (place.fault (.unexpectedCharacter c) place.offset)
  | none =>
    if isWordStart c then
      let name := c :: rest.takeWhile isWordPart
      .ok ⟨some (.word (String.ofList name)), place.advance name.length, rest.dropWhile isWordPart,
        Nat.lt_succ_of_le (List.dropWhile_sublist _).length_le⟩
    else .error (place.fault (.unexpectedCharacter c) place.offset)

/-- A constant after its dollar sign. -/
def constantStep (place : Place) (rest : List Char) : Except Fault (Step ('$' :: rest)) :=
  let (name, behind) := spanWord rest
  let lowered := Text.lower name
  match constant? lowered with
  | some value =>
    if h : behind.length < ('$' :: rest).length then
      .ok ⟨some (.constant value), place.advance (1 + name.length), behind, h⟩
    else .error (place.fault (.unsupportedVariable (String.ofList lowered)) place.offset)
  | none => .error (place.fault (.unsupportedVariable (String.ofList lowered)) place.offset)

theorem length_lt_cons_cons {a b : Char} (rest : List Char) : rest.length < (a :: b :: rest).length :=
  Nat.lt_succ_of_lt (Nat.lt_succ_self _)

/-- The step at the start of a text. -/
def step (place : Place) (c : Char) (rest : List Char) : Except Fault (Step (c :: rest)) :=
  match c, rest with
  | '\n', rest => .ok ⟨some .newLine, place.pass '\n', rest, Nat.lt_succ_self _⟩
  | '<', '#' :: rest =>
    match h : blockComment? rest with
    | some (content, behind) =>
      .ok ⟨none, (content.foldl Place.pass (place.advance 2)).advance 2, behind,
        Nat.lt_trans (blockComment?_length h) (length_lt_cons_cons rest)⟩
    | none => .error (place.fault .unterminatedComment place.offset)
  | '#', rest =>
    .ok ⟨none, place.advance (1 + (rest.takeWhile (· != '\n')).length), rest.dropWhile (· != '\n'),
      Nat.lt_succ_of_le (List.dropWhile_sublist _).length_le⟩
  | '\x60', '\n' :: rest => .ok ⟨none, (place.advance 2).nextLine, rest, length_lt_cons_cons rest⟩
  | '\x60', '\r' :: '\n' :: rest =>
    .ok ⟨none, (place.advance 3).nextLine, rest, Nat.lt_succ_of_lt (length_lt_cons_cons rest)⟩
  | '\x60', '\r' :: rest => .ok ⟨none, (place.advance 2).nextLine, rest, length_lt_cons_cons rest⟩
  | '@', '\x7b' :: rest => .ok ⟨some .openTable, place.advance 2, rest, length_lt_cons_cons rest⟩
  | '@', '(' :: rest => .ok ⟨some .openArray, place.advance 2, rest, length_lt_cons_cons rest⟩
  | '\x27', rest =>
    ofQuotation place.offset (singleQuoted (place.advance 1) rest) fun _ h =>
      Nat.lt_succ_of_lt (singleQuoted_length h)
  | '"', rest =>
    ofQuotation place.offset (doubleQuoted (place.advance 1) rest) fun _ h =>
      Nat.lt_succ_of_lt (doubleQuoted_length h)
  | '$', rest => constantStep place rest
  | c, rest =>
    if isSkipped c then .ok ⟨none, place.advance 1, rest, Nat.lt_succ_self _⟩
    else
      match punctuation? c with
      | some token => .ok ⟨some token, place.advance 1, rest, Nat.lt_succ_self _⟩
      | none => plainStep place c rest

/-- The tokens of a text from a place on, and the place where it ends. -/
def tokensFrom (place : Place) (s : List Char) : Except Fault (List Located × Place) :=
  match s with
  | [] => .ok ([], place)
  | c :: rest => do
    let next ← step place c rest
    have := next.shorter
    let (tokens, stop) ← tokensFrom next.place next.rest
    return match next.token with
      | some token => (⟨token, place.line, place.columnOf place.offset⟩ :: tokens, stop)
      | none => (tokens, stop)
termination_by s.length
decreasing_by exact this

/-- The tokens of a text, and the place where it ends. -/
def tokens (s : List Char) : Except Fault (List Located × Place) := tokensFrom .start s

end DscAudit.DataFile

import DscAudit.PowerShell.Bracket
import DscAudit.PowerShell.Code
import DscAudit.PowerShell.Declaration
import DscAudit.Text.CharacterClass
import DscAudit.Text.LetterCase

/-!
# Reading parameter blocks

A parameter block is the word `param` and round brackets.  Of the language only what stands in such
blocks is understood; all else is skipped lexeme by lexeme.
-/

namespace DscAudit.PowerShell

/-- The characters of a command name. -/
def isNamePart (c : Char) : Bool := Text.isWordChar c || c == '-'

/-- Can a keyword start behind the character?  None is part of a longer name, of a variable or of a
member access. -/
def keywordMayFollow : Option Char → Bool
  | none => true
  | some c => !(isNamePart c || c == '$' || c == '.' || c == ':')

def isIdentifierStart (c : Char) : Bool := c.isAlpha || c == '_'

def isIdentifierPart (c : Char) : Bool := c.isAlphanum || c == '_'

def isIdentifier : List Char → Bool
  | [] => false
  | c :: rest => isIdentifierStart c && rest.all isIdentifierPart

/-- The name and the value of an assignment.  Two equals signs in a row make none. -/
def assignment? : List Char → Option (List Char × List Char)
  | [] => none
  | c :: rest =>
    if isIdentifierStart c then
      match Text.trimStart (rest.dropWhile isIdentifierPart) with
      | '=' :: '=' :: _ => none
      | '=' :: value => some (c :: rest.takeWhile isIdentifierPart, Text.trim value)
      | _ => none
    else none

/-- An argument of an attribute. -/
inductive Argument where
  | named (argument : NamedArgument Span)
  | positional (text : String)

def Argument.named? : Argument → Option (NamedArgument Span)
  | named argument => some argument
  | positional _ => none

def Argument.positional? : Argument → Option String
  | named _ => none
  | positional text => some text

/-- The argument that a text at a span is. -/
def Argument.ofText (text : List Char) (span : Span) : Argument :=
  match assignment? text with
  | some (name, value) => .named ⟨String.ofList name, String.ofList value, false, span⟩
  | none =>
    if isIdentifier text then .named ⟨String.ofList text, "", true, span⟩
    else .positional (String.ofList text)

/-- The argument in a part of the argument list, if the part holds any code. -/
def readArgument (part : Part) : Except Fault (Option Argument) := do
  let start ← skipTrivia part.start part.stop
  let stop ← codeEnd start part.stop
  if start.offset < stop then
    let text ← codeText start stop
    return some (.ofText text ⟨start.offset, stop⟩)
  else return none

/-- The bracket that opens the arguments of an attribute, if it has any before `stop`.  Square
brackets before it belong to the name. -/
def findArguments (stop offset : Nat) (s : List Char) : Except Fault (Option Cursor) :=
  match s with
  | [] => .ok none
  | c :: rest =>
    if offset < stop then
      if c = '(' then .ok (some ⟨offset, c :: rest⟩)
      else if c = '[' then do
        let close ← closing '[' ']' ⟨offset + 1, rest⟩
        findArguments stop (close + 1) (rest.drop (close - offset))
      else findArguments stop (offset + 1) rest
    else .ok none
termination_by s.length
decreasing_by all_goals
  simp only [List.length_cons, List.length_drop]
  omega

/-- The attribute from a square bracket to the one that closes it. -/
def readAttribute (start : Cursor) (close : Nat) : Except Fault (Attribute Span) := do
  let span : Span := ⟨start.offset, close + 1⟩
  let inner ← skipTrivia (start.advance 1) close
  match ← findArguments close inner.offset inner.rest with
  | none => return ⟨String.ofList (Text.trimEnd (inner.textTo close)), [], [], true, span⟩
  | some paren =>
    let name := String.ofList (Text.trimEnd (inner.textTo paren.offset))
    let argumentsClose ← closing '(' ')' (paren.advance 1)
    let tail ← skipTrivia (paren.advance (1 + (argumentsClose - paren.offset))) close
    if tail.offset ≠ close then throw ⟨.unexpectedAfterArguments name, tail.offset⟩
    let parts ← splitTopLevel (paren.advance 1) argumentsClose
    let found ← parts.mapM readArgument
    let arguments := found.filterMap id
    return ⟨name, arguments.filterMap Argument.named?, arguments.filterMap Argument.positional?, false,
      span⟩

/-- The attributes before `stop`, and the place behind them. -/
def readAttributes (stop : Nat) (cursor : Cursor) :
    Except Fault (List (Attribute Span) × Cursor) :=
  match _hs : cursor.rest with
  | '[' :: rest =>
    if cursor.offset < stop then do
      let close ← closing '[' ']' ⟨cursor.offset + 1, rest⟩
      let first ← readAttribute cursor close
      match h : skipTrivia (cursor.advance (1 + (close - cursor.offset))) stop with
      | .error fault => throw fault
      | .ok next =>
        have := skipTrivia_length_le h
        let (more, behind) ← readAttributes stop next
        return (first :: more, behind)
    else .ok ([], cursor)
  | _ => .ok ([], cursor)
termination_by cursor.rest.length
decreasing_by
  simp only [Cursor.advance, _hs, List.length_drop, List.length_cons] at this ⊢
  omega

/-- The characters of a variable without braces. -/
def isVariablePart (c : Char) : Bool := Text.isWordChar c || c == ':' || c == '?'

/-- The name of the variable that a text starts with, and how many characters it takes. -/
def variableName? : List Char → Option (String × Nat)
  | '$' :: '\x7b' :: rest =>
    let inside := rest.takeWhile (· != '\x7d')
    if inside.length < rest.length then
      some (String.ofList (Text.trimBraces inside), inside.length + 3)
    else none
  | '$' :: rest =>
    let name := rest.takeWhile isVariablePart
    if name.isEmpty then none else some (String.ofList name, name.length + 1)
  | _ => none

/-- The default of a parameter behind its variable, and the offset behind the declaration. -/
def readDefault (name : String) (behind : Cursor) (stop : Nat) :
    Except Fault (Option String × Nat) := do
  let rest ← skipTrivia behind stop
  if rest.offset < stop then
    match rest.rest with
    | '=' :: _ =>
      let value ← skipTrivia (rest.advance 1) stop
      let last ← codeEnd value stop
      if last ≤ value.offset then throw ⟨.noDefault name, rest.offset⟩
      let text ← codeText value last
      return (some (String.ofList text), last)
    | c :: _ => throw ⟨.unexpectedAfterParameter c name, rest.offset⟩
    | [] => return (none, behind.offset)
  else return (none, behind.offset)

/-- The parameter declared from a cursor up to `stop`. -/
def readParameter (start : Cursor) (stop : Nat) : Except Fault (Parameter Span) := do
  let (attributes, place) ← readAttributes stop start
  match variableName? (place.textTo stop) with
  | none => throw ⟨.noVariable, place.offset⟩
  | some (name, length) =>
    let (default, last) ← readDefault name (place.advance length) stop
    return ⟨name, attributes, default, ⟨start.offset, last⟩⟩

/-- The parameters in the parts of a block, where `found` tells whether some came before.  The only
part that may be empty is the one of an empty block. -/
def readParameters (found : Bool) : List Part → Except Fault (List (Parameter Span))
  | [] => .ok []
  | part :: more => do
    let start ← skipTrivia part.start part.stop
    if start.offset < part.stop then
      let parameter ← readParameter start part.stop
      let parameters ← readParameters true more
      return parameter :: parameters
    else if found || !more.isEmpty then throw ⟨.emptyParameter, part.start.offset⟩
    else readParameters found more

/-- The block whose keyword is at `keyword`, inside the brackets that close at `close`. -/
def readBlock (keyword : Nat) (inside : Cursor) (close : Nat) : Except Fault (ParameterBlock Span) := do
  let parts ← splitTopLevel inside close
  let parameters ← readParameters false parts
  return ⟨parameters, ⟨keyword, close + 1⟩⟩

/-- The blocks of a text from an offset on, behind the given character. -/
def blocksFrom (previous : Option Char) (offset : Nat) (s : List Char) :
    Except Fault (List (ParameterBlock Span)) :=
  match s with
  | [] => .ok []
  | c :: rest => do
    let lexeme ← Lexeme.scanAt offset c rest
    have := lexeme.length_pos
    if lexeme.kind = .plain then
      if Text.isLetter c && keywordMayFollow previous then
        let word := c :: rest.takeWhile isNamePart
        let behind : Cursor := ⟨offset + word.length, rest.drop (word.length - 1)⟩
        have hbehind : behind.rest.length ≤ rest.length := by simp [behind]
        if Text.lower word = "param".toList then
          match h : skipTrivia behind (offset + rest.length + 1) with
          | .error fault => throw fault
          | .ok next =>
            have := skipTrivia_length_le h
            match hn : next.rest with
            | '(' :: inside => do
              let close ← closing '(' ')' ⟨next.offset + 1, inside⟩
              let block ← readBlock offset ⟨next.offset + 1, inside⟩ close
              let blocks ← blocksFrom (some ')') (close + 1) (inside.drop (close - next.offset))
              return block :: blocks
            | _ => blocksFrom word.getLast? behind.offset behind.rest
        else blocksFrom word.getLast? behind.offset behind.rest
      else blocksFrom (some c) (offset + 1) rest
    else
      blocksFrom ((c :: rest).take lexeme.length).getLast? (offset + lexeme.length)
        ((c :: rest).drop lexeme.length)
termination_by s.length
decreasing_by all_goals
  simp_all only [List.length_cons, List.length_drop]
  omega

/-- The parameter blocks of a text. -/
def parameterBlocks (text : List Char) : Except Fault (List (ParameterBlock Span)) :=
  blocksFrom none 0 text

/-- The parameters of all blocks of a text. -/
def parameters (text : List Char) : Except Fault (List (Parameter Span)) :=
  (parameterBlocks text).map fun blocks => blocks.flatMap (·.parameters)

end DscAudit.PowerShell

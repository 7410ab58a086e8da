import DscAudit.Yaml.Source

/-!
# Places in a YAML text

A cursor knows how much of the text comes behind it, and the line and the column where it is.  A line
ends with a line feed, a next-line character, a line separator or a paragraph separator; other ways to
end a line are line feeds already when a text is read.  If the text is broken off, to look beyond its end is
a fault there.
-/

namespace DscAudit.Yaml

structure Cursor where
  rest : List Char
  /-- No fewer than the characters of the text and one more, enough for every walk over its rest. -/
  bound : Nat
  isBroken : Bool
  index : Nat
  line : Nat
  column : Nat

/-- Does the character end a line? -/
def isBreak (c : Char) : Bool := c == '\n' || c == '\u0085' || c == '\u2028' || c == '\u2029'

/-- Does the character end a word: a blank or the end of a line? -/
def isSpace (c : Char) : Bool := c == ' ' || c == '\t' || isBreak c

/-- Is the next character, if there is one, of the given kind?  The end of the text counts as one. -/
def nextIsOrEnd (p : Char → Bool) (s : List Char) : Bool :=
  match s with
  | [] => true
  | c :: _ => p c

/-- Is there a next character, of the given kind? -/
def nextIs (p : Char → Bool) (s : List Char) : Bool :=
  match s with
  | [] => false
  | c :: _ => p c

/-- Is there the mark of the start or of the end of a document? -/
def startsMarker : List Char → Bool
  | '-' :: '-' :: '-' :: rest => nextIsOrEnd isSpace rest
  | '.' :: '.' :: '.' :: rest => nextIsOrEnd isSpace rest
  | _ => false

namespace Cursor

/-- The start of a text, which may be broken off. -/
def start (text : List Char) (isBroken : Bool) : Cursor := ⟨text, text.length + 1, isBroken, 0, 0, 0⟩

/-- The cursor behind the next character.  A byte order mark takes no column. -/
def forward (cursor : Cursor) : Cursor :=
  match cursor.rest with
  | [] => cursor
  | c :: rest =>
    let column :=
      if isBreak c then 0 else if c == '\uFEFF' then cursor.column else cursor.column + 1
    let line := if isBreak c then cursor.line + 1 else cursor.line
    { cursor with rest := rest, index := cursor.index + 1, line := line, column := column }

/-- The cursor behind a number of characters. -/
def advance (cursor : Cursor) : Nat → Cursor
  | 0 => cursor
  | count + 1 => cursor.forward.advance count

def next? (cursor : Cursor) : Option Char := cursor.rest.head?

/-- The text is invalid here. -/
def invalid {α : Type} (cursor : Cursor) : Except Fault α := .error ⟨.invalid, cursor.rest.isEmpty⟩

/-- The cursor behind all characters of a kind that come next. -/
def skip (cursor : Cursor) (p : Char → Bool) : Cursor :=
  cursor.advance (cursor.rest.takeWhile p).length

/-- The characters of a kind that come next, and the cursor behind them. -/
def span (cursor : Cursor) (p : Char → Bool) : List Char × Cursor :=
  (cursor.rest.takeWhile p, cursor.skip p)

/-- Looks at so many of the next characters. -/
def lookAt (cursor : Cursor) (count : Nat) : Except Fault Unit :=
  if cursor.isBroken && (cursor.rest.drop (count - 1)).isEmpty then .error ⟨.invalid, true⟩ else .ok ()

/-- Does the mark of the start or of the end of a document come next? -/
def isAtMarker (cursor : Cursor) : Except Fault Bool := do
  cursor.lookAt 3
  if [['-', '-', '-'], ['.', '.', '.']].contains (cursor.rest.take 3) then cursor.lookAt 4
  return startsMarker cursor.rest

/-- The line end that comes next, as the text that it stands for, and the cursor behind it. -/
def lineBreak? (cursor : Cursor) : Option (Char × Cursor) :=
  match cursor.rest with
  | c :: _ =>
    if isBreak c then some (if c == '\u2028' || c == '\u2029' then c else '\n', cursor.forward)
    else none
  | [] => none

/-- The cursor behind a comment, if one comes next. -/
def skipComment (cursor : Cursor) : Cursor :=
  if nextIs (· == '#') cursor.rest then cursor.skip (!isBreak ·) else cursor

/-- The cursor behind blanks and a comment up to the next line, if nothing else is left on this one. -/
def finishLine? (cursor : Cursor) : Option Cursor :=
  let cursor := (cursor.skip (· == ' ')).skipComment
  match cursor.lineBreak? with
  | some (_, behind) => some behind
  | none => if cursor.rest.isEmpty then some cursor else none

end Cursor

end DscAudit.Yaml

/-!
# Lines of a text

A line ends with a line feed, a carriage return, the two together, a vertical tab, a form feed, one
of three information separators, a next-line character, a line separator or a paragraph separator.
The character after the last line end starts no line if there is none.
-/

namespace DscAudit.Text

/-- Does the character end a line by itself? -/
def isLineBreak (c : Char) : Bool :=
  c == '\n' || c == '\r' || c == '\x0b' || c == '\x0c' || c == '\x1c' || c == '\x1d' ||
    c == '\x1e' || c == '\u0085' || c == '\u2028' || c == '\u2029'

/-- The lines of the second argument, the first of them begun by the characters of the first
argument, which are in reverse order. -/
def linesFrom (begun : List Char) : List Char → List (List Char)
  | [] => if begun.isEmpty then [] else [begun.reverse]
  | '\r' :: '\n' :: rest => begun.reverse :: linesFrom [] rest
  | c :: rest =>
    if isLineBreak c then begun.reverse :: linesFrom [] rest else linesFrom (c :: begun) rest

/-- The lines of a text, without their ends. -/
def lines (s : List Char) : List (List Char) := linesFrom [] s

/-- Every line end written as carriage return or as carriage return and line feed becomes a line
feed. -/
def normalizeNewlines : List Char → List Char
  | [] => []
  | '\r' :: '\n' :: rest => '\n' :: normalizeNewlines rest
  | '\r' :: rest => '\n' :: normalizeNewlines rest
  | c :: rest => c :: normalizeNewlines rest

theorem lines_nil : lines [] = [] := rfl

/-!
## Positions in a text

An offset counts the characters before a place.  Its position is the line and the column, both
counted from one, where lines end with line feeds only.
-/

/-- A place in a text, as an editor names it. -/
structure Position where
  line : Nat
  column : Nat
  deriving DecidableEq, Repr, Inhabited

/-- The position of an offset: the line feeds before it are counted, and the characters since the
last of them. -/
def positionAt (text : List Char) (offset : Nat) : Position :=
  let before := text.take offset
  { line := 1 + before.count '\n'
    column := 1 + (before.reverse.takeWhile (· != '\n')).length }

theorem positionAt_zero (text : List Char) : positionAt text 0 = { line := 1, column := 1 } := rfl

end DscAudit.Text

import DscAudit.File.Path
import DscAudit.Text.CharacterClass
import DscAudit.Text.Digit
import DscAudit.Text.LetterCase
import DscAudit.Text.Lines

/-!
# Issues that the markdown lint task prints

An issue stands on one line: the path of a markdown file, the line and perhaps the column in it, the
rule and perhaps its alias, and a message.  All other lines are ignored.
-/

namespace DscAudit.Tool

structure MarkdownIssue where
  path : String
  line : Nat
  column : Nat
  rule : String
  otherName : String
  message : String

namespace MarkdownIssue

/-- Digits that a text starts with, and the text after them. -/
def digits? (s : List Char) : Option (List Char × List Char) :=
  let digits := s.takeWhile Text.isDigit
  if digits.isEmpty then none else some (digits, s.dropWhile Text.isDigit)

/-- A column after its colon, if the text starts with one; zero if it does not. -/
def columnOf : List Char → Nat × List Char
  | ':' :: rest =>
    match digits? rest with
    | some (digits, rest) => (Text.digitsValue digits, rest)
    | none => (0, ':' :: rest)
  | s => (0, s)

def withoutColon : List Char → List Char
  | ':' :: rest => rest
  | s => s

/-- The name of a rule: two letters and three digits. -/
def rule? (s : List Char) : Option (List Char × List Char) :=
  match Text.afterWord? "md".toList s with
  | some (a :: b :: c :: rest) =>
    if [a, b, c].all Text.isDigit then some ('M' :: 'D' :: [a, b, c], rest) else none
  | _ => none

def isAliasPart (c : Char) : Bool := Text.isWordChar c || c == '/' || c == '-'

/-- An alias after its slash, if the text starts with one; empty if it does not. -/
def otherNameOf : List Char → List Char × List Char
  | '/' :: rest =>
    if (rest.takeWhile isAliasPart).isEmpty then ([], '/' :: rest)
    else (rest.takeWhile isAliasPart, rest.dropWhile isAliasPart)
  | s => ([], s)

/-- The issue with a path and the rest of its line, which is what follows the suffix of the path. -/
def behindPath? (path : List Char) : List Char → Option MarkdownIssue
  | ':' :: rest => do
    let (line, rest) ← digits? (Text.trimStart rest)
    let (column, rest) := columnOf rest
    let (rule, rest) ← rule? (← Text.afterBlanks? (withoutColon rest))
    let (otherName, rest) := otherNameOf rest
    let message ← Text.afterBlanks? rest
    if message.isEmpty then none
    else
      return {
        path := String.ofList path
        line := Text.digitsValue line
        column := column
        rule := String.ofList rule
        otherName := String.ofList otherName
        message := String.ofList (Text.trim message) }
  | _ => none

/-- The issue on a line whose path starts with the given characters, in reverse order.  The path ends
with the first suffix that the rest of an issue follows. -/
def ofLineFrom? (begun : List Char) : List Char → Option MarkdownIssue
  | [] => none
  | c :: rest =>
    let here :=
      if begun.isEmpty then none
      else
        match Text.afterWord? ".md".toList (c :: rest) with
        | some behind => behindPath? (begun.reverse ++ (c :: rest).take 3) behind
        | none => none
    here.or (ofLineFrom? (c :: begun) rest)

/-- The issue on a line. -/
def ofLine? (line : List Char) : Option MarkdownIssue := ofLineFrom? [] (Text.trim line)

/-- The path of a file as an issue shows it: relative to the module if the file lies in it. -/
def shownPath (root directory : Path) (raw : String) : String :=
  let path := Path.ofString (String.ofList (Text.trim raw.toList))
  if path.isAbsolute && !path.hasNull && !root.hasNull then
    match (path.resolve directory).relativeTo? (root.resolve directory) with
    | some relative => relative.toString
    | none => path.toString
  else path.toString

/-- The issues in the output of the task for the module in a directory. -/
def readAll (root directory : Path) (output : List Char) : List MarkdownIssue :=
  ((Text.lines output).filterMap ofLine?).map fun issue =>
    { issue with path := shownPath root directory issue.path }

end MarkdownIssue

end DscAudit.Tool

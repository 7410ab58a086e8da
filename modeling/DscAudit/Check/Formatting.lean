import DscAudit.Check.Basic

/-!
# Checks of file formatting

Text files are in UTF-8, have no tabs and end with a newline; markdown files have no byte order mark.
-/

namespace DscAudit.Check.Formatting

open Text (Octets)

/-- The text files of the module. -/
def textFiles (subject : Subject) : Action (List Path) :=
  File.withExtension subject.root subject.config.excludedDirectories subject.config.textExtensions

/-- The violations in the contents of files. -/
def inFiles (subject : Subject) (files : List Path) (look : String → Octets → List Violation) :
    Checking Outcome := do
  let violations ← files.mapM fun file => do
    let content ← Action.readFile (subject.path file)
    return look file.toString content
  return .found violations.flatten [("files", .int files.length)]

/-- Is the content in an encoding whose units are wider than an octet? -/
def isWide (content : Octets) : Bool := Text.hasUnicodeMark content || content.contains 0

def encoding (subject : Subject) : Checking Outcome := do
  inFiles subject (← textFiles subject) fun file content =>
    if isWide content then
      [.ofFile "FILE_UNICODE_ENCODING"
        "file is encoded as Unicode (UTF-16/UTF-32); use UTF-8 or ASCII" file]
    else []

/-- The places of the first tabs in the lines of a text. -/
def tabs (text : List Char) : List (Nat × Nat) :=
  (Text.lines text).zipIdx.filterMap fun line =>
    if line.1.contains '\t' then some (line.2 + 1, line.1.idxOf '\t' + 1) else none

def tabCharacters (subject : Subject) : Checking Outcome := do
  inFiles subject (← textFiles subject) fun file content =>
    (tabs (Text.decodeUtf8 content)).map fun place =>
      .atPlace "FILE_TAB_CHARACTER" "line contains a tab character; indent with spaces" file place.1
        place.2

/-- Does the content, if there is any, end with a line feed? -/
def endsLine (content : Octets) : Bool := content.getLast?.all (· == 0x0A)

def finalNewline (subject : Subject) : Checking Outcome := do
  inFiles subject (← textFiles subject) fun file content =>
    if endsLine content then []
    else [.ofFile "FILE_NO_FINAL_NEWLINE" "file does not end with a newline" file]

/-- The markdown files of the module. -/
def markdownFiles (subject : Subject) : Action (List Path) :=
  File.withSuffix subject.root subject.config.excludedDirectories [".md"]

def markdownMark (subject : Subject) : Checking Outcome := do
  inFiles subject (← markdownFiles subject) fun file content =>
    if Text.utf8Mark.isPrefixOf content then
      [.ofFile "MARKDOWN_BOM" "markdown file starts with a byte order mark" file]
    else []

theorem endsLine_nil : endsLine [] = true := rfl

end DscAudit.Check.Formatting

import DscAudit.Value.Basic

/-!
# Writing JSON

A value is written in ASCII, the entries of a table in the order of their keys.  It stands on one
line, or each item and entry on a line of its own, two columns to the right of the line that opens
its list or table.
-/

namespace DscAudit.Json

/-- A code unit as an escape. -/
def escapeUnit (unit : Nat) : List Char := '\\' :: 'u' :: Text.hexDigits 4 unit

/-- A character of a string. -/
def escape (c : Char) : List Char :=
  if c == '"' then ['\\', '"']
  else if c == '\\' then ['\\', '\\']
  else if c == '\n' then ['\\', 'n']
  else if c == '\r' then ['\\', 'r']
  else if c == '\t' then ['\\', 't']
  else if c == '\x08' then ['\\', 'b']
  else if c == '\x0c' then ['\\', 'f']
  else if 0x20 ≤ c.toNat && c.toNat < 0x7F then [c]
  else if c.toNat < 0x10000 then escapeUnit c.toNat
  else
    escapeUnit (0xD800 + (c.toNat - 0x10000) / 0x400) ++
      escapeUnit (0xDC00 + (c.toNat - 0x10000) % 0x400)

/-- A string between quotes. -/
def quote (s : String) : List Char := '"' :: s.toList.flatMap escape ++ ['"']

/-- A floating point number. -/
def number : Decimal.Binary64 → List Char
  | .nan => "NaN".toList
  | .infinite negative => (if negative then "-Infinity" else "Infinity").toList
  | x => x.text

/-- How a value is laid out. -/
inductive Layout where
  | oneLine
  | indented
  deriving DecidableEq

/-- The start of a line at a depth. -/
def newLine (depth : Nat) : List Char := '\n' :: List.replicate (2 * depth) ' '

/-- Parts at a depth between brackets. -/
def Layout.enclose (layout : Layout) (depth : Nat) (left right : Char) (parts : List (List Char)) :
    List Char :=
  match layout, parts with
  | _, [] => [left, right]
  | .oneLine, parts => left :: [',', ' '].intercalate parts ++ [right]
  | .indented, parts =>
    left :: newLine (depth + 1) ++ (',' :: newLine (depth + 1)).intercalate parts ++
      newLine depth ++ [right]

/-- Written entries in the order of their keys. -/
def sortEntries (entries : List (String × List Char)) : List (String × List Char) :=
  entries.mergeSort fun a b => decide (a.1 ≤ b.1)

mutual

/-- A value that starts at a depth. -/
def writeAt (layout : Layout) (depth : Nat) : Value → List Char
  | .null => "null".toList
  | .bool b => (if b then "true" else "false").toList
  | .int n => integerText n
  | .float x => number x
  | .text s => quote s
  | .list items => layout.enclose depth '[' ']' (writeItems layout (depth + 1) items)
  | .table entries =>
    layout.enclose depth '\x7b' '\x7d' <|
      (sortEntries (writeEntries layout (depth + 1) entries)).map fun entry =>
        quote entry.1 ++ [':', ' '] ++ entry.2

def writeItems (layout : Layout) (depth : Nat) : List Value → List (List Char)
  | [] => []
  | item :: items => writeAt layout depth item :: writeItems layout depth items

def writeEntries (layout : Layout) (depth : Nat) :
    List (String × Value) → List (String × List Char)
  | [] => []
  | entry :: entries =>
    (entry.1, writeAt layout depth entry.2) :: writeEntries layout depth entries

end

/-- The JSON text of a value. -/
def write (layout : Layout) (v : Value) : String := String.ofList (writeAt layout 0 v)

end DscAudit.Json

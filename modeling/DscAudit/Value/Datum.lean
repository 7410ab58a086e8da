import DscAudit.Decimal.Shortest
import DscAudit.Text.Quoted

/-!
# Data of configuration files

A datum is what a configuration file can hold.  A mapping keeps its entries in the order in which
their keys first came; its keys may be of any kind.  A scalar of a kind that no setting has, such as
a date, is foreign: only its texts are kept.  A collection that is a part of itself has no end, so it is
given as far as anyone looks into it, with the text that shows it.
-/

namespace DscAudit

open Decimal (Binary64)

/-- A value of a configuration file. -/
inductive Datum where
  | null
  | bool (b : Bool)
  | int (n : Int)
  | float (x : Binary64)
  | text (s : String)
  /-- A scalar of another kind, with the text it is shown as alone and within other data. -/
  | foreign (plain literal : String)
  | list (items : List Datum)
  | table (entries : List (Datum × Datum))
  /-- A collection with parts that it is a part of, the text that shows it, and its first levels. -/
  | endless (shown : String) (opened : Datum)
  deriving Inhabited

/-- The decimal digits of an integer. -/
def integerText (n : Int) : List Char :=
  (if n < 0 then ['-'] else []) ++ Nat.toDigits 10 n.natAbs

namespace Datum

mutual

/-- The text that shows a datum within a message, strings between quotes. -/
def literalText : Datum → List Char
  | null => "None".toList
  | bool b => (if b then "True" else "False").toList
  | int n => integerText n
  | float x => x.text
  | text s => Text.Quoted.encode s.toList
  | foreign _ literal => literal.toList
  | endless shown _ => shown.toList
  | list [] => ['[', ']']
  | list (item :: items) => '[' :: literalText item ++ itemsText items ++ [']']
  | table [] => ['\x7b', '\x7d']
  | table (entry :: entries) =>
    '\x7b' :: literalText entry.1 ++ ": ".toList ++ literalText entry.2 ++ entriesText entries ++
      ['\x7d']

/-- The items after the first one. -/
def itemsText : List Datum → List Char
  | [] => []
  | item :: items => ", ".toList ++ literalText item ++ itemsText items

/-- The entries after the first one. -/
def entriesText : List (Datum × Datum) → List Char
  | [] => []
  | entry :: entries =>
    ", ".toList ++ literalText entry.1 ++ ": ".toList ++ literalText entry.2 ++
      entriesText entries

end

/-- The text that shows a datum within a message, strings between quotes. -/
def literal (d : Datum) : String := String.ofList d.literalText

/-- The text of a datum by itself: strings as they are. -/
def plain : Datum → String
  | text s => s
  | foreign plain _ => plain
  | d => d.literal

/-- The datum as a collection whose parts are at hand, if it is one. -/
def opened : Datum → Datum
  | endless _ opened => opened
  | d => d

/-- The value of the first entry whose key is the given string. -/
def find? (key : String) : List (Datum × Datum) → Option Datum
  | [] => none
  | (text s, value) :: entries => if s = key then some value else find? key entries
  | _ :: entries => find? key entries

/-- What a mapping has under a string, nothing if the datum is no mapping. -/
def get? (d : Datum) (key : String) : Option Datum :=
  match d.opened with
  | table entries => find? key entries
  | _ => none

theorem find?_cons_text (key s : String) (value : Datum) (entries : List (Datum × Datum)) :
    find? key ((text s, value) :: entries) = if s = key then some value else find? key entries := rfl

end Datum

end DscAudit

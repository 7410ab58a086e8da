import DscAudit.Value.Datum

/-!
# Values

A value is what data files, result lines of tools and reports hold.  A table keeps its entries in
the order in which their keys first came.
-/

namespace DscAudit

/-! ## Entries with keys -/

/-- Entries, each key once. -/
abbrev Entries (α : Type) := List (String × α)

namespace Entries

variable {α : Type}

/-- What the entries have under a key. -/
def get? (key : String) : Entries α → Option α
  | [] => none
  | (k, value) :: entries => if k = key then some value else get? key entries

/-- The entries with a value under a key.  A key that they have already keeps its place. -/
def insert (key : String) (value : α) : Entries α → Entries α
  | [] => [(key, value)]
  | (k, old) :: entries => if k = key then (k, value) :: entries else (k, old) :: insert key value entries

/-- The entries of a list that may repeat keys: the first place and the last value of each count. -/
def ofList (entries : List (String × α)) : Entries α :=
  entries.foldl (fun table entry => table.insert entry.1 entry.2) []

theorem get?_insert_self (key : String) (value : α) (entries : Entries α) :
    (entries.insert key value).get? key = some value := by
  induction entries with
  | nil => simp [insert, get?]
  | cons entry entries ih =>
    simp only [insert]
    split <;> simp_all [get?]

theorem get?_insert_of_ne {key other : String} (h : other ≠ key) (value : α) (entries : Entries α) :
    (entries.insert key value).get? other = entries.get? other := by
  induction entries with
  | nil => simp [insert, get?, Ne.symm h]
  | cons entry entries ih =>
    simp only [insert]
    split <;> simp_all [get?, Ne.symm h]

end Entries

/-! ## Values -/

open Decimal (Binary64)

/-- A value of a data file, a result line or a report. -/
inductive Value where
  | null
  | bool (b : Bool)
  | int (n : Int)
  | float (x : Binary64)
  | text (s : String)
  | list (items : List Value)
  | table (entries : List (String × Value))
  deriving Inhabited

/-- The entries of a table. -/
abbrev Table := Entries Value

namespace Value

mutual

/-- The value as a datum. -/
def toDatum : Value → Datum
  | null => .null
  | bool b => .bool b
  | int n => .int n
  | float x => .float x
  | text s => .text s
  | list items => .list (toData items)
  | table entries => .table (toEntries entries)

def toData : List Value → List Datum
  | [] => []
  | item :: items => toDatum item :: toData items

def toEntries : List (String × Value) → List (Datum × Datum)
  | [] => []
  | entry :: entries => (.text entry.1, toDatum entry.2) :: toEntries entries

end

/-- The text that shows a value within a message, strings between quotes. -/
def literal (v : Value) : String := v.toDatum.literal

/-- The text of a value by itself: strings as they are. -/
def plain (v : Value) : String := v.toDatum.plain

/-- Does the value count as something?  Zero, what is empty, falsehood and nothing do not. -/
def isTruthy : Value → Bool
  | null => false
  | bool b => b
  | int n => n != 0
  | float x => !x.isZero
  | text s => !s.isEmpty
  | list items => !items.isEmpty
  | table entries => !entries.isEmpty

/-- A list of texts. -/
def ofTexts (texts : List String) : Value := .list (texts.map .text)

/-- The parts of a value are always at hand. -/
theorem opened_toDatum (v : Value) : v.toDatum.opened = v.toDatum := by
  cases v <;> rfl

theorem plain_text (s : String) : (text s).plain = s := rfl

end Value

/-!
## Numbers of settings

A setting may write a whole number with a fraction of zero; it is shown as it was written.
-/

inductive Number where
  | int (n : Int)
  | float (x : Binary64)
  deriving DecidableEq

namespace Number

def toValue : Number → Value
  | int n => .int n
  | float x => .float x

/-- The number as a message shows it. -/
def text (number : Number) : String := number.toValue.literal

/-- Is the number less than the integer? -/
def isLess : Number → Int → Bool
  | int m, n => decide (m < n)
  | float x, n => x.ltInt n

def isPositive : Number → Bool
  | int n => decide (0 < n)
  | float x => x.gtInt 0

end Number

end DscAudit

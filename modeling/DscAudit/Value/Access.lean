import DscAudit.Host.Failure
import DscAudit.Text.Integer
import DscAudit.Value.Basic

/-!
# Access to the parts of a value

The results of tools and the payloads of reports come as values of unknown form.  A part that is
taken from a value that cannot have it is a defect that names the type of the value.
-/

namespace DscAudit.Value

/-- The name of the type of a value. -/
def typeName : Value → String
  | null => "NoneType"
  | bool _ => "bool"
  | int _ => "int"
  | float _ => "float"
  | text _ => "str"
  | list _ => "list"
  | table _ => "dict"

/-- The entry of a table under a key, if it has one. -/
def member? (v : Value) (key : String) : Except Defect (Option Value) :=
  match v with
  | table entries => .ok (Entries.get? key entries)
  | v => .error (.noAttribute v.typeName "get")

/-- The entry of a table under a key, or what stands for a missing one. -/
def memberOr (v : Value) (key : String) (fallback : Value) : Except Defect Value :=
  return (← v.member? key).getD fallback

/-- The entry that a table must have under a key. -/
def required (v : Value) (key : String) : Except Defect Value :=
  match v with
  | table entries =>
    match Entries.get? key entries with
    | some value => .ok value
    | none => .error (.missingKey key)
  | text _ => .error .textSubscript
  | list _ => .error .listSubscript
  | v => .error (.notSubscriptable v.typeName)

/-- The parts of a value: the items of a list, the keys of a table, the characters of a text. -/
def parts : Value → Except Defect (List Value)
  | list items => .ok items
  | table entries => .ok (entries.map fun entry => text entry.1)
  | text s => .ok (s.toList.map fun c => text (String.singleton c))
  | v => .error (.notIterable v.typeName)

/-- The parts of a value, none if the value counts as nothing. -/
def partsIfAny (v : Value) : Except Defect (List Value) :=
  if v.isTruthy then v.parts else .ok []

/-- The integer that a value stands for: a number without its fraction, a truth value as zero or one,
or the integer that a text writes. -/
def toInteger : Value → Except Defect Int
  | int n => .ok n
  | bool b => .ok (if b then 1 else 0)
  | float .nan => .error .nanInteger
  | float x =>
    match x.truncate? with
    | some n => .ok n
    | none => .error .infiniteInteger
  | text s =>
    match Text.Integer.read? 10 s.toList with
    | some n => .ok n
    | none => .error (.badInteger 10 s)
  | v => .error (.noInteger v.typeName)

/-- The integer that a value stands for, zero if the value counts as nothing. -/
def toIntegerIfAny (v : Value) : Except Defect Int := if v.isTruthy then v.toInteger else .ok 0

/-- The text of a value by itself, empty if the value counts as nothing. -/
def plainIfAny (v : Value) : String := if v.isTruthy then v.plain else ""

/-- The texts that are joined, the first of them at a place in a list. -/
def textsFrom (index : Nat) : List Value → Except Defect (List String)
  | [] => .ok []
  | text s :: items => return s :: (← textsFrom (index + 1) items)
  | v :: _ => .error (.notText index v.typeName)

/-- Texts with a separator between them. -/
def join (separator : String) (items : List Value) : Except Defect String :=
  return separator.intercalate (← textsFrom 0 items)

theorem partsIfAny_null : null.partsIfAny = .ok [] := rfl

theorem toInteger_int (n : Int) : (int n).toInteger = .ok n := rfl

end DscAudit.Value

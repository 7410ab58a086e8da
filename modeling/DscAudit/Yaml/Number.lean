import DscAudit.Decimal.Reader
import DscAudit.Text.Infix
import DscAudit.Text.LetterCase
import DscAudit.Yaml.Source

/-!
# Numbers in YAML

Low lines in a number do not count.  An integer is written in base two, eight, ten or sixteen, or as parts
in base sixty with colons between them, and so is a floating point number in base ten or sixty.
-/

namespace DscAudit.Yaml.Number

open Decimal (Binary64)

def withoutLowLines (s : List Char) : List Char := s.filter (· != '_')

/-- The text behind a sign, if it starts with one. -/
def unsigned : List Char → List Char
  | '-' :: rest => rest
  | '+' :: rest => rest
  | s => s

/-- An integer in a base. -/
def integerIn (base : Nat) (s : List Char) : Except Refusal Int :=
  match Text.Integer.read? base s with
  | some n => .ok n
  | none => .error (.defect (.badInteger base (String.ofList s)))

/-- The integer that a scalar writes. -/
def integer (text : String) : Except Refusal Int := do
  let value := withoutLowLines text.toList
  let sign : Int := if value.head? == some '-' then -1 else 1
  let bare := unsigned value
  match bare with
  | [] => throw (.defect .emptyNumber)
  | ['0'] => return 0
  | '0' :: 'b' :: digits => return sign * (← integerIn 2 digits)
  | '0' :: 'x' :: digits => return sign * (← integerIn 16 digits)
  | '0' :: _ => return sign * (← integerIn 8 bare)
  | _ =>
    let parts ← (Text.splitAt ':' bare).mapM (integerIn 10)
    return sign * parts.foldl (fun value part => 60 * value + part) 0

/-- A floating point number in base ten. -/
def decimal (s : List Char) : Except Refusal Binary64 :=
  match Binary64.read? s with
  | some x => .ok x
  | none => .error (.defect (.noNumber (String.ofList s)))

/-- The floating point number nearest to a weight, which must not be too large for one. -/
def weight (n : Nat) : Except Refusal Binary64 :=
  match Binary64.ofInt n with
  | .infinite _ => .error (.defect .integerTooLarge)
  | x => .ok x

/-- The sum of parts in base sixty, the least one first; it is rounded after each step. -/
def sexagesimal (sum : Binary64) (place : Nat) : List Binary64 → Except Refusal Binary64
  | [] => .ok sum
  | part :: parts => do
    let weight ← weight place
    sexagesimal (sum.add (part.mul weight)) (60 * place) parts

/-- The text of a floating point number in lower case, without what does not count. -/
def floatText (text : String) : List Char := Text.lower (withoutLowLines text.toList)

/-- Does the text write, by the word of its own for that, what is no number? -/
def isNan (text : String) : Bool := unsigned (floatText text) == ".nan".toList

/-- The floating point number that a scalar writes. -/
def float (text : String) : Except Refusal Binary64 := do
  let value := floatText text
  let signed (x : Binary64) : Binary64 := if value.head? == some '-' then x.neg else x
  let bare := unsigned value
  if value.isEmpty then throw (.defect .emptyNumber)
  else if bare = ".inf".toList then return signed (.infinite false)
  else if isNan text then return .nan
  else
    match Text.splitAt ':' bare with
    | [s] => return signed (← decimal s)
    | parts =>
      let parts ← parts.mapM decimal
      return signed (← sexagesimal (.finite false 0) 1 parts.reverse)

end DscAudit.Yaml.Number

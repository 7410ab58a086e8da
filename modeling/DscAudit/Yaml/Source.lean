import DscAudit.Host.Failure
import DscAudit.Text.Portion

/-!
# YAML files

A file is read by portions, and only when a scanner gets to the end of what it has.  So a portion that is no
text, or that holds a character that may not stand in a document, matters only to what gets there.
-/

namespace DscAudit.Yaml

/-!
## Refusals

A text may be no document at all, or hold a scalar that is not what its tag says.  While a text is read
it also matters where a fault is found: what lies behind the part of a text that could be read is met
only by what gets that far.
-/

/-- Why a text has no datum: it is invalid, or a part of it has no value. -/
inductive Refusal where
  | invalid
  | defect (defect : Defect)

/-- What keeps a token from being read, and whether all that there is to read had been read by then. -/
structure Fault where
  refusal : Refusal
  atEnd : Bool

/-- The text is invalid before its end. -/
def Fault.within : Fault := ⟨.invalid, false⟩

/-! ## Sources -/

open Text (Octets Supply)

/-- The text that can be read, and why there is no more of it, unless the file ends there. -/
structure Source where
  text : List Char
  broken : Option Refusal

namespace Source

/-- Characters that a document may hold. -/
def isAllowed (c : Char) : Bool :=
  let n := c.toNat
  n == 0x09 || n == 0x0A || n == 0x0D || (0x20 ≤ n && n ≤ 0x7E) || n == 0x85 ||
    (0xA0 ≤ n && n ≤ 0xFFFD) || 0x10000 ≤ n

/-- The number of characters in a portion. -/
def portionSize : Nat := 4096

/-- The source of a text, part of which is read, in reverse order. -/
def ofRest (text : List Char) : (fuel : Nat) → Supply → Source
  | 0, _ => ⟨text.reverse, none⟩
  | fuel + 1, supply =>
    match supply.portion? portionSize with
    | none => ⟨text.reverse, some (.defect .undecodable)⟩
    | some (portion, supply) =>
      if portion.isEmpty then ⟨text.reverse, none⟩
      else if portion.all isAllowed then ofRest (portion.reverse ++ text) fuel supply
      else ⟨text.reverse, some .invalid⟩

/-- The source of a file, the first two portions of which are read before they are looked at. -/
def ofFile (content : Octets) : Source :=
  let portions : Option (List Char × Supply) := do
    let (first, supply) ← (Supply.ofFile content).portion? portionSize
    let (second, supply) ← supply.portion? portionSize
    return (first ++ second, supply)
  match portions with
  | none => ⟨[], some (.defect .undecodable)⟩
  | some (text, supply) =>
    if text.all isAllowed then ofRest text.reverse (content.length + 1) supply
    else ⟨[], some .invalid⟩

end Source

end DscAudit.Yaml

import DscAudit.Text.Encoding
import DscAudit.Text.Quoted
import DscAudit.Yaml.Kind
import DscAudit.Yaml.Number

/-!
# Data of YAML scalars

The kind of a scalar tells what its text stands for.  As a key a scalar is the same as another one of equal
value; what is no number is the same only as itself.
-/

/-! ## Octets in base 64

Four characters write three octets.  Characters of no value are skipped.  A pad ends the text where the
characters since the last full four, together with pads, make four. -/

namespace DscAudit.Yaml.Base64

def value? (c : Char) : Option Nat :=
  if 'A' ≤ c ∧ c ≤ 'Z' then some (c.toNat - 0x41)
  else if 'a' ≤ c ∧ c ≤ 'z' then some (c.toNat - 0x61 + 26)
  else if c.isDigit then some (c.toNat - 0x30 + 52)
  else if c == '+' then some 62
  else if c == '/' then some 63
  else none

/-- The octets of the rest of a text behind `count` characters of a group of four, of which the bits in
`bits` are not used yet, and `pads` pads. -/
def decodeFrom (count bits pads : Nat) : List Char → Option Text.Octets
  | [] => if count = 0 then some [] else none
  | c :: rest =>
    if c == '=' then
      if 2 ≤ count ∧ 4 ≤ count + (pads + 1) then some []
      else decodeFrom count bits (if 2 ≤ count then pads + 1 else pads) rest
    else
      match value? c with
      | none => decodeFrom count bits pads rest
      | some v =>
        match count with
        | 0 => decodeFrom 1 v 0 rest
        | 1 => (decodeFrom 2 (v % 16) 0 rest).map ((bits * 4 + v / 16).toUInt8 :: ·)
        | 2 => (decodeFrom 3 (v % 4) 0 rest).map ((bits * 16 + v / 4).toUInt8 :: ·)
        | _ => (decodeFrom 0 0 0 rest).map ((bits * 64 + v).toUInt8 :: ·)

/-- The octets that a text writes. -/
def decode? (s : List Char) : Option Text.Octets := decodeFrom 0 0 0 s

end DscAudit.Yaml.Base64

/-! ## Atoms -/

namespace DscAudit.Yaml

open Decimal (Binary64)

/-- What two scalars have in common if they are the same key. -/
inductive Identity where
  | nothing
  /-- An integer, a truth value that counts as one, or a floating point number without a fraction. -/
  | whole (n : Int)
  | fraction (x : Binary64)
  /-- What is no number, and the node that it came from if it is not the one of that name. -/
  | noNumber (origin : Option Nat)
  | text (s : String)
  /-- A point in time with a zone, in millionths of a second. -/
  | moment (microseconds : Int)
  | foreign (literal : String)
  deriving DecidableEq

/-- The datum of a scalar with its identity. -/
structure Atom where
  datum : Datum
  identity : Identity

namespace Atom

def null : Atom := ⟨.null, .nothing⟩

def ofText (s : String) : Atom := ⟨.text s, .text s⟩

def ofInteger (n : Int) : Atom := ⟨.int n, .whole n⟩

def ofForeign (shown : String) : Atom := ⟨.foreign shown shown, .foreign shown⟩

/-- A truth value, which a word in any case stands for. -/
def ofBoolText (text : String) : Except Refusal Atom :=
  let lowered := Text.lowerString text
  match TagKind.boolWords.find? fun entry => entry.1 == lowered with
  | some (_, b) => .ok ⟨.bool b, .whole (if b then 1 else 0)⟩
  | none => .error (.defect (.missingKey lowered))

/-- A floating point number that a node writes. -/
def ofFloatText (origin : Nat) (text : String) : Except Refusal Atom := do
  let x ← Number.float text
  let identity : Identity := match x.truncate? with
    | some n => if x.isWhole then .whole n else .fraction x
    | none => if x = .nan then .noNumber (if Number.isNan text then none else some origin)
      else .fraction x
  return ⟨.float x, identity⟩

/-- A point in time; a line feed at the end of its text does not count. -/
def ofTimestampText (text : String) : Except Refusal Atom :=
  match Timestamp.read? (TagKind.withoutLineEnd text.toList) with
  | none => .error (.defect (.noAttribute "NoneType" "groupdict"))
  | some timestamp =>
    match timestamp.defect? with
    | some defect => .error (.defect defect)
    | none =>
      let datum := timestamp.toDatum
      .ok ⟨datum, (timestamp.instant?.map Identity.moment).getD (.foreign datum.literal)⟩

/-- Octets in base 64. -/
def ofBinaryText (text : String) : Except Refusal Atom :=
  if text.toList.all fun c => c.toNat < 0x80 then
    match Base64.decode? text.toList with
    | some octets => .ok (ofForeign (String.ofList (Text.Quoted.encodeOctets octets)))
    | none => .error .invalid
  else .error .invalid

/-- The atom of the text of a node of a kind. -/
def read (kind : TagKind) (origin : Nat) (text : String) : Except Refusal Atom :=
  match kind with
  | .null => .ok null
  | .bool => ofBoolText text
  | .int => (Number.integer text).map ofInteger
  | .float => ofFloatText origin text
  | .binary => ofBinaryText text
  | .timestamp => ofTimestampText text
  | .str => .ok (ofText text)
  | _ => .error .invalid

theorem read_str (origin : Nat) (text : String) : read .str origin text = .ok (ofText text) := rfl

end Atom

end DscAudit.Yaml

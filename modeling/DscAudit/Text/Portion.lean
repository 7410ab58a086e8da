import DscAudit.Decimal.Binary64
import DscAudit.Text.Encoding
import DscAudit.Text.Lines

/-!
# Files that are read by portions

A text file that is read by portions of so many characters is decoded only as far as these need, in chunks
of octets.  So a file that is not valid text still gives the portions before the one that fails.
-/

namespace DscAudit.Text

open Decimal (Binary64)

/-- The least number of octets that are decoded at once. -/
def chunkSize : Nat := 8192

/-- How far a file is decoded: the octets left, a character or a line end of which only a part came, and
the characters that are not given out yet.  Of the last chunk its sizes are kept. -/
structure Supply where
  octets : Octets
  partialChar : Option Utf8.Pending
  carriageReturn : Bool
  ready : List Char
  lastOctets : Nat
  lastChars : Nat

namespace Supply

def ofFile (octets : Octets) : Supply := ⟨octets, none, false, [], 0, 0⟩

/-- The characters of octets behind a partial one, in reverse order behind `found`, and the partial
character at their end, if all octets are valid. -/
def decodeChunk? (found : List Char) :
    Option Utf8.Pending → Octets → Option (List Char × Option Utf8.Pending)
  | pending, [] => some (found, pending)
  | none, octet :: rest =>
    match Utf8.start octet.toNat with
    | .whole c => decodeChunk? (c :: found) none rest
    | .longer pending => decodeChunk? found (some pending) rest
    | .invalid => none
  | some p, octet :: rest =>
    if p.low ≤ octet.toNat ∧ octet.toNat ≤ p.high then
      let bits := 64 * p.bits + (octet.toNat - 0x80)
      if p.owed = 1 then decodeChunk? (Char.ofNat bits :: found) none rest
      else decodeChunk? found (some ⟨p.owed - 1, 0x80, 0xBF, bits⟩) rest
    else none

/-- How many octets so many characters take if they are like those of the last chunk.  The quotient and
the product are rounded as floating point numbers. -/
def expectedSize (supply : Supply) (wanted : Nat) : Nat :=
  let ratio := if supply.lastChars = 0 then .finite false 0
    else Binary64.ofUnits false (supply.lastOctets * Binary64.unitsPerOne) supply.lastChars
  ((ratio.mul (.ofInt wanted)).truncate?.getD 0).toNat

/-- How many octets are decoded next when so many characters are wanted. -/
def nextSize (supply : Supply) (wanted : Nat) : Nat :=
  max chunkSize (max wanted (supply.expectedSize wanted))

/-- The supply after a chunk, for which there are octets left.  A carriage return at its end is kept back,
because a line feed may follow it. -/
def chunk? (supply : Supply) (wanted : Nat) : Option Supply := do
  let size := supply.nextSize wanted
  let octets := supply.octets.take size
  let (found, partialChar) ← decodeChunk? [] supply.partialChar octets
  let decoded := found.reverse
  let whole := if supply.carriageReturn && !found.isEmpty then '\r' :: decoded else decoded
  let endsOpen := found.head? == some '\r'
  let given := normalizeNewlines (if endsOpen then whole.dropLast else whole)
  return {
    octets := supply.octets.drop size
    partialChar := partialChar
    carriageReturn := endsOpen || (supply.carriageReturn && found.isEmpty)
    ready := supply.ready ++ given
    lastOctets := octets.length
    lastChars := given.length }

/-- The supply when no octets are left: the last character must be whole. -/
def close? (supply : Supply) : Option Supply :=
  if supply.partialChar.isSome then none
  else if supply.carriageReturn then
    some { supply with carriageReturn := false, ready := supply.ready ++ ['\n'] }
  else some supply

/-- A supply that has the characters wanted ready, unless the file ends before.  Every chunk takes an
octet, so `fuel` bounds their number. -/
def fill? (wanted : Nat) : (fuel : Nat) → Supply → Option Supply
  | 0, supply => supply.close?
  | fuel + 1, supply =>
    if wanted ≤ supply.ready.length then some supply
    else if supply.octets.isEmpty then supply.close?
    else do fill? wanted fuel (← supply.chunk? (wanted - supply.ready.length))

/-- The next characters, as many as wanted unless the file ends before, and the supply behind them. -/
def portion? (wanted : Nat) (supply : Supply) : Option (List Char × Supply) := do
  let supply ← fill? wanted (supply.octets.length + 1) supply
  return (supply.ready.take wanted, { supply with ready := supply.ready.drop wanted })

end Supply

end DscAudit.Text

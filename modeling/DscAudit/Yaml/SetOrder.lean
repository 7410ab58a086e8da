import DscAudit.Yaml.Atom

/-!
# The order of a set

A set has no order of its own.  Its numbers are shown in the order of the slots of a table, in which each
has its place by its residue, or by free slots near to that if it is taken.  Elements of other kinds have no
place that is known beforehand, so a set with one of them is shown as it was written.
-/

namespace DscAudit.Yaml.SetOrder

open Decimal (Binary64)

/-- Residues are taken modulo a prime number, two to the power of 61 less one. -/
def modulus : Nat := Nat.pow 2 61 - 1

/-- What stands for the residue of an infinite number. -/
def infiniteResidue : Nat := 314159

/-- The residue of the magnitude of a number.  The unit of a fraction, two to the power of -1074, has the
residue of two to the power of 24, because two to the power of 61 has that of one. -/
def residue? : Identity → Option Nat
  | .whole n => some (n.natAbs % modulus)
  | .fraction (.finite _ units) => some (units % modulus * Nat.pow 2 24 % modulus)
  | .fraction (.infinite _) => some infiniteResidue
  | _ => none

def isNegative : Identity → Bool
  | .whole n => n < 0
  | .fraction x => x.isNegative
  | _ => false

/-- The place of a number, in 64 bits.  Minus one has the place of minus two. -/
def place? (identity : Identity) : Option Nat :=
  (residue? identity).map fun residue =>
    if isNegative identity && residue != 0 then Nat.pow 2 64 - max residue 2 else residue

/-- The number of slots for so many elements: more than two for each, unless they are few. -/
def slotCount (count : Nat) : Nat :=
  if count < 5 then 8 else max 8 (Nat.pow 2 ((2 * count).log2 + 1))

/-- The slots that are tried together, unless they go beyond the table: a slot and nine behind it. -/
def window (slots : Nat) (first : Nat) : List Nat :=
  if first + 9 < slots then (List.range 10).map (first + ·) else [first]

/-- The first free slot, looked for from a slot; what is left of the place then tells where to go on. -/
def freeSlot? (table : Array (Option Atom)) (first rest : Nat) : (fuel : Nat) → Option Nat
  | 0 => none
  | fuel + 1 =>
    match (window table.size first).find? fun slot => (table.getD slot none).isNone with
    | some slot => some slot
    | none =>
      let rest := rest / 32
      freeSlot? table ((first * 5 + 1 + rest) % table.size) rest fuel

/-- The elements of a set, as they are shown. -/
def arrange (elements : List Atom) : List Atom :=
  match elements.mapM fun atom => (place? atom.identity).map fun place => (place, atom) with
  | none => elements
  | some placed =>
    let slots := slotCount placed.length
    let table := placed.foldl (fun (table : Array (Option Atom)) (place, atom) =>
      match freeSlot? table (place % slots) place (slots + 16) with
      | some slot => table.setIfInBounds slot (some atom)
      | none => table) (.replicate slots none)
    table.toList.filterMap id

end DscAudit.Yaml.SetOrder

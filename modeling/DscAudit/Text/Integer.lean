import DscAudit.Text.CharacterClass
import DscAudit.Text.Digit

/-!
# Integers written as text

An integer is written as an optional sign and digits of its base, in any script, where single low
lines may stand between digits; blanks may surround it.  The digits of the bases two, eight and sixteen
may follow a zero and the letter of the base.
-/

namespace DscAudit.Text.Integer

/-- Blanks around an integer: the ASCII ones, and beyond ASCII every blank character. -/
def isPadding (c : Char) : Bool :=
  if c.toNat < 128 then c == ' ' || (0x09 ≤ c.toNat && c.toNat ≤ 0x0D) else isBlank c

/-- The value of a digit in a base of at most sixteen. -/
def digitIn? (base : Nat) (c : Char) : Option Nat :=
  match (digitValue? c).or (hexValue? c) with
  | some value => if value < base then some value else none
  | none => none

/-- The number written by digits and single low lines between them, `value` being that of the
digits before. -/
def digits? (base : Nat) : (value : Nat) → List Char → Option Nat
  | value, [] => some value
  | value, '_' :: c :: rest =>
    match digitIn? base c with
    | some digit => digits? base (base * value + digit) rest
    | none => none
  | value, c :: rest =>
    match digitIn? base c with
    | some digit => digits? base (base * value + digit) rest
    | none => none

/-- The number written by a run of digits that starts with a digit. -/
def natural? (base : Nat) : List Char → Option Nat
  | [] => none
  | c :: rest => (digitIn? base c).bind fun digit => digits? base digit rest

/-- The letters that mark a base behind a zero. -/
def baseLetters : (base : Nat) → List Char
  | 2 => ['b', 'B']
  | 8 => ['o', 'O']
  | 16 => ['x', 'X']
  | _ => []

/-- A number after the mark of its base, if it has one, and after a low line behind that. -/
def unmarked (base : Nat) : List Char → List Char
  | c :: letter :: rest =>
    if digitValue? c == some 0 && (baseLetters base).contains letter then
      match rest with
      | '_' :: rest => rest
      | rest => rest
    else c :: letter :: rest
  | s => s

/-- The integer that a text writes in the given base. -/
def read? (base : Nat) (s : List Char) : Option Int :=
  let bare := trimWhile isPadding s
  match bare with
  | '-' :: rest => (natural? base (unmarked base rest)).map fun n => -(n : Int)
  | '+' :: rest => (natural? base (unmarked base rest)).map Int.ofNat
  | rest => (natural? base (unmarked base rest)).map Int.ofNat

end DscAudit.Text.Integer

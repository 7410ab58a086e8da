import DscAudit.Decimal.Binary64

/-!
# The shortest decimal that reads back

A binary floating point number is written with as few digits as identify it, and with the digits
nearest to it among those.  For each count of digits only the two neighbours of the number on the
decimal grid of that count can do, and seventeen digits always do.
-/

namespace DscAudit.Decimal

open Binary64

/-- A decimal number `digits * 10 ^ exponent`. -/
structure Scientific where
  digits : Nat
  exponent : Int
  deriving DecidableEq, Repr, Inhabited

/-- The exponent `e` for which the positive number is at least `10 ^ (e - 1)` and below `10 ^ e`. -/
def magnitude (units : Nat) : Int :=
  (digitCount (units * Nat.pow 10 400 / unitsPerOne) : Int) - 400

/-- Of the two neighbours of the number on the grid of multiples of `10 ^ exponent`, the one that
reads back, and the nearer one if both do. -/
def neighbour? (units : Nat) (exponent : Int) : Option Scientific :=
  let num := units * Nat.pow 10 (-exponent).toNat
  let den := unitsPerOne * Nat.pow 10 exponent.toNat
  let below := num / den
  let readsBack (digits : Nat) : Bool := ofDecimal false digits exponent == .finite false units
  let nearest := roundHalfEven num den
  if readsBack nearest then some ⟨nearest, exponent⟩
  else if readsBack below then some ⟨below, exponent⟩
  else if readsBack (below + 1) then some ⟨below + 1, exponent⟩
  else none

/-- The decimal of the fewest digits that reads back as the positive number. -/
def shortest (units : Nat) : Scientific :=
  let top := magnitude units
  ((List.range 17).findSome? fun extra : Nat => neighbour? units (top - 1 - extra)).getD ⟨units, 0⟩

/-- Where the style of a number changes: numbers at least `10 ^ positionalBelow` and those below
`10 ^ positionalFrom` are written with an exponent. -/
structure Style where
  positionalFrom : Int
  positionalBelow : Int

/-- Whole numbers of up to sixteen digits and fractions with up to three zeros after the point are
written without an exponent. -/
def plain : Style := ⟨-4, 16⟩

/-- An exponent has a sign and at least two digits. -/
def exponentText (exponent : Int) : List Char :=
  let digits := Nat.toDigits 10 exponent.natAbs
  (if exponent < 0 then '-' else '+') :: (if digits.length < 2 then '0' :: digits else digits)

/-- The text of `0.d₁d₂… * 10 ^ point` for the given digits, which do not start with a zero. -/
def layout (digits : List Char) (point : Int) : List Char :=
  let exponent := point - 1
  if exponent < plain.positionalFrom || plain.positionalBelow ≤ exponent then
    match digits with
    | [] => []
    | [d] => d :: 'e' :: exponentText exponent
    | d :: rest => d :: '.' :: rest ++ 'e' :: exponentText exponent
  else if point ≤ 0 then '0' :: '.' :: List.replicate (-point).toNat '0' ++ digits
  else if digits.length ≤ point then
    digits ++ List.replicate (point.toNat - digits.length) '0' ++ ['.', '0']
  else digits.take point.toNat ++ '.' :: digits.drop point.toNat

/-- The digits of a number without the zeros at its end. -/
def significantDigits (n : Nat) : List Char :=
  ((Nat.toDigits 10 n).reverse.dropWhile (· == '0')).reverse

/-- The text of a number: the shortest decimal, with a point even if it is whole. -/
def Binary64.text : Binary64 → List Char
  | .nan => ['n', 'a', 'n']
  | .infinite negative => (if negative then ['-'] else []) ++ ['i', 'n', 'f']
  | .finite negative units =>
    (if negative then ['-'] else []) ++
      if units = 0 then ['0', '.', '0']
      else
        let decimal := shortest units
        layout (significantDigits decimal.digits) (digitCount decimal.digits + decimal.exponent)

end DscAudit.Decimal

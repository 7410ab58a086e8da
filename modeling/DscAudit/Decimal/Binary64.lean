/-!
# Binary floating point numbers

A number of the 64-bit binary format is finite, infinite or not a number.  Every finite one is a
whole multiple of the least positive one, two to the power of -1074; it is kept as its sign and this
multiple, so that sums and products are exact until they are rounded.  Rounding goes to the nearest
number whose multiple has at most 53 significant bits, and from the middle to the even one.
-/

namespace DscAudit.Decimal

/-- A number of the 64-bit binary format. -/
inductive Binary64 where
  | finite (negative : Bool) (units : Nat)
  | infinite (negative : Bool)
  | nan
  deriving DecidableEq, Repr, Inhabited

/-- The whole number nearest to a quotient, the even one of two. -/
def roundHalfEven (num den : Nat) : Nat :=
  let quotient := num / den
  let twice := 2 * (num % den)
  if twice < den then quotient
  else if den < twice then quotient + 1
  else quotient + quotient % 2

/-- The number of decimal digits of a natural number, which is one for zero. -/
def digitCount (n : Nat) : Nat := (Nat.toDigits 10 n).length

namespace Binary64

/-- How many of the least positive number make one. -/
def unitsPerOne : Nat := Nat.pow 2 1074

/-- The number nearest to a quotient of units. -/
def ofUnits (negative : Bool) (num den : Nat) : Binary64 :=
  let dropped := (num / den).log2 + 1 - 53
  let step := Nat.pow 2 dropped
  let units := roundHalfEven num (den * step) * step
  if Nat.pow 2 1024 * unitsPerOne ≤ units then .infinite negative else .finite negative units

/-- The number nearest to `± digits * 10 ^ exponent`. -/
def ofDecimal (negative : Bool) (digits : Nat) (exponent : Int) : Binary64 :=
  if digits = 0 then .finite negative 0
  else
    let size := digitCount digits + exponent
    if 400 < size then .infinite negative
    else if size < -400 then .finite negative 0
    else if 0 ≤ exponent then ofUnits negative (digits * Nat.pow 10 exponent.toNat * unitsPerOne) 1
    else ofUnits negative (digits * unitsPerOne) (Nat.pow 10 (-exponent).toNat)

/-- The number nearest to an integer. -/
def ofInt (n : Int) : Binary64 := ofUnits (n < 0) (n.natAbs * unitsPerOne) 1

def isNegative : Binary64 → Bool
  | .finite negative _ => negative
  | .infinite negative => negative
  | .nan => false

def neg : Binary64 → Binary64
  | .finite negative units => .finite (!negative) units
  | .infinite negative => .infinite (!negative)
  | .nan => .nan

/-- Is the number zero, of either sign? -/
def isZero : Binary64 → Bool
  | .finite _ units => units == 0
  | _ => false

/-- Is the number a whole one? -/
def isWhole : Binary64 → Bool
  | .finite _ units => units % unitsPerOne == 0
  | _ => false

/-- The number without its fraction, if it is finite. -/
def truncate? : Binary64 → Option Int
  | .finite negative units =>
    let whole : Int := units / unitsPerOne
    some (if negative then -whole else whole)
  | _ => none

/-- A finite number as a multiple of the least positive one. -/
def signed (negative : Bool) (units : Nat) : Int := if negative then -(units : Int) else units

/-- Is the number less than the integer? -/
def ltInt (x : Binary64) (n : Int) : Bool :=
  match x with
  | .infinite negative => negative
  | .nan => false
  | .finite negative units => signed negative units < n * unitsPerOne

/-- Is the integer less than the number? -/
def gtInt (x : Binary64) (n : Int) : Bool :=
  match x with
  | .infinite negative => !negative
  | .nan => false
  | .finite negative units => n * unitsPerOne < signed negative units

/-- The rounded sum.  A sum of nothing is negative only if both numbers are. -/
def add : Binary64 → Binary64 → Binary64
  | .nan, _ => .nan
  | _, .nan => .nan
  | .infinite a, .infinite b => if a = b then .infinite a else .nan
  | .infinite a, .finite _ _ => .infinite a
  | .finite _ _, .infinite b => .infinite b
  | .finite a m, .finite b n =>
    let sum := signed a m + signed b n
    if sum = 0 then .finite (a && b) 0 else ofUnits (sum < 0) sum.natAbs 1

/-- The rounded product. -/
def mul : Binary64 → Binary64 → Binary64
  | .nan, _ => .nan
  | _, .nan => .nan
  | .infinite a, .infinite b => .infinite (a != b)
  | .infinite a, .finite b n => if n = 0 then .nan else .infinite (a != b)
  | .finite a m, .infinite b => if m = 0 then .nan else .infinite (a != b)
  | .finite a m, .finite b n => ofUnits (a != b) (m * n) unitsPerOne

theorem ofDecimal_zero (negative : Bool) (exponent : Int) :
    ofDecimal negative 0 exponent = .finite negative 0 := rfl

end Binary64

end DscAudit.Decimal

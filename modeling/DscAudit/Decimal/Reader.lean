import DscAudit.Decimal.Binary64
import DscAudit.Text.Integer

/-!
# Binary floating point numbers written as text

A number is written as an optional sign and digits of any script with at most one point among them, and
behind them, if at all, the letter `e` and an integer of digits; or as a word for what is infinite or no
number.  Blanks may surround it.
-/

namespace DscAudit.Decimal.Binary64

/-- The natural number that ASCII digits write. -/
def natural (digits : List Char) : Nat := digits.foldl (fun n c => 10 * n + (c.toNat - 0x30)) 0

/-- The ASCII digit for a digit of any script; other characters stay. -/
def asciiDigit (c : Char) : Char :=
  match Text.digitValue? c with
  | some value => Char.ofNat (0x30 + value)
  | none => c

/-- The integer behind the letter of an exponent. -/
def exponent? : List Char → Option Int
  | '-' :: digits => (unsignedExponent? digits).map fun n => -(n : Int)
  | '+' :: digits => (unsignedExponent? digits).map Int.ofNat
  | digits => (unsignedExponent? digits).map Int.ofNat
where
  unsignedExponent? (digits : List Char) : Option Nat :=
    if digits.isEmpty || !digits.all Char.isDigit then none else some (natural digits)

/-- The number that ASCII digits, a point and an exponent write. -/
def decimal? (negative : Bool) (s : List Char) : Option Binary64 :=
  let whole := s.takeWhile Char.isDigit
  let (fraction, rest) := match s.dropWhile Char.isDigit with
    | '.' :: rest => (rest.takeWhile Char.isDigit, rest.dropWhile Char.isDigit)
    | rest => ([], rest)
  let scaled (exponent : Int) : Binary64 :=
    .ofDecimal negative (natural (whole ++ fraction)) (exponent - fraction.length)
  if whole.isEmpty && fraction.isEmpty then none
  else
    match rest with
    | [] => some (scaled 0)
    | c :: rest => if c == 'e' || c == 'E' then (exponent? rest).map scaled else none

/-- The number that a text without a sign writes. -/
def unsigned? (negative : Bool) (s : List Char) : Option Binary64 :=
  let word := String.ofList (s.map Char.toLower)
  if word = "inf" ∨ word = "infinity" then some (.infinite negative)
  else if word = "nan" then some .nan
  else decimal? negative s

/-- The number that a text writes. -/
def read? (s : List Char) : Option Binary64 :=
  match (Text.trimWhile Text.Integer.isPadding s).map asciiDigit with
  | '-' :: rest => unsigned? true rest
  | '+' :: rest => unsigned? false rest
  | rest => unsigned? false rest

end DscAudit.Decimal.Binary64

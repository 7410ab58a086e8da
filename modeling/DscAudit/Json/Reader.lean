import DscAudit.Value.Basic

/-!
# Reading JSON

One value fills the text, blanks around it apart.  A string holds no control characters.  Beyond the
standard, `NaN` and the two infinities are numbers.  A repeated key of an object keeps its first
place and has its last value.
-/

namespace DscAudit.Json

open Decimal (Binary64)

def isBlank (c : Char) : Bool := c == ' ' || c == '\t' || c == '\n' || c == '\r'

def skipBlanks (s : List Char) : List Char := s.dropWhile isBlank

theorem skipBlanks_length (s : List Char) : (skipBlanks s).length ≤ s.length := by
  unfold skipBlanks
  induction s with
  | nil => simp
  | cons c s ih =>
    simp only [List.dropWhile_cons]
    split <;> simp only [List.length_cons] <;> omega

/-- What was read and the text after it, which is shorter than the text `s` before. -/
structure Found (α : Type) (s : List Char) where
  item : α
  rest : List Char
  shorter : rest.length < s.length

/-- The character that a one-letter escape stands for. -/
def escaped? : Char → Option Char
  | '"' => some '"'
  | '\\' => some '\\'
  | '/' => some '/'
  | 'b' => some '\x08'
  | 'f' => some '\x0c'
  | 'n' => some '\n'
  | 'r' => some '\r'
  | 't' => some '\t'
  | _ => none

/-- The value of four hexadecimal digits. -/
def unit? (a b c d : Char) : Option Nat := do
  let a ← Text.hexValue? a
  let b ← Text.hexValue? b
  let c ← Text.hexValue? c
  let d ← Text.hexValue? d
  return 4096 * a + 256 * b + 16 * c + d

/-- The code units of a string after its opening quote, and the text after its closing one. -/
def units? : List Char → Option (List Nat × List Char)
  | [] => none
  | '"' :: rest => some ([], rest)
  | '\\' :: 'u' :: a :: b :: c :: d :: rest => do
    let unit ← unit? a b c d
    let (units, rest) ← units? rest
    return (unit :: units, rest)
  | '\\' :: c :: rest => do
    let c ← escaped? c
    let (units, rest) ← units? rest
    return (c.toNat :: units, rest)
  | c :: rest =>
    if c.toNat < 0x20 then none
    else do
      let (units, rest) ← units? rest
      return (c.toNat :: units, rest)

theorem units?_length {s rest : List Char} {units : List Nat} (h : units? s = some (units, rest)) :
    rest.length < s.length := by
  fun_induction units? s generalizing units rest with
  | case1 => cases h
  | case2 => simp_all
  | case3 a b c d s ih =>
    simp only [Option.bind_eq_bind, Option.bind_eq_some_iff, Option.pure_def, Option.some.injEq,
      Prod.mk.injEq, Prod.exists] at h
    obtain ⟨_, _, _, _, hs, rfl, rfl⟩ := h
    have := ih hs
    simp only [List.length_cons]
    omega
  | case4 c s _ ih =>
    simp only [Option.bind_eq_bind, Option.bind_eq_some_iff, Option.pure_def, Option.some.injEq,
      Prod.mk.injEq, Prod.exists] at h
    obtain ⟨_, _, _, _, hs, rfl, rfl⟩ := h
    have := ih hs
    simp only [List.length_cons]
    omega
  | case5 => cases h
  | case6 c s _ _ _ _ ih =>
    simp only [Option.bind_eq_bind, Option.bind_eq_some_iff, Option.pure_def, Option.some.injEq,
      Prod.mk.injEq, Prod.exists] at h
    obtain ⟨_, _, hs, rfl, rfl⟩ := h
    have := ih hs
    simp only [List.length_cons]
    omega

/-- The characters of code units, two surrogates that make a pair being one. -/
def joinUnits : List Nat → List Char
  | [] => []
  | [unit] => [Char.ofNat unit]
  | high :: low :: rest =>
    if 0xD800 ≤ high ∧ high < 0xDC00 ∧ 0xDC00 ≤ low ∧ low < 0xE000 then
      Char.ofNat (0x10000 + 0x400 * (high - 0xD800) + (low - 0xDC00)) :: joinUnits rest
    else Char.ofNat high :: joinUnits (low :: rest)

/-- A string after its opening quote. -/
def string? (s : List Char) : Option (Found String s) :=
  match h : units? s with
  | some (units, rest) => some ⟨String.ofList (joinUnits units), rest, units?_length h⟩
  | none => none

/-- The digits that a text starts with, and the text after them. -/
def spanDigits (s : List Char) : List Char × List Char :=
  (s.takeWhile Char.isDigit, s.dropWhile Char.isDigit)

def natOfDigits (digits : List Char) : Nat :=
  digits.foldl (fun n c => 10 * n + (c.toNat - 0x30)) 0

/-- A fraction with its point, if the text starts with one. -/
def spanFraction : List Char → List Char × List Char
  | '.' :: rest => if (spanDigits rest).1.isEmpty then ([], '.' :: rest) else spanDigits rest
  | s => ([], s)

/-- An exponent with its mark and sign, if the text starts with one. -/
def spanExponent (s : List Char) : Option Int × List Char :=
  match s with
  | c :: rest =>
    if c == 'e' || c == 'E' then
      let (negative, digits) := match rest with
        | '-' :: rest => (true, spanDigits rest)
        | '+' :: rest => (false, spanDigits rest)
        | rest => (false, spanDigits rest)
      if digits.1.isEmpty then (none, s)
      else
        let exponent : Int := natOfDigits digits.1
        (some (if negative then -exponent else exponent), digits.2)
    else (none, s)
  | [] => (none, s)

/-- The whole digits that a number may start with: a zero, or digits that start with none. -/
def spanWhole : List Char → List Char × List Char
  | '0' :: rest => (['0'], rest)
  | s => spanDigits s

/-- A number after its sign, and the text after it. -/
def unsigned? (negative : Bool) (s : List Char) : Option (Value × List Char) :=
  let (whole, rest) := spanWhole s
  if whole.isEmpty then none
  else
    let (fraction, rest) := spanFraction rest
    let (exponent, rest) := spanExponent rest
    if fraction.isEmpty && exponent.isNone then
      let n : Int := natOfDigits whole
      some (.int (if negative then -n else n), rest)
    else
      some (.float (.ofDecimal negative (natOfDigits (whole ++ fraction))
        (exponent.getD 0 - fraction.length)), rest)

/-- The words that are values. -/
def words : List (List Char × Value) :=
  [("null".toList, .null), ("true".toList, .bool true), ("false".toList, .bool false),
   ("NaN".toList, .float .nan), ("Infinity".toList, .float (.infinite false)),
   ("-Infinity".toList, .float (.infinite true))]

/-- A word or a number, and the text after it. -/
def scalar? (s : List Char) : Option (Value × List Char) :=
  match words.find? fun word => word.1.isPrefixOf s with
  | some word => some (word.2, s.drop word.1.length)
  | none =>
    match s with
    | '-' :: rest => unsigned? true rest
    | s => unsigned? false s

mutual

/-- A value, blanks before it skipped. -/
def value? (s : List Char) : Option (Found Value s) :=
  let t := skipBlanks s
  have ht : t.length ≤ s.length := skipBlanks_length s
  match h : t with
  | [] => none
  | '"' :: rest => do
    let ⟨item, rest', hr⟩ ← string? rest
    return ⟨.text item, rest', by simp only [List.length_cons] at ht; omega⟩
  | '[' :: rest =>
    match h' : skipBlanks rest with
    | ']' :: rest' =>
      some ⟨.list [], rest', by
        have := skipBlanks_length rest
        simp only [h', List.length_cons] at ht this
        omega⟩
    | _ => do
      let ⟨items, rest', hr⟩ ← items? rest
      return ⟨.list items, rest', by simp only [List.length_cons] at ht; omega⟩
  | '\x7b' :: rest =>
    match h' : skipBlanks rest with
    | '\x7d' :: rest' =>
      some ⟨.table [], rest', by
        have := skipBlanks_length rest
        simp only [h', List.length_cons] at ht this
        omega⟩
    | _ => do
      let ⟨entries, rest', hr⟩ ← entries? rest
      return ⟨.table (Entries.ofList entries), rest', by
        simp only [List.length_cons] at ht; omega⟩
  | c :: rest =>
    match scalar? (c :: rest) with
    | some (item, rest') =>
      if hr : rest'.length < s.length then some ⟨item, rest', hr⟩ else none
    | none => none
termination_by (s.length, 0)
decreasing_by all_goals
  simp only [List.length_cons] at ht
  exact Prod.Lex.left _ _ (by omega)

/-- The items of an array, and its closing bracket. -/
def items? (s : List Char) : Option (Found (List Value) s) := do
  let ⟨item, rest, hr⟩ ← value? s
  match h : skipBlanks rest with
  | ',' :: rest' =>
    have hl : rest'.length < s.length := by
      have := skipBlanks_length rest
      simp only [h, List.length_cons] at this
      omega
    let ⟨items, rest'', hr'⟩ ← items? rest'
    return ⟨item :: items, rest'', by omega⟩
  | ']' :: rest' =>
    return ⟨[item], rest', by
      have := skipBlanks_length rest
      simp only [h, List.length_cons] at this
      omega⟩
  | _ => none
termination_by (s.length, 1)
decreasing_by
  · exact Prod.Lex.right _ Nat.zero_lt_one
  · exact Prod.Lex.left _ _ hl

/-- The entries of an object, and its closing bracket. -/
def entries? (s : List Char) : Option (Found (List (String × Value)) s) :=
  match h : skipBlanks s with
  | '"' :: afterQuote => do
    have h0 : afterQuote.length < s.length := by
      have := skipBlanks_length s
      simp only [h, List.length_cons] at this
      omega
    let ⟨key, afterKey, h1⟩ ← string? afterQuote
    match h2 : skipBlanks afterKey with
    | ':' :: afterColon =>
      have h3 : afterColon.length < s.length := by
        have := skipBlanks_length afterKey
        simp only [h2, List.length_cons] at this
        omega
      let ⟨item, rest, h4⟩ ← value? afterColon
      match h5 : skipBlanks rest with
      | ',' :: rest' =>
        have hl : rest'.length < s.length := by
          have := skipBlanks_length rest
          simp only [h5, List.length_cons] at this
          omega
        let ⟨entries, rest'', hr⟩ ← entries? rest'
        return ⟨(key, item) :: entries, rest'', by omega⟩
      | '\x7d' :: rest' =>
        return ⟨[(key, item)], rest', by
          have := skipBlanks_length rest
          simp only [h5, List.length_cons] at this
          omega⟩
      | _ => none
    | _ => none
  | _ => none
termination_by (s.length, 1)
decreasing_by
  · exact Prod.Lex.left _ _ h3
  · exact Prod.Lex.left _ _ hl

end

/-- The value that a text writes. -/
def read? (s : List Char) : Option Value :=
  match value? s with
  | some found => if (skipBlanks found.rest).isEmpty then some found.item else none
  | none => none

end DscAudit.Json

import DscAudit.Json.Reader
import DscAudit.Json.Writer

/-!
# What the JSON reader does

The reader keeps with each value the evidence that the text behind it is shorter.  Without this
evidence, what it finds obeys simple equations, one for values, one for items and one for entries.
-/

namespace DscAudit.Json

variable {α β : Type} {s t : List Char}

/-- What was found, and the text after it. -/
def out (found : Option (Found α s)) : Option (α × List Char) :=
  found.map fun found => (found.item, found.rest)

theorem out_bind {found : Option (Found α s)} {next : Found α s → Option (Found β t)}
    {after : α × List Char → Option (β × List Char)}
    (hnext : ∀ item rest hrest, out (next ⟨item, rest, hrest⟩) = after (item, rest)) :
    out (found >>= next) = (out found).bind after := by
  rcases found with _ | ⟨item, rest, hrest⟩
  · rfl
  · exact hnext item rest hrest

theorem out_value? (s : List Char) : out (value? s) =
    match skipBlanks s with
    | [] => none
    | '"' :: rest => (out (string? rest)).bind fun read => some (.text read.1, read.2)
    | '[' :: rest =>
      match skipBlanks rest with
      | ']' :: after => some (.list [], after)
      | _ => (out (items? rest)).bind fun read => some (.list read.1, read.2)
    | '\x7b' :: rest =>
      match skipBlanks rest with
      | '\x7d' :: after => some (.table [], after)
      | _ => (out (entries? rest)).bind fun read => some (.table (Entries.ofList read.1), read.2)
    | c :: rest => (scalar? (c :: rest)).filter fun read => read.2.length < s.length := by
  rw [value?]
  split
  · rename_i hs _
    simp only [hs]
    rfl
  · rename_i hs _
    simp only [hs]
    exact out_bind fun _ _ _ => rfl
  · rename_i hs _
    simp only [hs]
    split
    · rename_i hrest
      simp only [hrest]
      rfl
    · split
      · exact absurd ‹_› (by simp_all)
      · exact out_bind fun _ _ _ => rfl
  · rename_i hs _
    simp only [hs]
    split
    · rename_i hrest
      simp only [hrest]
      rfl
    · split
      · exact absurd ‹_› (by simp_all)
      · exact out_bind fun _ _ _ => rfl
  · rename_i hs _
    simp only [hs]
    split
    · rename_i hscalar
      rw [hscalar]
      split
      · rename_i hshorter
        simp [out, Option.filter, hshorter]
      · rename_i hlonger
        simp [out, Option.filter, hlonger]
    · rename_i hscalar
      rw [hscalar]
      rfl

theorem out_value?_items {rest : List Char} (hs : skipBlanks s = '[' :: rest)
    (hopen : (skipBlanks rest).head? ≠ some ']') :
    out (value? s) = (out (items? rest)).bind fun read => some (.list read.1, read.2) := by
  rw [out_value?]
  simp only [hs]
  split
  · rename_i hclosed
    exact absurd (by rw [hclosed]; rfl) hopen
  · rfl

theorem out_value?_entries {rest : List Char} (hs : skipBlanks s = '\x7b' :: rest)
    (hopen : (skipBlanks rest).head? ≠ some '\x7d') :
    out (value? s) =
      (out (entries? rest)).bind fun read => some (.table (Entries.ofList read.1), read.2) := by
  rw [out_value?]
  simp only [hs]
  split
  · rename_i hclosed
    exact absurd (by rw [hclosed]; rfl) hopen
  · rfl

theorem out_items? (s : List Char) : out (items? s) =
    (out (value? s)).bind fun read =>
      match skipBlanks read.2 with
      | ',' :: rest => (out (items? rest)).bind fun more => some (read.1 :: more.1, more.2)
      | ']' :: rest => some ([read.1], rest)
      | _ => none := by
  rw [items?]
  refine out_bind fun item rest hrest => ?_
  dsimp only
  split
  · rename_i hbehind
    simp only [hbehind]
    exact out_bind fun _ _ _ => rfl
  · rename_i hbehind
    simp only [hbehind]
    rfl
  · split
    · exact absurd ‹_› (by simp_all)
    · exact absurd ‹_› (by simp_all)
    · rfl

/-- What is read behind an entry: more entries, or the mark that closes the table. -/
def behindEntry (entry : String × Value) (s : List Char) :
    Option (List (String × Value) × List Char) :=
  match skipBlanks s with
  | ',' :: rest => (out (entries? rest)).bind fun more => some (entry :: more.1, more.2)
  | '\x7d' :: rest => some ([entry], rest)
  | _ => none

theorem out_entries? (s : List Char) : out (entries? s) =
    match skipBlanks s with
    | '"' :: rest => (out (string? rest)).bind fun key =>
      match skipBlanks key.2 with
      | ':' :: rest => (out (value? rest)).bind fun read => behindEntry (key.1, read.1) read.2
      | _ => none
    | _ => none := by
  rw [entries?]
  split
  · rename_i hs
    simp only [hs]
    refine out_bind fun key rest hkey => ?_
    dsimp only
    split
    · rename_i hcolon
      simp only [hcolon]
      refine out_bind fun item rest hitem => ?_
      dsimp only [behindEntry]
      split
      · rename_i hbehind
        simp only [hbehind]
        exact out_bind fun _ _ _ => rfl
      · rename_i hbehind
        simp only [hbehind]
        rfl
      · split
        · exact absurd ‹_› (by simp_all)
        · exact absurd ‹_› (by simp_all)
        · rfl
    · split
      · exact absurd ‹_› (by simp_all)
      · rfl
  · split
    · exact absurd ‹_› (by simp_all)
    · rfl

end DscAudit.Json

/-!
## Strings in JSON

A string is written in characters that stand for themselves and in escapes.  Reading gives the code units
of its characters, and joining these gives the characters.
-/

namespace DscAudit.Text

theorem hexValue?_hexDigit {value : Nat} (hvalue : value < 16) :
    hexValue? (hexDigit value) = some value := by
  have hall : ∀ value < 16, hexValue? (hexDigit value) = some value := by decide
  exact hall value hvalue

theorem hexDigit_bounds (value : Nat) : 0x20 ≤ (hexDigit (value % 16)).toNat := by
  have hall : ∀ value < 16, 0x20 ≤ (hexDigit value).toNat := by decide
  exact hall (value % 16) (Nat.mod_lt _ (by decide))

end DscAudit.Text

namespace DscAudit.Json

open Text (hexDigit hexDigits)

/-- The code units of a character. -/
def unitsOf (c : Char) : List Nat :=
  if c.toNat < 0x10000 then [c.toNat]
  else [0xD800 + (c.toNat - 0x10000) / 0x400, 0xDC00 + (c.toNat - 0x10000) % 0x400]

/-! ### Escapes -/

/-- The way in which a character is written. -/
inductive Escape (c : Char) : List Char → Prop where
  | letter {letter : Char} (hletter : letter ≠ 'u') (hescaped : escaped? letter = some c)
      (hprintable : 0x20 ≤ letter.toNat) (hsmall : c.toNat < 0x10000) : Escape c ['\\', letter]
  | itself (hquote : c ≠ '"') (hbackslash : c ≠ '\\') (hprintable : 0x20 ≤ c.toNat)
      (hsmall : c.toNat < 0x10000) : Escape c [c]
  | unit (hsmall : c.toNat < 0x10000) : Escape c (escapeUnit c.toNat)
  | pair (hlarge : 0x10000 ≤ c.toNat) :
      Escape c (escapeUnit (0xD800 + (c.toNat - 0x10000) / 0x400) ++
        escapeUnit (0xDC00 + (c.toNat - 0x10000) % 0x400))

theorem escape_cases (c : Char) : Escape c (escape c) := by
  have hletter : ∀ letter d : Char, escaped? letter = some d → letter ≠ 'u' →
      0x20 ≤ letter.toNat → d.toNat < 0x10000 → c = d → Escape c ['\\', letter] := by
    rintro letter d hescaped hne hprintable hsmall rfl
    exact .letter hne hescaped hprintable hsmall
  unfold escape
  simp only [beq_iff_eq]
  split
  · exact hletter '"' '"' rfl (by decide) (by decide) (by decide) ‹_›
  split
  · exact hletter '\\' '\\' rfl (by decide) (by decide) (by decide) ‹_›
  split
  · exact hletter 'n' '\n' rfl (by decide) (by decide) (by decide) ‹_›
  split
  · exact hletter 'r' '\r' rfl (by decide) (by decide) (by decide) ‹_›
  split
  · exact hletter 't' '\t' rfl (by decide) (by decide) (by decide) ‹_›
  split
  · exact hletter 'b' '\x08' rfl (by decide) (by decide) (by decide) ‹_›
  split
  · exact hletter 'f' '\x0c' rfl (by decide) (by decide) (by decide) ‹_›
  split
  · rename_i hprintable
    rw [Bool.and_eq_true, decide_eq_true_eq, decide_eq_true_eq] at hprintable
    exact .itself ‹¬ c = '"'› ‹¬ c = '\\'› hprintable.1 (by omega)
  split
  · rename_i hsmall
    exact .unit hsmall
  · rename_i hlarge
    exact .pair (Nat.le_of_not_lt hlarge)

theorem toNat_lt (c : Char) : c.toNat < 0x110000 := by
  rcases c.valid with hbelow | ⟨-, hbelow⟩
  · exact Nat.lt_trans hbelow (by decide)
  · exact hbelow

theorem escapeUnit_eq (unit : Nat) :
    escapeUnit unit = ['\\', 'u', hexDigit (unit / 16 / 16 / 16 % 16), hexDigit (unit / 16 / 16 % 16),
      hexDigit (unit / 16 % 16), hexDigit (unit % 16)] := rfl

theorem units?_escapeUnit {unit : Nat} (hunit : unit < 0x10000) (s : List Char) :
    units? (escapeUnit unit ++ s) = (units? s).map fun read => (unit :: read.1, read.2) := by
  have hvalue := fun value => Text.hexValue?_hexDigit (Nat.mod_lt value (show 0 < 16 by decide))
  have hsum : 4096 * (unit / 16 / 16 / 16 % 16) + 256 * (unit / 16 / 16 % 16) +
      16 * (unit / 16 % 16) + unit % 16 = unit := by omega
  rw [escapeUnit_eq]
  simp only [List.cons_append, List.nil_append, units?, unit?, hvalue, Option.bind_eq_bind,
    Option.pure_def, Option.bind_some, hsum]
  cases units? s <;> rfl

/-- What is written for a character is read as its code units. -/
theorem units?_escape (c : Char) (s : List Char) :
    units? (escape c ++ s) = (units? s).map fun read => (unitsOf c ++ read.1, read.2) := by
  have hsmall_units : c.toNat < 0x10000 → unitsOf c = [c.toNat] := fun hsmall => if_pos hsmall
  have hescape := escape_cases c
  generalize escape c = written at hescape
  cases hescape with
  | letter hletter hescaped hprintable hsmall =>
    rw [hsmall_units hsmall]
    rename_i letter
    have hread : units? ('\\' :: letter :: s) = (escaped? letter).bind fun c =>
        (units? s).map fun read => (c.toNat :: read.1, read.2) := by
      rw [units?]
      · cases units? s <;> rfl
      · exact fun _ _ _ _ _ heq _ => hletter heq
    simp only [List.cons_append, List.nil_append, hread, hescaped, Option.bind_some]
  | itself hquote hbackslash hprintable hsmall =>
    rw [hsmall_units hsmall]
    have hread : units? (c :: s) =
        (units? s).map fun read => (c.toNat :: read.1, read.2) := by
      rw [units?, if_neg (Nat.not_lt.mpr hprintable)]
      · cases units? s <;> rfl
      · exact hquote
      · exact fun _ _ _ _ _ heq _ => hbackslash heq
      · exact fun _ _ heq _ => hbackslash heq
    simp only [List.cons_append, List.nil_append, hread]
  | unit hsmall => rw [hsmall_units hsmall, units?_escapeUnit hsmall]; rfl
  | pair hlarge =>
    have hbound : c.toNat < 0x110000 := toNat_lt c
    rw [List.append_assoc, units?_escapeUnit (by omega), units?_escapeUnit (by omega),
      unitsOf, if_neg (Nat.not_lt.mpr hlarge)]
    cases units? s <;> rfl

theorem joinUnits_append (c : Char) (units : List Nat) :
    joinUnits (unitsOf c ++ units) = c :: joinUnits units := by
  unfold unitsOf
  split
  · rename_i hsmall
    have hvalid := c.valid
    cases units with
    | nil => simp [joinUnits]
    | cons low units =>
      have hlow : ¬ (0xD800 ≤ c.toNat ∧ c.toNat < 0xDC00 ∧ 0xDC00 ≤ low ∧ low < 0xE000) := by
        rcases hvalid with hbelow | ⟨habove, -⟩
        · have : c.toNat < 0xD800 := hbelow
          omega
        · have : 0xDFFF < c.toNat := habove
          omega
      simp only [List.cons_append, List.nil_append, joinUnits, if_neg hlow, Char.ofNat_toNat]
  · rename_i hlarge
    have hbound : c.toNat < 0x110000 := toNat_lt c
    have hpair : 0xD800 ≤ 0xD800 + (c.toNat - 0x10000) / 0x400 ∧
        0xD800 + (c.toNat - 0x10000) / 0x400 < 0xDC00 ∧
        0xDC00 ≤ 0xDC00 + (c.toNat - 0x10000) % 0x400 ∧
        0xDC00 + (c.toNat - 0x10000) % 0x400 < 0xE000 := by omega
    have hsum : 0x10000 + 0x400 * (0xD800 + (c.toNat - 0x10000) / 0x400 - 0xD800) +
        (0xDC00 + (c.toNat - 0x10000) % 0x400 - 0xDC00) = c.toNat := by omega
    simp only [List.cons_append, List.nil_append, joinUnits, if_pos hpair, hsum, Char.ofNat_toNat]

theorem joinUnits_flatMap (s : List Char) : joinUnits (s.flatMap unitsOf) = s := by
  induction s with
  | nil => rfl
  | cons c s ih => rw [List.flatMap_cons, joinUnits_append, ih]

theorem units?_flatMap (s rest : List Char) :
    units? (s.flatMap escape ++ '"' :: rest) = some (s.flatMap unitsOf, rest) := by
  induction s with
  | nil => rfl
  | cons c s ih =>
    rw [List.flatMap_cons, List.append_assoc, units?_escape, ih]
    rfl

/-- A written string after its opening quote is read as it was. -/
theorem out_string?_quoted (s : String) (rest : List Char) :
    out (string? (s.toList.flatMap escape ++ '"' :: rest)) = some (s, rest) := by
  unfold string?
  split
  · rename_i units after hunits
    rw [units?_flatMap] at hunits
    cases hunits
    simp [out, joinUnits_flatMap]
  · rename_i hunits
    rw [units?_flatMap] at hunits
    cases hunits

/-! ### Lines -/

theorem newline_not_mem_escape (c : Char) : '\n' ∉ escape c := by
  have hdigit : ∀ value, '\n' ≠ hexDigit (value % 16) := by
    intro value heq
    have := Text.hexDigit_bounds value
    rw [← heq] at this
    exact absurd this (by decide)
  have hunit : ∀ unit, '\n' ∉ escapeUnit unit := by
    intro unit
    rw [escapeUnit_eq]
    simp [hdigit]
  have hprinted : ∀ {d : Char}, 0x20 ≤ d.toNat → '\n' ≠ d := by
    rintro d hprintable rfl
    exact absurd hprintable (by decide)
  have hescape := escape_cases c
  generalize escape c = written at hescape
  cases hescape with
  | letter _ _ hprintable _ => simp [hprinted hprintable]
  | itself _ _ hprintable _ => simp [hprinted hprintable]
  | unit => exact hunit _
  | pair => simp [hunit]

theorem newline_not_mem_quote (s : String) : '\n' ∉ quote s := by
  unfold quote
  simp [newline_not_mem_escape]

end DscAudit.Json

import DscAudit.Json.Reader
import DscAudit.Json.Writer
import DscAudit.Proofs.Decimal.Text
import DscAudit.Proofs.Json.Reading
import DscAudit.Proofs.Text.Character
import DscAudit.Proofs.Value.Table

/-!
# Reading what was written

A word or a number is read up to the mark behind it.  An integer is read as it was; a floating point
number is read as one.  A value that is written on one line stands on one line, and reading this line gives
the value: its tables in the order of their keys, and its floating point numbers as their texts give them.
-/

namespace DscAudit.Json

open Decimal (Binary64 IsWholeText IsFractionText IsFloatText exponentText)

/-- What may stand behind a value: nothing, or a mark that ends an item. -/
def EndsValue (rest : List Char) : Prop := ∀ c ∈ rest.head?, c = ',' ∨ c = ']' ∨ c = '\x7d'

theorem EndsValue.nil : EndsValue [] := nofun

theorem EndsValue.cons {c : Char} (hc : c = ',' ∨ c = ']' ∨ c = '\x7d') (rest : List Char) :
    EndsValue (c :: rest) := by
  intro d hd
  cases hd
  exact hc

/-- A class of characters to which no such mark belongs does not go on behind a value. -/
theorem EndsValue.not_of {rest : List Char} (hrest : EndsValue rest) {p : Char → Bool}
    (hp : p ',' = false ∧ p ']' = false ∧ p '\x7d' = false) : ∀ c ∈ rest.head?, p c = false := by
  intro c hc
  rcases hrest c hc with rfl | rfl | rfl
  · exact hp.1
  · exact hp.2.1
  · exact hp.2.2

/-! ## The parts of a number -/

theorem spanDigits_append {digits rest : List Char} (hdigits : ∀ c ∈ digits, c.isDigit = true)
    (hrest : ∀ c ∈ rest.head?, c.isDigit = false) : spanDigits (digits ++ rest) = (digits, rest) := by
  obtain ⟨htake, hdrop⟩ := Text.takeWhile_append_of_head? hdigits hrest
  rw [spanDigits, htake, hdrop]

theorem spanWhole_append {whole rest : List Char} (hwhole : IsWholeText whole)
    (hrest : ∀ c ∈ rest.head?, c.isDigit = false) : spanWhole (whole ++ rest) = (whole, rest) := by
  rcases hwhole.noZero with rfl | hfirst
  · rfl
  · obtain ⟨c, more, rfl, -⟩ := hwhole.exists_cons
    have hc : c ≠ '0' := fun heq => hfirst (by rw [heq]; rfl)
    rw [List.cons_append, spanWhole]
    · exact spanDigits_append hwhole.isDigit hrest
    · exact fun _ heq => hc (List.cons.inj heq).1

theorem spanFraction_append {fraction rest : List Char} (hfraction : IsFractionText fraction)
    (hrest : ∀ c ∈ rest.head?, c.isDigit = false) :
    spanFraction ('.' :: fraction ++ rest) = (fraction, rest) := by
  rw [List.cons_append, spanFraction, spanDigits_append hfraction.isDigit hrest]
  exact if_neg (by simpa using hfraction.ne_nil)

theorem spanFraction_of_head? {rest : List Char} (hrest : ∀ c ∈ rest.head?, (c == '.') = false) :
    spanFraction rest = ([], rest) := by
  unfold spanFraction
  split
  · exact absurd (hrest '.' rfl) (by decide)
  · rfl

theorem spanExponent_of_head? {rest : List Char}
    (hrest : ∀ c ∈ rest.head?, (c == 'e' || c == 'E') = false) : spanExponent rest = (none, rest) := by
  cases rest with
  | nil => rfl
  | cons c rest =>
    have hc : (c == 'e' || c == 'E') = false := hrest c rfl
    unfold spanExponent
    simp only [hc]
    rfl

theorem spanExponent_append (exponent : Int) :
    ∃ read, ∀ {rest : List Char}, (∀ c ∈ rest.head?, c.isDigit = false) →
      spanExponent ('e' :: exponentText exponent ++ rest) = (some read, rest) := by
  obtain ⟨digits, htext, hne, hdigits⟩ := Decimal.exponentText_cases exponent
  have hempty : digits.isEmpty = false := by simpa using hne
  refine ⟨if exponent < 0 then -(natOfDigits digits : Int) else natOfDigits digits, ?_⟩
  intro rest hrest
  have hspan := spanDigits_append hdigits hrest
  rw [htext]
  split <;> simp [spanExponent, hspan, hempty]

/-! ## Numbers -/

theorem natOfDigits_toDigits (n : Nat) : natOfDigits (Nat.toDigits 10 n) = n := by
  have hvalue : Nat.ofDigitChars 10 (Nat.toDigits 10 n) 0 = n := Nat.ofDigitChars_ten_toDigits
  rw [Nat.ofDigitChars_eq_foldl] at hvalue
  exact hvalue

theorem unsigned?_toDigits (negative : Bool) (n : Nat) {rest : List Char} (hrest : EndsValue rest) :
    unsigned? negative (Nat.toDigits 10 n ++ rest) =
      some (.int (if negative then -(n : Int) else n), rest) := by
  have hwhole := spanWhole_append (Decimal.isWholeText_toDigits n) (hrest.not_of (by decide))
  have hfraction := spanFraction_of_head? (hrest.not_of (by decide))
  have hexponent := spanExponent_of_head? (hrest.not_of (by decide))
  have hne : (Nat.toDigits 10 n).isEmpty = false := by simp [Nat.toDigits_ne_nil]
  simp only [unsigned?, hwhole, hfraction, hexponent, hne, natOfDigits_toDigits]
  rfl

theorem unsigned?_float (negative : Bool) {text : List Char} (htext : IsFloatText text) :
    ∃ x, ∀ {rest : List Char}, EndsValue rest →
      unsigned? negative (text ++ rest) = some (.float x, rest) := by
  have hdigit : ∀ {rest : List Char}, EndsValue rest → ∀ c ∈ rest.head?, c.isDigit = false :=
    fun hrest => hrest.not_of (by decide)
  have hnoExponent : ∀ {rest : List Char}, EndsValue rest → spanExponent rest = (none, rest) :=
    fun hrest => spanExponent_of_head? (hrest.not_of (by decide))
  cases htext with
  | @fraction whole fraction hwhole hfraction =>
    have hempty : whole.isEmpty = false := by simpa using hwhole.ne_nil
    have hempty' : fraction.isEmpty = false := by simpa using hfraction.ne_nil
    refine ⟨.ofDecimal negative (natOfDigits (whole ++ fraction)) (0 - fraction.length), ?_⟩
    intro rest hrest
    have hspan : spanWhole (whole ++ ('.' :: fraction ++ rest)) = (whole, '.' :: fraction ++ rest) :=
      spanWhole_append hwhole (by simp)
    rw [List.append_assoc]
    simp only [unsigned?, hspan, spanFraction_append hfraction (hdigit hrest), hnoExponent hrest,
      hempty, hempty']
    rfl
  | @exponent whole hwhole exponent =>
    have hempty : whole.isEmpty = false := by simpa using hwhole.ne_nil
    obtain ⟨read, hread⟩ := spanExponent_append exponent
    refine ⟨.ofDecimal negative (natOfDigits (whole ++ [])) (read - ([] : List Char).length), ?_⟩
    intro rest hrest
    have hspan : spanWhole (whole ++ ('e' :: exponentText exponent ++ rest)) =
        (whole, 'e' :: exponentText exponent ++ rest) := spanWhole_append hwhole (by simp)
    have hnoFraction : spanFraction ('e' :: exponentText exponent ++ rest) =
        ([], 'e' :: exponentText exponent ++ rest) := spanFraction_of_head? (by simp)
    rw [List.append_assoc]
    simp only [unsigned?, hspan, hnoFraction, hread (hdigit hrest), hempty]
    rfl
  | @scaled whole fraction hwhole hfraction exponent =>
    have hempty : whole.isEmpty = false := by simpa using hwhole.ne_nil
    obtain ⟨read, hread⟩ := spanExponent_append exponent
    refine ⟨.ofDecimal negative (natOfDigits (whole ++ fraction)) (read - fraction.length), ?_⟩
    intro rest hrest
    have hspan : spanWhole (whole ++ ('.' :: fraction ++ ('e' :: exponentText exponent ++ rest))) =
        (whole, '.' :: fraction ++ ('e' :: exponentText exponent ++ rest)) :=
      spanWhole_append hwhole (by simp)
    have hfractionSpan : spanFraction ('.' :: fraction ++ ('e' :: exponentText exponent ++ rest)) =
        (fraction, 'e' :: exponentText exponent ++ rest) := spanFraction_append hfraction (by simp)
    rw [List.append_assoc, List.append_assoc]
    simp only [unsigned?, hspan, hfractionSpan, hread (hdigit hrest), hempty]
    simp

/-! ## Words and numbers -/

theorem find?_words {c : Char} {s : List Char}
    (hc : c.isDigit = true ∨ c = '-' ∧ ∀ d ∈ s.head?, d ≠ 'I') :
    (words.find? fun word => word.1.isPrefixOf (c :: s)) = none := by
  have hstart : ∀ word ∈ words, ∃ d e rest, word.1 = d :: e :: rest ∧ d.isDigit = false ∧
      (d = '-' → e = 'I') := by
    intro word hword
    simp only [words, List.mem_cons, List.not_mem_nil, or_false] at hword
    rcases hword with rfl | rfl | rfl | rfl | rfl | rfl <;>
      exact ⟨_, _, _, rfl, by decide, by decide⟩
  rw [List.find?_eq_none]
  intro word hword hstarts
  obtain ⟨d, e, rest, heq, hd, he⟩ := hstart word hword
  rw [heq, List.isPrefixOf_iff_prefix] at hstarts
  obtain ⟨rfl, more, rfl⟩ := List.cons_prefix_cons.mp hstarts
  rcases hc with hdigit | ⟨hminus, hsecond⟩
  · rw [hd] at hdigit
    cases hdigit
  · exact hsecond e rfl (he hminus)

theorem scalar?_of_isDigit {c : Char} {s : List Char} (hc : c.isDigit = true) :
    scalar? (c :: s) = unsigned? false (c :: s) := by
  rw [scalar?, find?_words (.inl hc)]
  intro rest heq
  rw [(List.cons.inj heq).1] at hc
  cases hc

theorem scalar?_minus {c : Char} {s : List Char} (hc : c.isDigit = true) :
    scalar? ('-' :: c :: s) = unsigned? true (c :: s) := by
  have hsecond : ∀ d ∈ (c :: s).head?, d ≠ 'I' := by
    rintro d hd rfl
    cases hd
    cases hc
  rw [scalar?, find?_words (.inr ⟨rfl, hsecond⟩)]

theorem scalar?_integerText (n : Int) {rest : List Char} (hrest : EndsValue rest) :
    scalar? (integerText n ++ rest) = some (.int n, rest) := by
  have hread := fun negative => unsigned?_toDigits negative n.natAbs hrest
  obtain ⟨c, digits, hdigits, hc⟩ := (Decimal.isWholeText_toDigits n.natAbs).exists_cons
  rw [hdigits] at hread
  rcases Decimal.integerText_cases n with ⟨hn, htext⟩ | ⟨hn, htext⟩
  · have habs : -(n.natAbs : Int) = n := by omega
    rw [htext, hdigits, List.cons_append, List.cons_append, scalar?_minus hc, ← List.cons_append,
      hread, if_pos rfl, habs]
  · have habs : (n.natAbs : Int) = n := by omega
    rw [htext, hdigits, List.cons_append, scalar?_of_isDigit hc, ← List.cons_append, hread,
      if_neg Bool.false_ne_true, habs]

/-- A floating point number is read as one. -/
theorem scalar?_float (x : Binary64) : ∃ y, ∀ {rest : List Char}, EndsValue rest →
    scalar? (number x ++ rest) = some (.float y, rest) := by
  cases x with
  | nan => exact ⟨.nan, fun _ => rfl⟩
  | infinite negative =>
    cases negative with
    | false => exact ⟨.infinite false, fun _ => rfl⟩
    | true => exact ⟨.infinite true, fun _ => rfl⟩
  | finite negative units =>
    obtain ⟨text, htext, heq⟩ := Binary64.text_finite negative units
    obtain ⟨c, digits, hdigits, hc⟩ := htext.exists_cons
    obtain ⟨y, hread⟩ := unsigned?_float negative htext
    have hnumber : number (.finite negative units) = (if negative then ['-'] else []) ++ text := heq
    refine ⟨y, fun hrest => ?_⟩
    have hunsigned := hread hrest
    rw [hnumber]
    rw [hdigits] at hunsigned ⊢
    cases negative with
    | false => exact (scalar?_of_isDigit hc).trans hunsigned
    | true => exact (scalar?_minus hc).trans hunsigned

/-- The number that the text of a number gives. -/
def numberRead (x : Binary64) : Binary64 :=
  match scalar? (number x) with
  | some (.float y, _) => y
  | _ => x

theorem scalar?_number (x : Binary64) {rest : List Char} (hrest : EndsValue rest) :
    scalar? (number x ++ rest) = some (.float (numberRead x), rest) := by
  obtain ⟨y, hread⟩ := scalar?_float x
  have halone := hread .nil
  rw [List.append_nil] at halone
  rw [hread hrest, numberRead, halone]

/-! ## How words and numbers start -/

/-- Words and numbers start with a letter, a digit or a sign. -/
def startsScalar (c : Char) : Bool := c.isAlphanum || c == '-'

theorem startsScalar_of_isDigit {c : Char} (hc : c.isDigit = true) : startsScalar c = true := by
  simp [startsScalar, Char.isAlphanum, hc]

theorem integerText_starts (n : Int) :
    ∃ c rest, integerText n = c :: rest ∧ startsScalar c = true := by
  obtain ⟨c, digits, hdigits, hc⟩ := (Decimal.isWholeText_toDigits n.natAbs).exists_cons
  rcases Decimal.integerText_cases n with ⟨-, htext⟩ | ⟨-, htext⟩
  · exact ⟨'-', _, htext, rfl⟩
  · exact ⟨c, digits, htext.trans hdigits, startsScalar_of_isDigit hc⟩

theorem number_starts (x : Binary64) : ∃ c rest, number x = c :: rest ∧ startsScalar c = true := by
  cases x with
  | nan => exact ⟨_, _, rfl, rfl⟩
  | infinite negative => cases negative <;> exact ⟨_, _, rfl, rfl⟩
  | finite negative units =>
    obtain ⟨text, htext, heq⟩ := Binary64.text_finite negative units
    obtain ⟨c, digits, hdigits, hc⟩ := htext.exists_cons
    cases negative with
    | false => exact ⟨c, digits, heq.trans hdigits, startsScalar_of_isDigit hc⟩
    | true => exact ⟨'-', text, heq, rfl⟩

/-! ## Lines -/

theorem newline_not_mem_integerText (n : Int) : '\n' ∉ integerText n := by
  have hdigits : '\n' ∉ Nat.toDigits 10 n.natAbs :=
    fun hmem => absurd (Decimal.isDigit_toDigits _ hmem) (by decide)
  rcases Decimal.integerText_cases n with ⟨-, htext⟩ | ⟨-, htext⟩ <;> simp [htext, hdigits]

theorem newline_not_mem_number (x : Binary64) : '\n' ∉ number x := by
  cases x with
  | nan => decide
  | infinite negative => cases negative <;> decide
  | finite negative units =>
    obtain ⟨text, htext, heq⟩ := Binary64.text_finite negative units
    have hnumber : number (.finite negative units) = (if negative then ['-'] else []) ++ text := heq
    have hline : '\n' ∉ text := fun hmem => absurd (htext.mem _ hmem) (by decide)
    cases negative <;> simp [hnumber, hline]

end DscAudit.Json

/-! ## What is read -/

namespace DscAudit.Json

open Decimal (Binary64)

mutual

/-- The value that is read from the text of a value. -/
def reread : Value → Value
  | .null => .null
  | .bool b => .bool b
  | .int n => .int n
  | .float x => .float (numberRead x)
  | .text s => .text s
  | .list items => .list (rereadItems items)
  | .table entries => .table (Entries.ofList (Entries.byKey (rereadEntries entries)))

def rereadItems : List Value → List Value
  | [] => []
  | item :: items => reread item :: rereadItems items

def rereadEntries : List (String × Value) → List (String × Value)
  | [] => []
  | entry :: entries => (entry.1, reread entry.2) :: rereadEntries entries

end

theorem rereadItems_eq_map (items : List Value) : rereadItems items = items.map reread := by
  induction items with
  | nil => rfl
  | cons item items ih => rw [rereadItems, ih, List.map_cons]

theorem rereadEntries_eq_map (entries : List (String × Value)) :
    rereadEntries entries = entries.map fun entry => (entry.1, reread entry.2) := by
  induction entries with
  | nil => rfl
  | cons entry entries ih => rw [rereadEntries, ih, List.map_cons]

/-! ## What is written -/

variable {depth : Nat} {s rest : List Char}

theorem writeItems_eq_map (layout : Layout) (depth : Nat) (items : List Value) :
    writeItems layout depth items = items.map (writeAt layout depth) := by
  induction items with
  | nil => rfl
  | cons item items ih => rw [writeItems, ih, List.map_cons]

def entryText (depth : Nat) (entry : String × Value) : List Char :=
  quote entry.1 ++ [':', ' '] ++ writeAt .oneLine depth entry.2

theorem entryText_eq_cons (depth : Nat) (entry : String × Value) :
    entryText depth entry = '"' :: (entry.1.toList.flatMap escape ++
      '"' :: ':' :: ' ' :: writeAt .oneLine depth entry.2) := by
  simp [entryText, quote]

theorem writeEntries_eq_map (layout : Layout) (depth : Nat) (entries : List (String × Value)) :
    writeEntries layout depth entries =
      entries.map fun entry => (entry.1, writeAt layout depth entry.2) := by
  induction entries with
  | nil => rfl
  | cons entry entries ih => rw [writeEntries, ih, List.map_cons]

theorem entryTexts_eq (depth : Nat) (entries : List (String × Value)) :
    (sortEntries (writeEntries .oneLine depth entries)).map
        (fun entry => quote entry.1 ++ [':', ' '] ++ entry.2) =
      (Entries.byKey entries).map (entryText depth) := by
  have hsort : sortEntries (writeEntries .oneLine depth entries) =
      (Entries.byKey entries).map fun entry => (entry.1, writeAt .oneLine depth entry.2) := by
    rw [writeEntries_eq_map]
    exact (Entries.map_byKey (writeAt .oneLine depth) entries).symm
  rw [hsort, List.map_map]
  rfl

/-- Parts between brackets, with commas between them. -/
def enclosed (left right : Char) (parts : List (List Char)) : List Char :=
  left :: [',', ' '].intercalate parts ++ [right]

theorem enclosed_append (left right : Char) (parts : List (List Char)) (rest : List Char) :
    enclosed left right parts ++ rest = left :: ([',', ' '].intercalate parts ++ right :: rest) := by
  simp [enclosed]

theorem enclose_oneLine (depth : Nat) (left right : Char) (parts : List (List Char)) :
    Layout.oneLine.enclose depth left right parts = enclosed left right parts := by
  cases parts <;> rfl

theorem writeAt_list (depth : Nat) (items : List Value) : writeAt .oneLine depth (.list items) =
    enclosed '[' ']' (items.map (writeAt .oneLine (depth + 1))) := by
  rw [writeAt, enclose_oneLine, writeItems_eq_map]

theorem writeAt_table (depth : Nat) (entries : List (String × Value)) :
    writeAt .oneLine depth (.table entries) =
      enclosed '\x7b' '\x7d' ((Entries.byKey entries).map (entryText (depth + 1))) := by
  rw [writeAt, enclose_oneLine, entryTexts_eq]

/-- A written value starts with neither a blank nor the mark that closes a list. -/
theorem writeAt_starts (layout : Layout) (depth : Nat) (v : Value) :
    ∃ c text, writeAt layout depth v = c :: text ∧ isBlank c = false ∧ c ≠ ']' := by
  have hscalar : ∀ written : List Char,
      (∃ c rest, written = c :: rest ∧ startsScalar c = true) →
        ∃ c text, written = c :: text ∧ isBlank c = false ∧ c ≠ ']' := by
    rintro written ⟨c, rest, hwritten, hc⟩
    refine ⟨c, rest, hwritten, ?_, ?_⟩
    · by_contra hblank
      rw [Bool.not_eq_false, isBlank, Bool.or_eq_true, Bool.or_eq_true, Bool.or_eq_true, beq_iff_eq,
        beq_iff_eq, beq_iff_eq, beq_iff_eq] at hblank
      rcases hblank with ((rfl | rfl) | rfl) | rfl <;> cases hc
    · rintro rfl
      cases hc
  have hopen : ∀ (left right : Char) (parts : List (List Char)),
      isBlank left = false → left ≠ ']' →
        ∃ c text, layout.enclose depth left right parts = c :: text ∧ isBlank c = false ∧ c ≠ ']' := by
    intro left right parts hblank hne
    cases layout <;> cases parts <;> exact ⟨left, _, rfl, hblank, hne⟩
  cases v with
  | null => exact ⟨_, _, rfl, rfl, by decide⟩
  | bool b => cases b <;> exact ⟨_, _, rfl, rfl, by decide⟩
  | int n => exact hscalar _ (integerText_starts n)
  | float x => exact hscalar _ (number_starts x)
  | text s => exact ⟨_, _, rfl, rfl, by decide⟩
  | list items => exact hopen _ _ _ rfl (by decide)
  | table entries => exact hopen _ _ _ rfl (by decide)

theorem skipBlanks_cons {c : Char} (hc : isBlank c = false) (s : List Char) :
    skipBlanks (c :: s) = c :: s := by
  simp [skipBlanks, hc]

theorem skipBlanks_space (s : List Char) : skipBlanks (' ' :: s) = skipBlanks s := rfl

theorem skipBlanks_writeAt (depth : Nat) (v : Value) (rest : List Char) :
    skipBlanks (writeAt .oneLine depth v ++ rest) = writeAt .oneLine depth v ++ rest := by
  obtain ⟨c, text, hwritten, hblank, -⟩ := writeAt_starts .oneLine depth v
  rw [hwritten, List.cons_append, skipBlanks_cons hblank]

/-! ## Reading it -/

/-- The value is read from its text, whatever stands behind. -/
def ReadsBack (v : Value) : Prop :=
  ∀ (depth : Nat) {s rest : List Char}, skipBlanks s = writeAt .oneLine depth v ++ rest →
    EndsValue rest → out (value? s) = some (reread v, rest)

theorem out_value?_scalar {written : List Char} {v : Value} (hs : skipBlanks s = written ++ rest)
    (hstart : ∃ c text, written = c :: text ∧ startsScalar c = true)
    (hscalar : scalar? (written ++ rest) = some (v, rest)) : out (value? s) = some (v, rest) := by
  obtain ⟨c, text, rfl, hc⟩ := hstart
  have hshorter : rest.length < s.length := by
    have := skipBlanks_length s
    rw [hs, List.cons_append, List.length_cons, List.length_append] at this
    omega
  rw [out_value?, hs]
  rw [List.cons_append] at hscalar ⊢
  split
  · exact absurd ‹_› (by simp)
  · rename_i heq
    rw [(List.cons.inj heq).1] at hc
    cases hc
  · rename_i heq
    rw [(List.cons.inj heq).1] at hc
    cases hc
  · rename_i heq
    rw [(List.cons.inj heq).1] at hc
    cases hc
  · rename_i heq
    cases heq
    rw [hscalar, Option.filter_some, if_pos (by simpa using hshorter)]

theorem intercalate_starts {c : Char} {part text : List Char} (hpart : part = c :: text)
    (parts : List (List Char)) (rest : List Char) :
    ∃ more, [',', ' '].intercalate (part :: parts) ++ rest = c :: more := by
  subst hpart
  cases parts <;> exact ⟨_, rfl⟩

theorem skipBlanks_intercalate {c : Char} {part text : List Char} (hpart : part = c :: text)
    (hc : isBlank c = false) (parts : List (List Char)) (rest : List Char) :
    skipBlanks ([',', ' '].intercalate (part :: parts) ++ rest) =
      [',', ' '].intercalate (part :: parts) ++ rest := by
  obtain ⟨more, hmore⟩ := intercalate_starts hpart parts rest
  rw [hmore, skipBlanks_cons hc]

/-- The items of a list are read up to its closing mark. -/
theorem out_items?_written {item : Value} {items : List Value}
    (hitems : ∀ other ∈ item :: items, ReadsBack other)
    (hs : skipBlanks s =
      [',', ' '].intercalate ((item :: items).map (writeAt .oneLine depth)) ++ ']' :: rest) :
    out (items? s) = some ((item :: items).map reread, rest) := by
  induction items generalizing item s with
  | nil =>
    rw [List.map_singleton, List.intercalate_singleton] at hs
    rw [out_items?, hitems item List.mem_cons_self depth hs (.cons (by simp) _)]
    rfl
  | cons next items ih =>
    rw [List.map_cons, List.map_cons, List.intercalate_cons_cons, List.append_assoc,
      List.append_assoc, ← List.map_cons] at hs
    obtain ⟨c, text, hwritten, hc, -⟩ := writeAt_starts .oneLine depth next
    have hrest := skipBlanks_intercalate hwritten hc (items.map (writeAt .oneLine depth))
      (']' :: rest)
    -- behind the comma stands one blank, which the reader skips
    have hmore := ih (fun other hother => hitems other (List.mem_cons_of_mem item hother))
      ((skipBlanks_space _).trans hrest)
    rw [out_items?, hitems item List.mem_cons_self depth hs (.cons (by simp) _)]
    exact congrArg (fun read => read.bind fun more => some (reread item :: more.1, more.2)) hmore

theorem out_entries?_entry {entry : String × Value} {behind : List Char}
    (hentry : ReadsBack entry.2) (hs : skipBlanks s = entryText depth entry ++ behind)
    (hbehind : EndsValue behind) :
    out (entries? s) = behindEntry (entry.1, reread entry.2) behind := by
  have htext : entryText depth entry ++ behind = '"' :: (entry.1.toList.flatMap escape ++
      '"' :: ':' :: ' ' :: (writeAt .oneLine depth entry.2 ++ behind)) := by
    simp [entryText_eq_cons]
  have hvalue := hentry depth
    ((skipBlanks_space _).trans (skipBlanks_writeAt depth entry.2 behind)) hbehind
  rw [out_entries?, hs, htext]
  have hcolon := skipBlanks_cons (show isBlank ':' = false from rfl)
  simp only [out_string?_quoted, Option.bind_some, hcolon, hvalue]

/-- The entries of a table are read up to its closing mark. -/
theorem out_entries?_written {entry : String × Value} {entries : List (String × Value)}
    (hentries : ∀ other ∈ entry :: entries, ReadsBack other.2)
    (hs : skipBlanks s =
      [',', ' '].intercalate ((entry :: entries).map (entryText depth)) ++ '\x7d' :: rest) :
    out (entries? s) =
      some ((entry :: entries).map fun entry => (entry.1, reread entry.2), rest) := by
  induction entries generalizing entry s with
  | nil =>
    rw [List.map_singleton, List.intercalate_singleton] at hs
    rw [out_entries?_entry (hentries entry List.mem_cons_self) hs (.cons (by simp) _)]
    rfl
  | cons next entries ih =>
    rw [List.map_cons, List.map_cons, List.intercalate_cons_cons, List.append_assoc,
      List.append_assoc, ← List.map_cons] at hs
    have hrest := skipBlanks_intercalate (entryText_eq_cons depth next) rfl
      (entries.map (entryText depth)) ('\x7d' :: rest)
    have hmore := ih (fun other hother => hentries other (List.mem_cons_of_mem entry hother))
      ((skipBlanks_space _).trans hrest)
    rw [out_entries?_entry (hentries entry List.mem_cons_self) hs (.cons (by simp) _)]
    exact congrArg (fun read => read.bind fun more =>
      some ((entry.1, reread entry.2) :: more.1, more.2)) hmore

/-- Every value is read from its text. -/
theorem readsBack (v : Value) : ReadsBack v := by
  induction v using Value.inductionOn with
  | null =>
    intro depth s rest hs hrest
    exact out_value?_scalar hs ⟨_, _, rfl, rfl⟩ rfl
  | bool b =>
    intro depth s rest hs hrest
    cases b <;> exact out_value?_scalar hs ⟨_, _, rfl, rfl⟩ rfl
  | int n =>
    intro depth s rest hs hrest
    exact out_value?_scalar hs (integerText_starts n) (scalar?_integerText n hrest)
  | float x =>
    intro depth s rest hs hrest
    exact out_value?_scalar hs (number_starts x) (scalar?_number x hrest)
  | text text =>
    intro depth s rest hs hrest
    have hquote : writeAt .oneLine depth (.text text) ++ rest =
        '"' :: (text.toList.flatMap escape ++ '"' :: rest) := by
      simp [writeAt, quote]
    rw [out_value?, hs, hquote]
    simp only [out_string?_quoted, Option.bind_some]
    rfl
  | list items ih =>
    intro depth s rest hs hrest
    rw [writeAt_list, enclosed_append] at hs
    rw [reread, rereadItems_eq_map]
    cases items with
    | nil =>
      rw [out_value?, hs]
      rfl
    | cons item items =>
      rw [List.map_cons] at hs
      obtain ⟨c, text, hwritten, hc, hclose⟩ := writeAt_starts .oneLine (depth + 1) item
      obtain ⟨more, hmore⟩ := intercalate_starts hwritten
        (items.map (writeAt .oneLine (depth + 1))) (']' :: rest)
      have hblanks := skipBlanks_intercalate hwritten hc
        (items.map (writeAt .oneLine (depth + 1))) (']' :: rest)
      -- the first item shows that the list is not empty, since no item starts with the closing mark
      have hopen : (c :: more).head? ≠ some ']' := fun heq => hclose (Option.some.inj heq)
      rw [← hmore, ← hblanks] at hopen
      rw [out_value?_items hs hopen, out_items?_written ih hblanks]
      rfl
  | table entries ih =>
    intro depth s rest hs hrest
    rw [writeAt_table, enclosed_append] at hs
    rw [reread, rereadEntries_eq_map, ← Entries.map_byKey]
    -- the entries stand in the order of their keys, in the text and in what is read from it
    have hentries : ∀ entry ∈ Entries.byKey entries, ReadsBack entry.2 :=
      fun entry hentry => ih entry ((Entries.byKey_perm entries).mem_iff.mp hentry)
    cases hsorted : Entries.byKey entries with
    | nil =>
      rw [hsorted] at hs
      rw [out_value?, hs]
      rfl
    | cons entry others =>
      rw [hsorted] at hs hentries
      rw [List.map_cons] at hs
      have hquote := entryText_eq_cons (depth + 1) entry
      obtain ⟨more, hmore⟩ := intercalate_starts hquote (others.map (entryText (depth + 1)))
        ('\x7d' :: rest)
      have hblanks := skipBlanks_intercalate hquote rfl (others.map (entryText (depth + 1)))
        ('\x7d' :: rest)
      have hopen : ('"' :: more).head? ≠ some '\x7d' := by
        rw [List.head?_cons]
        decide
      rw [← hmore, ← hblanks] at hopen
      rw [out_value?_entries hs hopen, out_entries?_written hentries hblanks]
      rfl

/-- A value that is written on one line is read from this line. -/
theorem read?_write (v : Value) : read? (write .oneLine v).toList = some (reread v) := by
  have hread : out (value? (writeAt .oneLine 0 v)) = some (reread v, []) := by
    refine readsBack v 0 ?_ .nil
    have hblanks := skipBlanks_writeAt 0 v []
    rwa [List.append_nil] at hblanks ⊢
  rw [write, String.toList_ofList, read?]
  rcases hfound : value? (writeAt .oneLine 0 v) with _ | ⟨item, rest, hrest⟩
  · rw [hfound] at hread
    cases hread
  · rw [hfound] at hread
    cases hread
    rfl

/-- What a table has under a key is still there when the table is read, if its keys are all different. -/
theorem get?_reread {entries : List (String × Value)} (hnodup : (entries.map (·.1)).Nodup)
    {key : String} {v : Value} (hmem : (key, v) ∈ entries) :
    ∃ table : Table, reread (.table entries) = .table table ∧ table.get? key = some (reread v) := by
  have hkeys : ((rereadEntries entries).map (·.1)).Nodup := by
    rw [rereadEntries_eq_map, List.map_map]
    exact hnodup
  have hread : (key, reread v) ∈ rereadEntries entries := by
    rw [rereadEntries_eq_map]
    exact List.mem_map_of_mem hmem
  exact ⟨_, by rw [reread], Entries.get?_ofList_byKey hkeys hread⟩

/-! ## Lines -/

theorem not_mem_enclosed {c left right : Char} {parts : List (List Char)}
    (hmarks : c ∉ [left, right, ',', ' ']) (hparts : ∀ part ∈ parts, c ∉ part) :
    c ∉ enclosed left right parts := by
  have hbetween : c ∉ [',', ' '].intercalate parts := by
    induction parts with
    | nil => simp
    | cons part parts ih =>
      have hpart := hparts part List.mem_cons_self
      have hrest := ih fun other hother => hparts other (List.mem_cons_of_mem part hother)
      cases parts with
      | nil => simpa using hpart
      | cons next parts =>
        rw [List.intercalate_cons_cons]
        simp_all
  simp_all [enclosed]

theorem newline_not_mem_writeAt (depth : Nat) (v : Value) : '\n' ∉ writeAt .oneLine depth v := by
  induction v using Value.inductionOn generalizing depth with
  | null => simp [writeAt]
  | bool b => cases b <;> simp [writeAt]
  | int n => exact newline_not_mem_integerText n
  | float x => exact newline_not_mem_number x
  | text s => exact newline_not_mem_quote s
  | list items ih =>
    rw [writeAt_list]
    refine not_mem_enclosed (by decide) fun part hpart => ?_
    obtain ⟨item, hitem, rfl⟩ := List.mem_map.mp hpart
    exact ih item hitem (depth + 1)
  | table entries ih =>
    rw [writeAt_table]
    refine not_mem_enclosed (by decide) fun part hpart => ?_
    obtain ⟨entry, hentry, rfl⟩ := List.mem_map.mp hpart
    have hvalue := ih entry ((Entries.byKey_perm entries).mem_iff.mp hentry) (depth + 1)
    simp [entryText, newline_not_mem_quote, hvalue]

theorem newline_not_mem_write (v : Value) : '\n' ∉ (write .oneLine v).toList := by
  rw [write, String.toList_ofList]
  exact newline_not_mem_writeAt 0 v

end DscAudit.Json

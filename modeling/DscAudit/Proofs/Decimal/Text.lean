import DscAudit.Decimal.Shortest
import DscAudit.Value.Datum
import Mathlib.Data.List.DropRight

/-!
# The texts of numbers

The text of an integer is a whole number without zeros in front, and that of a finite floating point
number has a fraction, an exponent, or both behind one.
-/

namespace DscAudit.Decimal

/-- Digits that do not start with a zero, or the zero alone. -/
structure IsWholeText (whole : List Char) : Prop where
  ne_nil : whole ≠ []
  isDigit : ∀ c ∈ whole, c.isDigit = true
  noZero : whole = ['0'] ∨ whole.head? ≠ some '0'

/-- A fraction behind its point. -/
structure IsFractionText (fraction : List Char) : Prop where
  ne_nil : fraction ≠ []
  isDigit : ∀ c ∈ fraction, c.isDigit = true

/-- The text of a floating point number without its sign. -/
inductive IsFloatText : List Char → Prop where
  | fraction {whole fraction : List Char} (hwhole : IsWholeText whole)
      (hfraction : IsFractionText fraction) : IsFloatText (whole ++ '.' :: fraction)
  | exponent {whole : List Char} (hwhole : IsWholeText whole) (exponent : Int) :
      IsFloatText (whole ++ 'e' :: exponentText exponent)
  | scaled {whole fraction : List Char} (hwhole : IsWholeText whole)
      (hfraction : IsFractionText fraction) (exponent : Int) :
      IsFloatText (whole ++ '.' :: fraction ++ 'e' :: exponentText exponent)

theorem IsWholeText.exists_cons {whole : List Char} (hwhole : IsWholeText whole) :
    ∃ c rest, whole = c :: rest ∧ c.isDigit = true := by
  cases whole with
  | nil => exact absurd rfl hwhole.ne_nil
  | cons c rest => exact ⟨c, rest, rfl, hwhole.isDigit c List.mem_cons_self⟩

theorem IsFloatText.exists_cons {text : List Char} (htext : IsFloatText text) :
    ∃ c rest, text = c :: rest ∧ c.isDigit = true := by
  cases htext with
  | fraction hwhole =>
    obtain ⟨c, rest, rfl, hc⟩ := hwhole.exists_cons
    exact ⟨c, _, rfl, hc⟩
  | exponent hwhole =>
    obtain ⟨c, rest, rfl, hc⟩ := hwhole.exists_cons
    exact ⟨c, _, rfl, hc⟩
  | scaled hwhole =>
    obtain ⟨c, rest, rfl, hc⟩ := hwhole.exists_cons
    exact ⟨c, _, rfl, hc⟩

/-! ## Digits -/

theorem isDigit_toDigits {n : Nat} : ∀ c ∈ Nat.toDigits 10 n, c.isDigit = true :=
  fun _ hc => Nat.isDigit_of_mem_toDigits (by decide) (by decide) hc

theorem head?_toDigits {n : Nat} (hn : n ≠ 0) : (Nat.toDigits 10 n).head? ≠ some '0' := by
  induction n using Nat.strongRecOn with
  | ind n ih =>
    by_cases hsmall : n < 10
    · rw [Nat.toDigits_of_lt_base hsmall, List.head?_cons, Ne, Option.some.injEq,
        Nat.digitChar_eq_zero]
      exact hn
    · rw [Nat.toDigits_of_base_le (by decide) (Nat.le_of_not_lt hsmall),
        List.head?_append_of_ne_nil _ Nat.toDigits_ne_nil]
      exact ih (n / 10) (by omega) (by omega)

theorem isWholeText_toDigits (n : Nat) : IsWholeText (Nat.toDigits 10 n) := by
  refine ⟨Nat.toDigits_ne_nil, isDigit_toDigits, ?_⟩
  by_cases hn : n = 0
  · subst hn
    exact .inl rfl
  · exact .inr (head?_toDigits hn)

theorem integerText_cases (n : Int) :
    (n < 0 ∧ integerText n = '-' :: Nat.toDigits 10 n.natAbs) ∨
      (0 ≤ n ∧ integerText n = Nat.toDigits 10 n.natAbs) := by
  unfold integerText
  split
  · rename_i hn
    exact .inl ⟨hn, rfl⟩
  · rename_i hn
    exact .inr ⟨Int.not_lt.mp hn, rfl⟩

/-- The digits of a positive number start with no zero, those at its end dropped or not. -/
theorem significantDigits_cases {n : Nat} (hn : n ≠ 0) :
    ∃ d rest, significantDigits n = d :: rest ∧ d ≠ '0' ∧
      ∀ c ∈ d :: rest, c.isDigit = true := by
  have hstarts : significantDigits n <+: Nat.toDigits 10 n := List.rdropWhile_prefix _ _
  have hfirst := head?_toDigits hn
  rcases hdigits : Nat.toDigits 10 n with _ | ⟨d, rest⟩
  · exact absurd hdigits Nat.toDigits_ne_nil
  rw [hdigits] at hstarts hfirst
  rcases hkept : significantDigits n with _ | ⟨e, kept⟩
  · have hzeros : ∀ c ∈ Nat.toDigits 10 n, (c == '0') = true := by
      intro c hc
      have hdropped := List.dropWhile_eq_nil_iff.mp (List.reverse_eq_nil_iff.mp hkept)
      exact hdropped c (List.mem_reverse.mpr hc)
    have hzero := hzeros d (by rw [hdigits]; exact List.mem_cons_self)
    rw [beq_iff_eq.mp hzero] at hfirst
    exact absurd rfl hfirst
  · rw [hkept] at hstarts
    obtain rfl : e = d := (List.cons_prefix_cons.mp hstarts).1
    refine ⟨e, kept, rfl, fun heq => hfirst (by rw [heq]; rfl), fun c hc => ?_⟩
    exact isDigit_toDigits c (hdigits ▸ hstarts.subset hc)

/-! ## Floating point numbers -/

/-- Only the digits of zero read back as zero. -/
theorem neighbour?_digits {units : Nat} (hunits : units ≠ 0) {exponent : Int} {decimal : Scientific}
    (hdecimal : neighbour? units exponent = some decimal) : decimal.digits ≠ 0 := by
  have hback : ∀ digits, (Binary64.ofDecimal false digits exponent == .finite false units) = true →
      some ⟨digits, exponent⟩ = some decimal → decimal.digits ≠ 0 := by
    rintro digits hback hsome hzero
    obtain rfl : digits = 0 := by
      rw [← hzero, ← Option.some.inj hsome]
    -- a candidate is taken only if it reads back as the number, and no digits but zero read as zero
    rw [Binary64.ofDecimal_zero, beq_iff_eq, Binary64.finite.injEq] at hback
    exact hunits hback.2.symm
  unfold neighbour? at hdecimal
  dsimp only at hdecimal
  split at hdecimal
  · rename_i hreads
    exact hback _ hreads hdecimal
  split at hdecimal
  · rename_i hreads
    exact hback _ hreads hdecimal
  split at hdecimal
  · rename_i hreads
    exact hback _ hreads hdecimal
  · exact absurd hdecimal nofun

theorem shortest_digits {units : Nat} (hunits : units ≠ 0) : (shortest units).digits ≠ 0 := by
  unfold shortest
  rcases hfound : (List.range 17).findSome? fun extra : Nat =>
      neighbour? units (magnitude units - 1 - extra) with _ | decimal
  · simp only [hfound]
    exact hunits
  · simp only [hfound]
    obtain ⟨extra, -, hdecimal⟩ := List.exists_of_findSome?_eq_some hfound
    exact neighbour?_digits hunits hdecimal

theorem exponentText_cases (exponent : Int) :
    ∃ digits : List Char, exponentText exponent = (if exponent < 0 then '-' else '+') :: digits ∧
      digits ≠ [] ∧ ∀ c ∈ digits, c.isDigit = true := by
  refine ⟨_, rfl, ?_, ?_⟩
  · split
    · simp
    · exact Nat.toDigits_ne_nil
  · split
    · intro c hc
      rcases List.mem_cons.mp hc with rfl | hc
      · rfl
      · exact isDigit_toDigits c hc
    · exact isDigit_toDigits

theorem IsFloatText.mem {text : List Char} (htext : IsFloatText text) :
    ∀ c ∈ text, c.isDigit = true ∨ c ∈ ['.', 'e', '+', '-'] := by
  have hexponent : ∀ exponent, ∀ c ∈ 'e' :: exponentText exponent,
      c.isDigit = true ∨ c ∈ ['.', 'e', '+', '-'] := by
    intro exponent c hc
    obtain ⟨digits, heq, -, hdigits⟩ := exponentText_cases exponent
    rw [heq] at hc
    rcases List.mem_cons.mp hc with rfl | hc
    · exact .inr (by simp)
    rcases List.mem_cons.mp hc with rfl | hc
    · exact .inr (by split <;> simp)
    · exact .inl (hdigits c hc)
  have hpoint : ∀ {fraction}, IsFractionText fraction → ∀ c ∈ '.' :: fraction,
      c.isDigit = true ∨ c ∈ ['.', 'e', '+', '-'] := by
    intro fraction hfraction c hc
    rcases List.mem_cons.mp hc with rfl | hc
    · exact .inr (by simp)
    · exact .inl (hfraction.isDigit c hc)
  intro c hc
  cases htext with
  | fraction hwhole hfraction =>
    rcases List.mem_append.mp hc with hc | hc
    · exact .inl (hwhole.isDigit c hc)
    · exact hpoint hfraction c hc
  | exponent hwhole exponent =>
    rcases List.mem_append.mp hc with hc | hc
    · exact .inl (hwhole.isDigit c hc)
    · exact hexponent exponent c hc
  | scaled hwhole hfraction exponent =>
    rcases List.mem_append.mp hc with hc | hc
    · rcases List.mem_append.mp hc with hc | hc
      · exact .inl (hwhole.isDigit c hc)
      · exact hpoint hfraction c hc
    · exact hexponent exponent c hc

theorem isFloatText_layout {d : Char} {digits : List Char} (hfirst : d ≠ '0')
    (hdigits : ∀ c ∈ d :: digits, c.isDigit = true) (point : Int) :
    IsFloatText (layout (d :: digits) point) := by
  have hzeros : ∀ (count : Nat), ∀ c ∈ List.replicate count '0', c.isDigit = true := by
    intro count c hc
    rw [List.eq_of_mem_replicate hc]
    rfl
  have hzero : IsWholeText ['0'] := ⟨by simp, by simp, .inl rfl⟩
  have hwhole : ∀ more, (∀ c ∈ more, c.isDigit = true) → IsWholeText (d :: more) := by
    intro more hmore
    refine ⟨by simp, fun c hc => ?_, .inr fun heq => hfirst (Option.some.inj heq)⟩
    rcases List.mem_cons.mp hc with rfl | hc
    · exact hdigits c List.mem_cons_self
    · exact hmore c hc
  have hrest : ∀ c ∈ digits, c.isDigit = true := fun c hc => hdigits c (List.mem_cons_of_mem d hc)
  unfold layout
  simp only
  split
  · cases digits with
    | nil => exact .exponent (hwhole [] (by simp)) (point - 1)
    | cons e digits => exact .scaled (hwhole [] (by simp)) ⟨by simp, hrest⟩ (point - 1)
  split
  · refine .fraction hzero ⟨by simp, fun c hc => ?_⟩
    rcases List.mem_append.mp hc with hc | hc
    · exact hzeros _ c hc
    · exact hdigits c hc
  split
  · rw [List.cons_append]
    refine .fraction (hwhole _ fun c hc => ?_) ⟨by simp, by simp⟩
    rcases List.mem_append.mp hc with hc | hc
    · exact hrest c hc
    · exact hzeros _ c hc
  · rename_i hpoint hlength
    obtain ⟨count, hcount⟩ : ∃ count, point.toNat = count + 1 := ⟨point.toNat - 1, by omega⟩
    rw [hcount, List.take_succ_cons, List.drop_succ_cons]
    refine .fraction (hwhole _ fun c hc => hrest c (List.mem_of_mem_take hc)) ⟨?_, fun c hc => ?_⟩
    · rw [Ne, List.drop_eq_nil_iff]
      simp only [List.length_cons] at hlength
      omega
    · exact hrest c (List.mem_of_mem_drop hc)

/-- The text of a finite number is that of a floating point number, behind a sign if it is
negative. -/
theorem Binary64.text_finite (negative : Bool) (units : Nat) :
    ∃ text, IsFloatText text ∧
      (Binary64.finite negative units).text = (if negative then ['-'] else []) ++ text := by
  unfold Binary64.text
  dsimp only
  by_cases hunits : units = 0
  · rw [if_pos hunits]
    have hzero : IsFloatText (['0'] ++ '.' :: ['0']) :=
      .fraction ⟨by simp, by simp, .inl rfl⟩ ⟨by simp, by simp⟩
    exact ⟨['0', '.', '0'], hzero, rfl⟩
  · rw [if_neg hunits]
    obtain ⟨d, rest, hdigits, hfirst, hall⟩ := significantDigits_cases (shortest_digits hunits)
    refine ⟨_, ?_, rfl⟩
    rw [hdigits]
    exact isFloatText_layout hfirst hall _

end DscAudit.Decimal

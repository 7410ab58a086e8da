import DscAudit.Proofs.Json.RoundTrip

/-!
# What a value takes of a text

A reader takes some characters of a text and leaves the rest.  What it takes decides the value: with anything
else behind the same characters the same value is found in them, as long as it does not go on a number.  The
characters that are taken end with one that is no blank, and the only control characters among them are the
blanks of JSON.
-/

namespace DscAudit.Json

/-- The reader finds the item in the characters and leaves what stands behind them. -/
structure Takes {α : Type} (read : List Char → Option (α × List Char)) (stops : List Char → Prop)
    (taken : List Char) (item : α) : Prop where
  legal : ∀ c ∈ taken, isBlank c = true ∨ 0x20 ≤ c.toNat
  closed : ∃ c, taken.getLast? = some c ∧ Text.isBlank c = false
  reads : ∀ {rest}, stops rest → read (taken ++ rest) = some (item, rest)

theorem isBlank_of_text {c : Char} (hc : Text.isBlank c = false) : isBlank c = false := by
  by_contra hblank
  simp only [isBlank, Bool.not_eq_false, Bool.or_eq_true, beq_iff_eq] at hblank
  rcases hblank with ((rfl | rfl) | rfl) | rfl <;> exact absurd hc (by decide)

/-! ## Strings -/

theorem toNat_of_hexValue? {c : Char} {value : Nat} (hc : Text.hexValue? c = some value) :
    0x20 ≤ c.toNat := by
  by_contra hcontrol
  have hall : ∀ n < 0x20, Text.hexValue? (Char.ofNat n) = none := by decide
  have hnone := hall c.toNat (Nat.lt_of_not_le hcontrol)
  rw [Char.ofNat_toNat, hc] at hnone
  cases hnone

theorem toNat_of_escaped? {c d : Char} (hc : escaped? c = some d) : 0x20 ≤ c.toNat := by
  by_contra hcontrol
  have hall : ∀ n < 0x20, escaped? (Char.ofNat n) = none := by decide
  have hnone := hall c.toNat (Nat.lt_of_not_le hcontrol)
  rw [Char.ofNat_toNat, hc] at hnone
  cases hnone

/-- A string takes the characters up to its closing quote. -/
theorem units?_taken {s rest : List Char} {units : List Nat} (h : units? s = some (units, rest)) :
    ∃ inside, s = inside ++ '"' :: rest ∧ (∀ c ∈ inside, 0x20 ≤ c.toNat) ∧
      ∀ more, units? (inside ++ '"' :: more) = some (units, more) := by
  fun_induction units? s generalizing units rest with
  | case1 => cases h
  | case2 after =>
    cases h
    exact ⟨[], rfl, List.forall_mem_nil _, fun _ => rfl⟩
  | case3 a b c d s ih =>
    simp only [Option.bind_eq_bind, Option.bind_eq_some_iff, Option.pure_def, Option.some.injEq,
      Prod.mk.injEq, Prod.exists] at h
    obtain ⟨unit, hunit, units, rest, hs, rfl, rfl⟩ := h
    obtain ⟨inside, rfl, hlegal, hreads⟩ := ih hs
    have hdigits := hunit
    simp only [unit?, Option.bind_eq_bind, Option.bind_eq_some_iff] at hdigits
    obtain ⟨_, ha, _, hb, _, hc, _, hd, -⟩ := hdigits
    refine ⟨'\\' :: 'u' :: a :: b :: c :: d :: inside, rfl, ?_, fun more => ?_⟩
    · simp only [List.forall_mem_cons]
      exact ⟨by decide, by decide, toNat_of_hexValue? ha, toNat_of_hexValue? hb, toNat_of_hexValue? hc,
        toNat_of_hexValue? hd, hlegal⟩
    · simp only [List.cons_append, units?, hunit, hreads more]
      rfl
  | case4 c s hescape ih =>
    simp only [Option.bind_eq_bind, Option.bind_eq_some_iff, Option.pure_def, Option.some.injEq,
      Prod.mk.injEq, Prod.exists] at h
    obtain ⟨d, hd, units, rest, hs, rfl, rfl⟩ := h
    obtain ⟨inside, rfl, hlegal, hreads⟩ := ih hs
    have hletter : c ≠ 'u' := by
      rintro rfl
      cases hd
    refine ⟨'\\' :: c :: inside, rfl, ?_, fun more => ?_⟩
    · simp only [List.forall_mem_cons]
      exact ⟨by decide, toNat_of_escaped? hd, hlegal⟩
    · rw [List.cons_append, List.cons_append, units?, hd, hreads more]
      · rfl
      · exact fun _ _ _ _ _ heq _ => hletter heq
  | case5 => cases h
  | case6 c s hquote hunicode hescape hprintable ih =>
    simp only [Option.bind_eq_bind, Option.bind_eq_some_iff, Option.pure_def, Option.some.injEq,
      Prod.mk.injEq, Prod.exists] at h
    obtain ⟨units, rest, hs, rfl, rfl⟩ := h
    obtain ⟨inside, rfl, hlegal, hreads⟩ := ih hs
    -- an escape at the end of the text would go on with the quote
    have hbackslash : c ≠ '\\' := by
      rintro rfl
      cases inside with
      | nil => exact hescape _ _ rfl rfl
      | cons d inside => exact hescape _ _ rfl rfl
    refine ⟨c :: inside, rfl, ?_, fun more => ?_⟩
    · simp only [List.forall_mem_cons]
      exact ⟨Nat.le_of_not_lt hprintable, hlegal⟩
    · rw [List.cons_append, units?, if_neg hprintable, hreads more]
      · rfl
      · exact hquote
      · exact fun _ _ _ _ _ heq _ => hbackslash heq
      · exact fun _ _ heq _ => hbackslash heq

theorem out_string? (s : List Char) :
    out (string? s) = (units? s).map fun read => (String.ofList (joinUnits read.1), read.2) := by
  unfold string?
  split
  · rename_i hunits
    simp only [hunits]
    rfl
  · rename_i hunits
    simp only [hunits]
    rfl

theorem string?_taken {s rest : List Char} {text : String} (h : out (string? s) = some (text, rest)) :
    ∃ inside, s = inside ++ '"' :: rest ∧ (∀ c ∈ inside, 0x20 ≤ c.toNat) ∧
      ∀ more, out (string? (inside ++ '"' :: more)) = some (text, more) := by
  rw [out_string?, Option.map_eq_some_iff] at h
  obtain ⟨⟨units, _⟩, hunits, heq⟩ := h
  cases heq
  obtain ⟨inside, hs, hlegal, hreads⟩ := units?_taken hunits
  refine ⟨inside, hs, hlegal, fun more => ?_⟩
  rw [out_string?, hreads more]
  rfl

/-! ## Numbers -/

/-- Can a number go on with the character? -/
def goesOn (c : Char) : Bool := c.isDigit || c == '.' || c == 'e' || c == 'E'

/-- No number goes on with the text. -/
def Stops (rest : List Char) : Prop := ∀ c ∈ rest.head?, goesOn c = false

theorem Stops.isDigit {rest : List Char} (hrest : Stops rest) : ∀ c ∈ rest.head?, c.isDigit = false := by
  intro c hc
  have hstop := hrest c hc
  simp only [goesOn, Bool.or_eq_false_iff] at hstop
  exact hstop.1.1.1

theorem Stops.point {rest : List Char} (hrest : Stops rest) : ∀ c ∈ rest.head?, (c == '.') = false := by
  intro c hc
  have hstop := hrest c hc
  simp only [goesOn, Bool.or_eq_false_iff] at hstop
  exact hstop.1.1.2

theorem Stops.exponent {rest : List Char} (hrest : Stops rest) :
    ∀ c ∈ rest.head?, (c == 'e' || c == 'E') = false := by
  intro c hc
  have hstop := hrest c hc
  simp only [goesOn, Bool.or_eq_false_iff] at hstop
  rw [hstop.1.2, hstop.2]
  rfl

theorem toNat_of_isDigit {c : Char} (hc : c.isDigit = true) : 0x20 ≤ c.toNat := by
  have := (Text.isDigit_iff_toNat.1 hc).1
  omega

/-- The first character of two texts is that of the first one if this is not empty. -/
theorem head?_append_of {p : Char → Prop} {s t : List Char} (hs : ∀ c ∈ s.head?, p c)
    (ht : ∀ c ∈ t.head?, p c) : ∀ c ∈ (s ++ t).head?, p c := by
  cases s with
  | nil => exact ht
  | cons c s => exact hs

/-- The last character of two texts is that of the second one if this is not empty. -/
theorem getLast?_append_of {p : Char → Prop} {s t : List Char} (hs : ∃ c, s.getLast? = some c ∧ p c)
    (ht : ∀ c ∈ t.getLast?, p c) : ∃ c, (s ++ t).getLast? = some c ∧ p c := by
  by_cases hempty : t = []
  · rw [hempty, List.append_nil]
    exact hs
  · rw [List.getLast?_append_of_ne_nil _ hempty]
    have hlast := List.getLast?_eq_some_getLast hempty
    exact ⟨_, hlast, ht _ hlast⟩

theorem spanDigits_taken (s : List Char) :
    s = (spanDigits s).1 ++ (spanDigits s).2 ∧ ∀ c ∈ (spanDigits s).1, c.isDigit = true :=
  ⟨(List.takeWhile_append_dropWhile).symm, fun _ hc => List.mem_takeWhile_imp hc⟩

theorem spanWhole_taken {s whole rest : List Char} (h : spanWhole s = (whole, rest)) (hne : whole ≠ []) :
    s = whole ++ rest ∧ Decimal.IsWholeText whole := by
  unfold spanWhole at h
  split at h
  · cases h
    exact ⟨rfl, by simp, by simp, .inl rfl⟩
  · rename_i hzero
    obtain ⟨hs, hdigits⟩ := spanDigits_taken s
    rw [h] at hs hdigits
    refine ⟨hs, hne, hdigits, .inr fun hfirst => ?_⟩
    obtain ⟨more, hwhole⟩ := List.head?_eq_some_iff.1 hfirst
    exact hzero (more ++ rest) (by rw [hs, hwhole]; rfl)

/-- A fraction takes its point and its digits, or nothing. -/
theorem spanFraction_taken {s fraction rest : List Char} (h : spanFraction s = (fraction, rest)) :
    ∃ taken, s = taken ++ rest ∧ (∀ c ∈ taken.head?, c = '.') ∧ (∀ c ∈ taken, 0x20 ≤ c.toNat) ∧
      (∀ c ∈ taken.getLast?, c.isDigit = true) ∧
      ∀ {more}, (∀ c ∈ more.head?, c.isDigit = false ∧ (c == '.') = false) →
        spanFraction (taken ++ more) = (fraction, more) := by
  have hnothing : ∀ {more : List Char}, (∀ c ∈ more.head?, c.isDigit = false ∧ (c == '.') = false) →
      spanFraction ([] ++ more) = ([], more) :=
    fun hmore => spanFraction_of_head? fun c hc => (hmore c hc).2
  unfold spanFraction at h
  split at h
  · rename_i after
    split at h
    · cases h
      exact ⟨[], rfl, by simp, List.forall_mem_nil _, by simp, hnothing⟩
    · rename_i hempty
      obtain ⟨hs, hdigits⟩ := spanDigits_taken after
      rw [h] at hs hdigits hempty
      have hfraction : Decimal.IsFractionText fraction := ⟨by simpa using hempty, hdigits⟩
      refine ⟨'.' :: fraction, by rw [hs]; rfl, by simp, ?_, ?_, fun hmore => ?_⟩
      · exact List.forall_mem_cons.2 ⟨by decide, fun c hc => toNat_of_isDigit (hdigits c hc)⟩
      · intro c hc
        rw [List.getLast?_cons_of_ne_nil hfraction.ne_nil] at hc
        exact hdigits c (List.mem_of_getLast? hc)
      · exact spanFraction_append hfraction fun c hc => (hmore c hc).1
  · cases h
    exact ⟨[], rfl, by simp, List.forall_mem_nil _, by simp, hnothing⟩

/-- The sign of an exponent, whether it is negative, and what stands behind it. -/
def signed : List Char → Bool × List Char
  | '-' :: rest => (true, rest)
  | '+' :: rest => (false, rest)
  | rest => (false, rest)

theorem signed_taken (s : List Char) :
    ∃ sign, s = sign ++ (signed s).2 ∧ (∀ c ∈ sign, 0x20 ≤ c.toNat) ∧
      ∀ {c : Char} {more : List Char}, c.isDigit = true →
        signed (sign ++ c :: more) = ((signed s).1, c :: more) := by
  unfold signed
  split
  · exact ⟨['-'], rfl, by simp, fun _ => rfl⟩
  · exact ⟨['+'], rfl, by simp, fun _ => rfl⟩
  · refine ⟨[], rfl, List.forall_mem_nil _, fun hc => ?_⟩
    split
    · rename_i heq
      cases heq
      cases hc
    · rename_i heq
      cases heq
      cases hc
    · rfl

theorem spanExponent_cons {c : Char} (hc : (c == 'e' || c == 'E') = true) (s : List Char) :
    spanExponent (c :: s) =
      if (spanDigits (signed s).2).1.isEmpty then (none, c :: s)
      else
        (some (if (signed s).1 then -(natOfDigits (spanDigits (signed s).2).1 : Int)
          else natOfDigits (spanDigits (signed s).2).1), (spanDigits (signed s).2).2) := by
  unfold spanExponent
  simp only [hc, if_true]
  split
  · rfl
  · rfl
  · rename_i hminus hplus
    rw [signed]
    · exact hminus
    · exact hplus

/-- An exponent takes its mark, its sign and its digits, or nothing. -/
theorem spanExponent_taken {s rest : List Char} {exponent : Option Int}
    (h : spanExponent s = (exponent, rest)) :
    ∃ taken, s = taken ++ rest ∧ (∀ c ∈ taken.head?, c = 'e' ∨ c = 'E') ∧
      (∀ c ∈ taken, 0x20 ≤ c.toNat) ∧ (∀ c ∈ taken.getLast?, c.isDigit = true) ∧
      ∀ {more}, Stops more → spanExponent (taken ++ more) = (exponent, more) := by
  have hnothing (heq : (none, s) = (exponent, rest)) :
      ∃ taken, s = taken ++ rest ∧ (∀ c ∈ taken.head?, c = 'e' ∨ c = 'E') ∧
        (∀ c ∈ taken, 0x20 ≤ c.toNat) ∧ (∀ c ∈ taken.getLast?, c.isDigit = true) ∧
        ∀ {more}, Stops more → spanExponent (taken ++ more) = (exponent, more) := by
    cases heq
    exact ⟨[], rfl, by simp, List.forall_mem_nil _, by simp,
      fun hmore => spanExponent_of_head? hmore.exponent⟩
  cases s with
  | nil => exact hnothing h
  | cons c after =>
    by_cases hmark : (c == 'e' || c == 'E') = true
    · rw [spanExponent_cons hmark] at h
      split at h
      · exact hnothing h
      rename_i hempty
      obtain ⟨hexponent, hrest⟩ := Prod.mk.inj h
      obtain ⟨sign, hafter, hsign, hsigned⟩ := signed_taken after
      obtain ⟨hs, hdigits⟩ := spanDigits_taken (signed after).2
      rw [hrest] at hs
      generalize (spanDigits (signed after).2).1 = digits at *
      have hne : digits ≠ [] := by simpa using hempty
      have hletter : c = 'e' ∨ c = 'E' := by simpa using hmark
      refine ⟨c :: (sign ++ digits), ?_, ?_, ?_, ?_, fun {more} hmore => ?_⟩
      · rw [hafter, hs, List.cons_append, List.append_assoc]
      · intro d hd
        cases hd
        exact hletter
      · simp only [List.forall_mem_cons, List.forall_mem_append]
        refine ⟨?_, hsign, fun d hd => toNat_of_isDigit (hdigits d hd)⟩
        rcases hletter with rfl | rfl <;> decide
      · intro d hd
        rw [List.getLast?_cons_of_ne_nil (by simp [hne]), List.getLast?_append_of_ne_nil _ hne] at hd
        exact hdigits d (List.mem_of_getLast? hd)
      · have hspan := spanDigits_append hdigits hmore.isDigit
        have hfirst : signed (sign ++ (digits ++ more)) = ((signed after).1, digits ++ more) := by
          obtain ⟨d, others, rfl⟩ := List.exists_cons_of_ne_nil hne
          exact hsigned (hdigits d List.mem_cons_self)
        rw [List.cons_append, List.append_assoc, spanExponent_cons hmark, hfirst]
        dsimp only
        rw [hspan, if_neg hempty, ← hexponent]
    · rw [spanExponent_of_head? fun d hd => by cases hd; simpa using hmark] at h
      exact hnothing h

/-- The number that is made of its parts. -/
def numberOf (negative : Bool) (whole fraction : List Char) (exponent : Option Int) : Value :=
  if fraction.isEmpty && exponent.isNone then
    .int (if negative then -(natOfDigits whole : Int) else natOfDigits whole)
  else
    .float (.ofDecimal negative (natOfDigits (whole ++ fraction))
      (exponent.getD 0 - fraction.length))

theorem unsigned?_of_parts (negative : Bool)
    {s whole behindWhole fraction behindFraction behind : List Char} {exponent : Option Int}
    (hwhole : spanWhole s = (whole, behindWhole))
    (hfraction : spanFraction behindWhole = (fraction, behindFraction))
    (hexponent : spanExponent behindFraction = (exponent, behind)) :
    unsigned? negative s =
      if whole.isEmpty then none else some (numberOf negative whole fraction exponent, behind) := by
  simp only [unsigned?, hwhole, hfraction, hexponent, numberOf]
  split
  · rfl
  · split <;> rfl

/-- A number without its sign takes its digits, its fraction and its exponent. -/
theorem unsigned?_taken {negative : Bool} {s rest : List Char} {v : Value}
    (h : unsigned? negative s = some (v, rest)) :
    ∃ taken, s = taken ++ rest ∧ (∃ c, taken.head? = some c ∧ c.isDigit = true) ∧
      (∀ c ∈ taken, 0x20 ≤ c.toNat) ∧ (∃ c, taken.getLast? = some c ∧ c.isDigit = true) ∧
      ∀ {more}, Stops more → unsigned? negative (taken ++ more) = some (v, more) := by
  obtain ⟨⟨whole, behindWhole⟩, hwhole⟩ : ∃ parts, spanWhole s = parts := ⟨_, rfl⟩
  obtain ⟨⟨fraction, behindFraction⟩, hfraction⟩ : ∃ parts, spanFraction behindWhole = parts := ⟨_, rfl⟩
  obtain ⟨⟨exponent, behind⟩, hexponent⟩ : ∃ parts, spanExponent behindFraction = parts := ⟨_, rfl⟩
  rw [unsigned?_of_parts negative hwhole hfraction hexponent] at h
  split at h
  · cases h
  rename_i hempty
  cases h
  obtain ⟨hs, hdigits⟩ := spanWhole_taken hwhole (by simpa using hempty)
  obtain ⟨first, others, hcons, hfirst⟩ := hdigits.exists_cons
  obtain ⟨point, hpoint, hpointHead, hpointLegal, hpointLast, hpointReads⟩ :=
    spanFraction_taken hfraction
  obtain ⟨mark, hmark, hmarkHead, hmarkLegal, hmarkLast, hmarkReads⟩ := spanExponent_taken hexponent
  refine ⟨whole ++ (point ++ mark), ?_, ⟨first, by rw [hcons]; rfl, hfirst⟩, ?_, ?_, fun {more} hmore => ?_⟩
  · rw [hs, hpoint, hmark]
    simp only [List.append_assoc]
  · simp only [List.forall_mem_append]
    exact ⟨fun c hc => toNat_of_isDigit (hdigits.isDigit c hc), hpointLegal, hmarkLegal⟩
  · have hwholeLast : ∃ c, whole.getLast? = some c ∧ c.isDigit = true :=
      ⟨_, List.getLast?_eq_some_getLast hdigits.ne_nil, hdigits.isDigit _ (List.getLast_mem _)⟩
    rw [← List.append_assoc]
    exact getLast?_append_of (getLast?_append_of hwholeLast hpointLast) hmarkLast
  · -- what stands behind each part is no digit, so the part is the same with it
    have hbehindPoint : ∀ c ∈ (mark ++ more).head?, c.isDigit = false ∧ (c == '.') = false := by
      refine head?_append_of (fun c hc => ?_) fun c hc => ⟨hmore.isDigit c hc, hmore.point c hc⟩
      rcases hmarkHead c hc with rfl | rfl <;> decide
    have hbehindWhole : ∀ c ∈ (point ++ (mark ++ more)).head?, c.isDigit = false := by
      refine head?_append_of (fun c hc => ?_) fun c hc => (hbehindPoint c hc).1
      rw [hpointHead c hc]
      rfl
    have hwhole' := spanWhole_append hdigits hbehindWhole
    rw [List.append_assoc, List.append_assoc, unsigned?_of_parts negative hwhole'
      (hpointReads hbehindPoint) (hmarkReads hmore), if_neg hempty]

/-! ## Words and numbers -/

theorem takes_word {word : List Char × Value} (hword : word ∈ words) :
    (∃ c more, word.1 = c :: more ∧ startsScalar c = true) ∧ Takes scalar? Stops word.1 word.2 := by
  simp only [words, List.mem_cons, List.not_mem_nil, or_false] at hword
  rcases hword with rfl | rfl | rfl | rfl | rfl | rfl
  all_goals
    exact ⟨⟨_, _, rfl, by decide⟩, by simp, ⟨_, rfl, by decide⟩, fun _ => rfl⟩

/-- A word or a number takes its characters. -/
theorem scalar?_taken {s rest : List Char} {v : Value} (h : scalar? s = some (v, rest)) :
    ∃ taken, s = taken ++ rest ∧ (∃ c more, taken = c :: more ∧ startsScalar c = true) ∧
      Takes scalar? Stops taken v := by
  unfold scalar? at h
  split at h
  · rename_i word hfind
    cases h
    obtain ⟨hstart, htakes⟩ := takes_word (List.mem_of_find?_eq_some hfind)
    have hprefix := List.find?_some (p := fun word : List Char × Value => word.1.isPrefixOf s) hfind
    rw [List.isPrefixOf_iff_prefix, List.prefix_iff_eq_append] at hprefix
    exact ⟨word.1, hprefix.symm, hstart, htakes⟩
  · split at h
    · obtain ⟨taken, rfl, ⟨c, hc, hdigit⟩, hlegal, ⟨d, hd, hlast⟩, hreads⟩ := unsigned?_taken h
      obtain ⟨more, rfl⟩ := List.head?_eq_some_iff.1 hc
      have hblank := Text.isBlank_of_isDigit (Text.isDigit_of_ascii hlast)
      refine ⟨'-' :: c :: more, rfl, ⟨_, _, rfl, rfl⟩, ?_, ⟨d, ?_, hblank⟩, ?_⟩
      · exact List.forall_mem_cons.2 ⟨.inr (by decide), fun e he => .inr (hlegal e he)⟩
      · rwa [List.getLast?_cons_cons]
      · intro rest hrest
        exact (scalar?_minus hdigit).trans (hreads hrest)
    · obtain ⟨taken, rfl, ⟨c, hc, hdigit⟩, hlegal, ⟨d, hd, hlast⟩, hreads⟩ := unsigned?_taken h
      obtain ⟨more, rfl⟩ := List.head?_eq_some_iff.1 hc
      refine ⟨c :: more, rfl, ⟨_, _, rfl, startsScalar_of_isDigit hdigit⟩, fun e he => .inr (hlegal e he),
        ⟨d, hd, Text.isBlank_of_isDigit (Text.isDigit_of_ascii hlast)⟩, ?_⟩
      intro rest hrest
      exact (scalar?_of_isDigit hdigit).trans (hreads hrest)

/-! ## Blanks -/

theorem skipBlanks_taken (s : List Char) :
    ∃ blanks, s = blanks ++ skipBlanks s ∧ (∀ c ∈ blanks, isBlank c = true) ∧
      ∀ c ∈ (skipBlanks s).head?, isBlank c = false :=
  ⟨s.takeWhile isBlank, List.takeWhile_append_dropWhile.symm, fun _ hc => List.mem_takeWhile_imp hc,
    fun c hc => by
      have hnot := List.head?_dropWhile_not isBlank s
      rw [show (s.dropWhile isBlank).head? = some c from hc] at hnot
      simpa using hnot⟩

theorem skipBlanks_append {blanks : List Char} (hblanks : ∀ c ∈ blanks, isBlank c = true) {c : Char}
    (hc : isBlank c = false) (s : List Char) : skipBlanks (blanks ++ c :: s) = c :: s := by
  rw [skipBlanks, List.dropWhile_append_of_pos hblanks]
  exact skipBlanks_cons hc s

/-- The first character of some text that is no blank is not looked for behind it. -/
theorem head?_skipBlanks_append {s : List Char} (hs : ∃ c ∈ s, isBlank c = false) (t : List Char) :
    (skipBlanks (s ++ t)).head? = (skipBlanks s).head? := by
  obtain ⟨blanks, hsplit, hblanks, hhead⟩ := skipBlanks_taken s
  obtain ⟨c, hc, hblank⟩ := hs
  cases hskip : skipBlanks s with
  | nil =>
    rw [hskip, List.append_nil] at hsplit
    rw [hsplit] at hc
    rw [hblanks c hc] at hblank
    cases hblank
  | cons d after =>
    rw [hskip] at hsplit hhead
    rw [hsplit, List.append_assoc, List.cons_append, skipBlanks_append hblanks (hhead d rfl)]
    rfl

/-! ## Values -/

/-- How a value starts, and what is left behind it. -/
inductive ValueForm (s : List Char) : Value → List Char → Prop where
  | text {after rest : List Char} {text : String} (hs : skipBlanks s = '"' :: after)
      (hread : out (string? after) = some (text, rest)) : ValueForm s (.text text) rest
  | emptyList {after rest : List Char} (hs : skipBlanks s = '[' :: after)
      (hclosed : skipBlanks after = ']' :: rest) : ValueForm s (.list []) rest
  | list {after rest : List Char} {items : List Value} (hs : skipBlanks s = '[' :: after)
      (hopen : (skipBlanks after).head? ≠ some ']') (hread : out (items? after) = some (items, rest)) :
      ValueForm s (.list items) rest
  | emptyTable {after rest : List Char} (hs : skipBlanks s = '\x7b' :: after)
      (hclosed : skipBlanks after = '\x7d' :: rest) : ValueForm s (.table []) rest
  | table {after rest : List Char} {entries : List (String × Value)} (hs : skipBlanks s = '\x7b' :: after)
      (hopen : (skipBlanks after).head? ≠ some '\x7d')
      (hread : out (entries? after) = some (entries, rest)) :
      ValueForm s (.table (Entries.ofList entries)) rest
  | scalar {rest : List Char} {v : Value} (hread : scalar? (skipBlanks s) = some (v, rest)) :
      ValueForm s v rest

theorem ValueForm.of_out {s rest : List Char} {v : Value} (h : out (value? s) = some (v, rest)) :
    ValueForm s v rest := by
  rw [out_value?] at h
  split at h
  · cases h
  · rename_i after hs
    rw [Option.bind_eq_some_iff] at h
    obtain ⟨read, hread, heq⟩ := h
    cases heq
    exact .text hs hread
  · rename_i after hs
    split at h
    · rename_i hclosed
      cases h
      exact .emptyList hs hclosed
    · rename_i hopen
      rw [Option.bind_eq_some_iff] at h
      obtain ⟨read, hread, heq⟩ := h
      cases heq
      refine .list hs (fun hhead => ?_) hread
      obtain ⟨more, hmore⟩ := List.head?_eq_some_iff.1 hhead
      exact hopen more hmore
  · rename_i after hs
    split at h
    · rename_i hclosed
      cases h
      exact .emptyTable hs hclosed
    · rename_i hopen
      rw [Option.bind_eq_some_iff] at h
      obtain ⟨read, hread, heq⟩ := h
      cases heq
      refine .table hs (fun hhead => ?_) hread
      obtain ⟨more, hmore⟩ := List.head?_eq_some_iff.1 hhead
      exact hopen more hmore
  · rename_i hs
    rw [Option.filter_eq_some_iff] at h
    rw [← hs] at h
    exact .scalar h.1

theorem ValueForm.out {s rest : List Char} {v : Value} (h : ValueForm s v rest) :
    out (value? s) = some (v, rest) := by
  cases h with
  | text hs hread =>
    rw [out_value?, hs]
    exact congrArg (fun read => read.bind fun read => some (Value.text read.1, read.2)) hread
  | emptyList hs hclosed => rw [out_value?, hs]; simp only [hclosed]
  | list hs hopen hread => rw [out_value?_items hs hopen, hread]; rfl
  | emptyTable hs hclosed => rw [out_value?, hs]; simp only [hclosed]
  | table hs hopen hread => rw [out_value?_entries hs hopen, hread]; rfl
  | scalar hread =>
    obtain ⟨taken, hs, hstart, htakes⟩ := scalar?_taken hread
    exact out_value?_scalar hs hstart (hs ▸ hread)

/-- Whatever the reader finds in the text, it takes the characters of it. -/
def TakesFrom {α : Type} (read : List Char → Option (α × List Char)) (stops : List Char → Prop)
    (s : List Char) : Prop :=
  ∀ item rest, read s = some (item, rest) → ∃ taken, s = taken ++ rest ∧ Takes read stops taken item

def readValue (s : List Char) : Option (Value × List Char) := Json.out (value? s)

def readItems (s : List Char) : Option (List Value × List Char) := Json.out (items? s)

def readEntries (s : List Char) : Option (List (String × Value) × List Char) := Json.out (entries? s)

/-- What is taken from anywhere. -/
def Anywhere (_ : List Char) : Prop := True

theorem closed_append (s : List Char) {t : List Char}
    (ht : ∃ c, t.getLast? = some c ∧ Text.isBlank c = false) :
    ∃ c, (s ++ t).getLast? = some c ∧ Text.isBlank c = false := by
  obtain ⟨c, hc, hblank⟩ := ht
  refine ⟨c, ?_, hblank⟩
  rw [List.getLast?_append, hc]
  rfl

theorem Takes.exists_mem {α : Type} {read : List Char → Option (α × List Char)} {stops : List Char → Prop}
    {taken : List Char} {item : α} (h : Takes read stops taken item) : ∃ c ∈ taken, isBlank c = false := by
  obtain ⟨c, hc, hblank⟩ := h.closed
  exact ⟨c, List.mem_of_getLast? hc, isBlank_of_text hblank⟩

/-- A value that opens with a mark, behind blanks. -/
theorem takes_opened {blanks inside : List Char} {opening : Char} {v : Value}
    (hblanks : ∀ c ∈ blanks, isBlank c = true) (hopening : opening ∈ ['"', '[', '\x7b'])
    (hlegal : ∀ c ∈ inside, isBlank c = true ∨ 0x20 ≤ c.toNat)
    (hclosed : ∃ c, inside.getLast? = some c ∧ Text.isBlank c = false)
    (hform : ∀ {s more}, skipBlanks s = opening :: (inside ++ more) → ValueForm s v more) :
    Takes readValue Stops (blanks ++ opening :: inside) v where
  legal := by
    have hmark : ∀ c ∈ ['"', '[', '\x7b'], 0x20 ≤ c.toNat := by simp
    simp only [List.forall_mem_append, List.forall_mem_cons]
    exact ⟨fun c hc => .inl (hblanks c hc), .inr (hmark opening hopening), hlegal⟩
  closed := by
    rw [List.append_cons]
    exact closed_append (blanks ++ [opening]) hclosed
  reads := by
    intro more _
    have hmark : ∀ c ∈ ['"', '[', '\x7b'], isBlank c = false := by simp [isBlank]
    refine (hform ?_).out
    rw [List.append_assoc, List.cons_append]
    exact skipBlanks_append hblanks (hmark opening hopening) _

/-- Nothing but blanks between two marks. -/
theorem skipBlanks_closing {after rest : List Char} {closing : Char}
    (hclosed : skipBlanks after = closing :: rest) :
    ∃ blanks, after = blanks ++ closing :: rest ∧ (∀ c ∈ blanks, isBlank c = true) ∧
      ∀ more, skipBlanks (blanks ++ closing :: more) = closing :: more := by
  obtain ⟨blanks, hsplit, hblanks, hhead⟩ := skipBlanks_taken after
  rw [hclosed] at hsplit hhead
  exact ⟨blanks, hsplit, hblanks, fun more => skipBlanks_append hblanks (hhead closing rfl) more⟩

/-- A value takes its characters if what it holds does. -/
theorem takesFrom_value {s : List Char}
    (hitems : ∀ after, after.length < s.length → TakesFrom readItems Anywhere after)
    (hentries : ∀ after, after.length < s.length → TakesFrom readEntries Anywhere after) :
    TakesFrom readValue Stops s := by
  intro v rest h
  obtain ⟨blanks, hsplit, hblanks, -⟩ := skipBlanks_taken s
  have hshorter {opening : Char} {after : List Char} (hs : skipBlanks s = opening :: after) :
      after.length < s.length := by
    have := skipBlanks_length s
    rw [hs, List.length_cons] at this
    omega
  cases ValueForm.of_out h with
  | text hs hread =>
    obtain ⟨inside, rfl, hinside, hreads⟩ := string?_taken hread
    refine ⟨blanks ++ '"' :: (inside ++ ['"']), by rw [hsplit, hs]; simp, ?_⟩
    refine takes_opened hblanks (by simp) ?_ (closed_append inside ⟨'"', rfl, by decide⟩)
      fun {s more} hskip => ?_
    · simp only [List.forall_mem_append, List.forall_mem_cons]
      exact ⟨fun c hc => .inr (hinside c hc), .inr (by decide), by simp⟩
    · rw [List.append_assoc, List.singleton_append] at hskip
      exact .text hskip (hreads more)
  | emptyList hs hclosed =>
    obtain ⟨between, rfl, hbetween, hskips⟩ := skipBlanks_closing hclosed
    refine ⟨blanks ++ '[' :: (between ++ [']']), by rw [hsplit, hs]; simp, ?_⟩
    refine takes_opened hblanks (by simp) ?_ (closed_append between ⟨']', rfl, by decide⟩)
      fun {s more} hskip => ?_
    · simp only [List.forall_mem_append, List.forall_mem_cons]
      exact ⟨fun c hc => .inl (hbetween c hc), .inr (by decide), by simp⟩
    · rw [List.append_assoc, List.singleton_append] at hskip
      exact .emptyList hskip (hskips more)
  | list hs hopen hread =>
    obtain ⟨inside, rfl, htakes⟩ := hitems _ (hshorter hs) _ _ hread
    refine ⟨blanks ++ '[' :: inside, by rw [hsplit, hs]; simp, ?_⟩
    refine takes_opened hblanks (by simp) htakes.legal htakes.closed fun {s more} hskip => ?_
    rw [head?_skipBlanks_append htakes.exists_mem] at hopen
    exact .list hskip (by rwa [head?_skipBlanks_append htakes.exists_mem]) (htakes.reads trivial)
  | emptyTable hs hclosed =>
    obtain ⟨between, rfl, hbetween, hskips⟩ := skipBlanks_closing hclosed
    refine ⟨blanks ++ '\x7b' :: (between ++ ['\x7d']), by rw [hsplit, hs]; simp, ?_⟩
    refine takes_opened hblanks (by simp) ?_ (closed_append between ⟨'\x7d', rfl, by decide⟩)
      fun {s more} hskip => ?_
    · simp only [List.forall_mem_append, List.forall_mem_cons]
      exact ⟨fun c hc => .inl (hbetween c hc), .inr (by decide), by simp⟩
    · rw [List.append_assoc, List.singleton_append] at hskip
      exact .emptyTable hskip (hskips more)
  | table hs hopen hread =>
    obtain ⟨inside, rfl, htakes⟩ := hentries _ (hshorter hs) _ _ hread
    refine ⟨blanks ++ '\x7b' :: inside, by rw [hsplit, hs]; simp, ?_⟩
    refine takes_opened hblanks (by simp) htakes.legal htakes.closed fun {s more} hskip => ?_
    rw [head?_skipBlanks_append htakes.exists_mem] at hopen
    exact .table hskip (by rwa [head?_skipBlanks_append htakes.exists_mem]) (htakes.reads trivial)
  | scalar hread =>
    obtain ⟨taken, hs, ⟨c, others, rfl, hstart⟩, htakes⟩ := scalar?_taken hread
    have hblank : isBlank c = false := by
      have hhead := (skipBlanks_taken s).choose_spec.2.2
      rw [hs] at hhead
      exact hhead c rfl
    refine ⟨blanks ++ c :: others, by rw [hsplit, hs]; simp, ?_, closed_append blanks htakes.closed, ?_⟩
    · exact List.forall_mem_append.2 ⟨fun d hd => .inl (hblanks d hd), htakes.legal⟩
    · intro more hmore
      refine (ValueForm.scalar ?_).out
      rw [List.append_assoc, List.cons_append, skipBlanks_append hblanks hblank, ← List.cons_append]
      exact htakes.reads hmore

/-- What stands behind a value in a list or a table does not go on a number. -/
theorem stops_blanks_append {blanks rest : List Char} (hblanks : ∀ c ∈ blanks, isBlank c = true)
    (hrest : Stops rest) : Stops (blanks ++ rest) := by
  refine head?_append_of (fun c hc => ?_) hrest
  have hblank := hblanks c (List.mem_of_head? hc)
  simp only [isBlank, Bool.or_eq_true, beq_iff_eq] at hblank
  rcases hblank with ((rfl | rfl) | rfl) | rfl <;> decide

/-- Something that goes on with a mark behind blanks, and takes what stands behind the mark. -/
theorem takes_marked {α : Type} {read : List Char → Option (α × List Char)} {item : α}
    {front blanks inside : List Char} {mark : Char}
    (hfront : ∀ c ∈ front, isBlank c = true ∨ 0x20 ≤ c.toNat)
    (hblanks : ∀ c ∈ blanks, isBlank c = true) (hmark : 0x20 ≤ mark.toNat)
    (hlegal : ∀ c ∈ inside, isBlank c = true ∨ 0x20 ≤ c.toNat)
    (hclosed : ∃ c, (mark :: inside).getLast? = some c ∧ Text.isBlank c = false)
    (hreads : ∀ more, read (front ++ (blanks ++ mark :: (inside ++ more))) = some (item, more)) :
    Takes read Anywhere (front ++ (blanks ++ mark :: inside)) item where
  legal := by
    simp only [List.forall_mem_append, List.forall_mem_cons]
    exact ⟨hfront, fun c hc => .inl (hblanks c hc), .inr hmark, hlegal⟩
  closed := closed_append front (closed_append blanks hclosed)
  reads := by
    intro more _
    rw [List.append_assoc, List.append_assoc, List.cons_append]
    exact hreads more

theorem stops_marked {blanks : List Char} (hblanks : ∀ c ∈ blanks, isBlank c = true) {mark : Char}
    (hmark : goesOn mark = false) (rest : List Char) : Stops (blanks ++ mark :: rest) :=
  stops_blanks_append hblanks fun c hc => by
    cases hc
    exact hmark

/-- The items of a list take their characters and the closing mark if each value does. -/
theorem takesFrom_items {s : List Char} (hvalue : TakesFrom readValue Stops s)
    (hitems : ∀ after, after.length < s.length → TakesFrom readItems Anywhere after) :
    TakesFrom readItems Anywhere s := by
  intro items rest h
  rw [readItems, out_items?, Option.bind_eq_some_iff] at h
  obtain ⟨⟨item, behind⟩, hread, h⟩ := h
  obtain ⟨taken, rfl, htakes⟩ := hvalue item behind hread
  dsimp only at h
  split at h
  · rename_i after hcomma
    rw [Option.bind_eq_some_iff] at h
    obtain ⟨⟨others, _⟩, hothers, heq⟩ := h
    cases heq
    obtain ⟨blanks, rfl, hblanks, hskips⟩ := skipBlanks_closing hcomma
    obtain ⟨inside, rfl, htakes'⟩ := hitems after (by simp; omega) _ _ hothers
    refine ⟨taken ++ (blanks ++ ',' :: inside), by simp, ?_⟩
    refine takes_marked htakes.legal hblanks (by decide) htakes'.legal
      (closed_append [','] htakes'.closed) fun more => ?_
    have hfirst : out (value? (taken ++ (blanks ++ ',' :: (inside ++ more)))) =
        some (item, blanks ++ ',' :: (inside ++ more)) :=
      htakes.reads (stops_marked hblanks rfl _)
    have hmore : out (items? (inside ++ more)) = some (others, more) := htakes'.reads trivial
    rw [readItems, out_items?, hfirst, Option.bind_some]
    simp only [hskips, hmore, Option.bind_some]
  · rename_i after hclosed
    cases h
    obtain ⟨blanks, rfl, hblanks, hskips⟩ := skipBlanks_closing hclosed
    refine ⟨taken ++ (blanks ++ [']']), by simp, ?_⟩
    refine takes_marked htakes.legal hblanks (by decide) (List.forall_mem_nil _) ⟨']', rfl, by decide⟩ fun more => ?_
    have hfirst : out (value? (taken ++ (blanks ++ ']' :: more))) = some (item, blanks ++ ']' :: more) :=
      htakes.reads (stops_marked hblanks rfl _)
    rw [List.nil_append, readItems, out_items?, hfirst, Option.bind_some]
    simp only [hskips]
  · cases h

/-- An entry of a table, up to what stands behind its value. -/
structure EntryFront (front : List Char) (entry : String × Value) : Prop where
  legal : ∀ c ∈ front, isBlank c = true ∨ 0x20 ≤ c.toNat
  reads : ∀ {behind}, Stops behind → readEntries (front ++ behind) = behindEntry entry behind

/-- A table is read entry by entry. -/
theorem exists_entryFront {s rest : List Char} {entries : List (String × Value)}
    (hvalue : ∀ after, after.length < s.length → TakesFrom readValue Stops after)
    (h : readEntries s = some (entries, rest)) :
    ∃ front behind entry, s = front ++ behind ∧ EntryFront front entry ∧
      behindEntry entry behind = some (entries, rest) := by
  rw [readEntries, out_entries?] at h
  split at h
  · rename_i afterQuote hquote
    rw [Option.bind_eq_some_iff] at h
    obtain ⟨⟨key, behindKey⟩, hkey, h⟩ := h
    obtain ⟨blanks, rfl, hblanks, hskips⟩ := skipBlanks_closing hquote
    obtain ⟨name, rfl, hname, hkeyReads⟩ := string?_taken hkey
    dsimp only at h
    split at h
    · rename_i afterColon hcolon
      rw [Option.bind_eq_some_iff] at h
      obtain ⟨⟨item, behind⟩, hitem, h⟩ := h
      obtain ⟨blanks', rfl, hblanks', hskips'⟩ := skipBlanks_closing hcolon
      obtain ⟨taken, rfl, htakes⟩ := hvalue afterColon (by simp; omega) _ _ hitem
      refine ⟨blanks ++ '"' :: (name ++ '"' :: (blanks' ++ ':' :: taken)), behind, (key, item), by simp,
        ⟨?_, fun {more} hmore => ?_⟩, h⟩
      · simp only [List.forall_mem_append, List.forall_mem_cons]
        exact ⟨fun c hc => .inl (hblanks c hc), .inr (by decide), fun c hc => .inr (hname c hc),
          .inr (by decide), fun c hc => .inl (hblanks' c hc), .inr (by decide), htakes.legal⟩
      · have hitem' : out (value? (taken ++ more)) = some (item, more) := htakes.reads hmore
        have hsplit : blanks ++ '"' :: (name ++ '"' :: (blanks' ++ ':' :: taken)) ++ more =
            blanks ++ '"' :: (name ++ '"' :: (blanks' ++ ':' :: (taken ++ more))) := by simp
        rw [hsplit, readEntries, out_entries?]
        simp only [hskips, hkeyReads, Option.bind_some, hskips', hitem']
    · cases h
  · cases h

/-- The entries of a table take their characters and the closing mark if each value does. -/
theorem takesFrom_entries {s : List Char}
    (hvalue : ∀ after, after.length < s.length → TakesFrom readValue Stops after)
    (hentries : ∀ after, after.length < s.length → TakesFrom readEntries Anywhere after) :
    TakesFrom readEntries Anywhere s := by
  intro entries rest h
  obtain ⟨front, behind, entry, rfl, hfront, h⟩ := exists_entryFront hvalue h
  unfold behindEntry at h
  split at h
  · rename_i after hcomma
    rw [Option.bind_eq_some_iff] at h
    obtain ⟨⟨others, _⟩, hothers, heq⟩ := h
    cases heq
    obtain ⟨blanks, rfl, hblanks, hskips⟩ := skipBlanks_closing hcomma
    obtain ⟨inside, rfl, htakes⟩ := hentries after (by simp; omega) _ _ hothers
    refine ⟨front ++ (blanks ++ ',' :: inside), by simp, ?_⟩
    refine takes_marked hfront.legal hblanks (by decide) htakes.legal
      (closed_append [','] htakes.closed) fun more => ?_
    have hmore : out (entries? (inside ++ more)) = some (others, more) := htakes.reads trivial
    rw [hfront.reads (stops_marked hblanks rfl _), behindEntry]
    simp only [hskips, hmore, Option.bind_some]
  · rename_i after hclosed
    cases h
    obtain ⟨blanks, rfl, hblanks, hskips⟩ := skipBlanks_closing hclosed
    refine ⟨front ++ (blanks ++ ['\x7d']), by simp, ?_⟩
    refine takes_marked hfront.legal hblanks (by decide) (List.forall_mem_nil _) ⟨'\x7d', rfl, by decide⟩ fun more => ?_
    rw [List.nil_append, hfront.reads (stops_marked hblanks rfl _), behindEntry]
    simp only [hskips]
  · cases h

/-- Every value takes its characters, and so do the items of lists and the entries of tables. -/
theorem takesFrom (s : List Char) :
    TakesFrom readValue Stops s ∧ TakesFrom readItems Anywhere s ∧ TakesFrom readEntries Anywhere s := by
  induction hlength : s.length using Nat.strong_induction_on generalizing s with
  | _ length ih =>
    subst hlength
    have hvalue := takesFrom_value (s := s) (fun after hafter => (ih _ hafter after rfl).2.1)
      fun after hafter => (ih _ hafter after rfl).2.2
    exact ⟨hvalue, takesFrom_items hvalue fun after hafter => (ih _ hafter after rfl).2.1,
      takesFrom_entries (fun after hafter => (ih _ hafter after rfl).1)
        fun after hafter => (ih _ hafter after rfl).2.2⟩

/-! ## Whole texts -/

theorem read?_eq_some_iff {s : List Char} {v : Value} :
    read? s = some v ↔ ∃ rest, readValue s = some (v, rest) ∧ ∀ c ∈ rest, isBlank c = true := by
  rw [read?, readValue]
  cases value? s with
  | none => simp [out]
  | some found => simp [out, skipBlanks, List.dropWhile_eq_nil_iff, and_comm]

/-- A text that is read is the characters of its value, with blanks behind them. -/
theorem exists_takes_of_read? {s : List Char} {v : Value} (h : read? s = some v) :
    ∃ taken blanks, s = taken ++ blanks ∧ Takes readValue Stops taken v ∧
      ∀ c ∈ blanks, isBlank c = true := by
  obtain ⟨blanks, hread, hblanks⟩ := read?_eq_some_iff.1 h
  obtain ⟨taken, hs, htakes⟩ := (takesFrom s).1 _ _ hread
  exact ⟨taken, blanks, hs, htakes, hblanks⟩

/-- No control character but the blanks stands in a text that is read. -/
theorem legal_of_read? {s : List Char} {v : Value} (h : read? s = some v) :
    ∀ c ∈ s, isBlank c = true ∨ 0x20 ≤ c.toNat := by
  obtain ⟨taken, blanks, rfl, htakes, hblanks⟩ := exists_takes_of_read? h
  exact List.forall_mem_append.2 ⟨htakes.legal, fun c hc => .inl (hblanks c hc)⟩

theorem text_isBlank {c : Char} (hc : isBlank c = true) : Text.isBlank c = true := by
  by_contra hblank
  rw [isBlank_of_text (Bool.of_not_eq_true hblank)] at hc
  cases hc

theorem read?_trimEnd {s : List Char} {v : Value} (h : read? s = some v) :
    read? (Text.trimEnd s) = some v := by
  obtain ⟨taken, blanks, rfl, htakes, hblanks⟩ := exists_takes_of_read? h
  obtain ⟨c, hc, hblank⟩ := htakes.closed
  have hnil : Stops [] := by simp [Stops]
  have halone := htakes.reads hnil
  rw [List.append_nil] at halone
  rw [Text.trimEnd_append hc hblank fun b hb => text_isBlank (hblanks b hb)]
  exact read?_eq_some_iff.2 ⟨[], halone, List.forall_mem_nil _⟩

/-- A text that goes on behind a value is not read as the value. -/
theorem read?_eq_none_of_append {s behind : List Char} {v : Value} (h : read? (s ++ behind) = some v)
    (hstops : Stops behind) (hbehind : ∃ c ∈ behind, isBlank c = false) : read? s = none := by
  rw [Option.eq_none_iff_forall_not_mem]
  intro w hw
  obtain ⟨taken, blanks, rfl, htakes, hblanks⟩ := exists_takes_of_read? hw
  obtain ⟨rest, hread, hrest⟩ := read?_eq_some_iff.1 h
  rw [List.append_assoc, htakes.reads (stops_blanks_append hblanks hstops)] at hread
  cases hread
  obtain ⟨c, hc, hblank⟩ := hbehind
  rw [hrest c (List.mem_append_right _ hc)] at hblank
  cases hblank

end DscAudit.Json

import DscAudit.Proofs.Text.Character
import DscAudit.Text.Integer

/-!
# Integers as they are written

The reader of integers takes more than digits: blanks around them, a sign, the mark of the base, and low
lines between digits, which may be those of any script.
-/

namespace DscAudit.Text.Integer

variable {base : Nat} {c : Char} {s : List Char}

/-! ## Digits and low lines -/

/-- Digits of a base, of which each may have a low line in front of it. -/
inductive IsTail (base : Nat) : List Char → Prop
  | nil : IsTail base []
  | digit {c : Char} {s : List Char} (hc : (digitIn? base c).isSome) (h : IsTail base s) :
      IsTail base (c :: s)
  | line {c : Char} {s : List Char} (hc : (digitIn? base c).isSome) (h : IsTail base s) :
      IsTail base ('_' :: c :: s)

/-- Digits of a base, of which each but the first may have a low line in front of it. -/
inductive IsDigits (base : Nat) : List Char → Prop
  | intro {c : Char} {s : List Char} (hc : (digitIn? base c).isSome) (h : IsTail base s) :
      IsDigits base (c :: s)

/-- The number that digits write behind a number. -/
def valueFrom (base value : Nat) (s : List Char) : Nat :=
  (s.filterMap (digitIn? base)).foldl (fun value digit => base * value + digit) value

theorem digitIn?_line (base : Nat) : digitIn? base '_' = none := by
  have hdigit : digitValue? '_' = none := by decide
  have hhex : hexValue? '_' = none := by decide
  rw [digitIn?, hdigit, hhex]
  rfl

theorem valueFrom_line (base value : Nat) (s : List Char) :
    valueFrom base value ('_' :: s) = valueFrom base value s := by
  rw [valueFrom, List.filterMap_cons_none (digitIn?_line base)]
  rfl

theorem valueFrom_digit {digit : Nat} (hc : digitIn? base c = some digit) (value : Nat)
    (s : List Char) : valueFrom base value (c :: s) = valueFrom base (base * value + digit) s := by
  rw [valueFrom, List.filterMap_cons_some hc]
  rfl

theorem isTail_digit_iff (hc : (digitIn? base c).isSome) : IsTail base (c :: s) ↔ IsTail base s := by
  refine ⟨fun h => ?_, .digit hc⟩
  cases h with
  | digit _ h => exact h
  | line => simp [digitIn?_line] at hc

theorem isTail_line_iff : IsTail base ('_' :: c :: s) ↔ (digitIn? base c).isSome ∧ IsTail base s := by
  refine ⟨fun h => ?_, fun ⟨hc, h⟩ => .line hc h⟩
  cases h with
  | digit hline => simp [digitIn?_line] at hline
  | line hc h => exact ⟨hc, h⟩

theorem digits?_eq_some_iff {value n : Nat} :
    digits? base value s = some n ↔ IsTail base s ∧ n = valueFrom base value s := by
  fun_induction digits? base value s with
  | case1 value => simp [IsTail.nil, valueFrom, eq_comm]
  | case2 value c rest digit hc ih =>
    rw [ih, isTail_line_iff, valueFrom_line, valueFrom_digit hc, hc]
    simp
  | case3 value c rest hc =>
    rw [isTail_line_iff, hc]
    simp
  | case4 value c rest _ digit hc ih =>
    rw [ih, isTail_digit_iff (by rw [hc]; rfl), valueFrom_digit hc]
  | case5 value c rest hne hc =>
    refine ⟨nofun, fun ⟨h, _⟩ => ?_⟩
    cases h with
    | digit hdigit => rw [hc] at hdigit; cases hdigit
    | line => exact absurd rfl (hne _ _ rfl)

theorem natural?_eq_some_iff {n : Nat} :
    natural? base s = some n ↔ IsDigits base s ∧ n = valueFrom base 0 s := by
  cases s with
  | nil =>
    constructor
    · intro h
      cases h
    · rintro ⟨h, -⟩
      cases h
  | cons c rest =>
    cases hc : digitIn? base c with
    | none =>
      rw [natural?, hc]
      constructor
      · intro h
        cases h
      · rintro ⟨⟨hdigit, -⟩, -⟩
        rw [hc] at hdigit
        cases hdigit
    | some digit =>
      rw [natural?, hc, Option.bind_some, digits?_eq_some_iff, valueFrom_digit hc, Nat.mul_zero,
        Nat.zero_add]
      refine and_congr_left' ⟨fun h => .intro (by rw [hc]; rfl) h, ?_⟩
      rintro ⟨-, h⟩
      exact h

/-! ## Marks -/

/-- The mark of a base, or nothing: a zero of any script, a letter of the base, and perhaps a low line. -/
inductive IsMark (base : Nat) : List Char → Prop
  | nil : IsMark base []
  | letter {zero letter : Char} (hzero : digitValue? zero = some 0)
      (hletter : letter ∈ baseLetters base) : IsMark base [zero, letter]
  | line {zero letter : Char} (hzero : digitValue? zero = some 0)
      (hletter : letter ∈ baseLetters base) : IsMark base [zero, letter, '_']

/-- The letter of a base is neither a digit in it nor a low line. -/
theorem not_isTail_letter {letter : Char} (hletter : letter ∈ baseLetters base) :
    ¬ IsTail base (letter :: s) := by
  have hnone : digitIn? base letter = none ∧ letter ≠ '_' := by
    unfold baseLetters at hletter
    split at hletter
    case h_4 => cases hletter
    all_goals
      simp only [List.mem_cons, List.not_mem_nil, or_false] at hletter
      rcases hletter with rfl | rfl <;> decide
  intro h
  cases h with
  | digit hdigit => rw [hnone.1] at hdigit; cases hdigit
  | line => exact hnone.2 rfl

theorem exists_mark (base : Nat) (s : List Char) :
    ∃ mark, IsMark base mark ∧ s = mark ++ unmarked base s := by
  unfold unmarked
  split
  · next c letter rest =>
    by_cases hmarked : (digitValue? c == some 0 && (baseLetters base).contains letter) = true
    · rw [if_pos hmarked]
      rw [Bool.and_eq_true, beq_iff_eq, List.contains_iff_mem] at hmarked
      split
      · exact ⟨_, .line hmarked.1 hmarked.2, rfl⟩
      · exact ⟨_, .letter hmarked.1 hmarked.2, rfl⟩
    · rw [if_neg hmarked]
      exact ⟨[], .nil, rfl⟩
  · exact ⟨[], .nil, rfl⟩

theorem unmarked_append {mark digits : List Char} (hmark : IsMark base mark)
    (hdigits : IsDigits base digits) : unmarked base (mark ++ digits) = digits := by
  cases hdigits with
  | @intro c s hc h =>
    cases hmark with
    | nil =>
      cases s with
      | nil => rfl
      | cons letter s =>
        have hnot : ¬ (digitValue? c == some 0 && (baseLetters base).contains letter) = true := by
          rw [Bool.and_eq_true, List.contains_iff_mem]
          exact fun hmarked => not_isTail_letter hmarked.2 h
        exact if_neg hnot
    | letter hzero hletter =>
      have hline : c ≠ '_' := by
        rintro rfl
        rw [digitIn?_line] at hc
        cases hc
      refine (if_pos (by simp [hzero, hletter])).trans ?_
      split
      · next heq => exact absurd (List.cons.inj heq).1 hline
      · rfl
    | line hzero hletter =>
      simp [unmarked, hzero, hletter]

theorem natural?_unmarked_eq_some_iff {n : Nat} :
    natural? base (unmarked base s) = some n ↔
      ∃ mark digits, s = mark ++ digits ∧ IsMark base mark ∧ IsDigits base digits ∧
        n = valueFrom base 0 digits := by
  rw [natural?_eq_some_iff]
  constructor
  · rintro ⟨hdigits, rfl⟩
    obtain ⟨mark, hmark, hs⟩ := exists_mark base s
    exact ⟨mark, _, hs, hmark, hdigits, rfl⟩
  · rintro ⟨mark, digits, rfl, hmark, hdigits, rfl⟩
    rw [unmarked_append hmark hdigits]
    exact ⟨hdigits, rfl⟩

/-! ## Figures -/

/-- A digit of base ten in any script, or of base sixteen. -/
def isFigure (c : Char) : Bool := ((digitValue? c).or (hexValue? c)).isSome

theorem isFigure_of_digitIn? (hc : (digitIn? base c).isSome) : isFigure c = true := by
  unfold digitIn? at hc
  unfold isFigure
  split at hc
  · next hvalue => rw [hvalue]; rfl
  · cases hc

theorem isBlank_of_isPadding (hc : isPadding c = true) : isBlank c = true := by
  unfold isPadding at hc
  split at hc
  · rw [Bool.or_eq_true, beq_iff_eq, Bool.and_eq_true, decide_eq_true_eq, decide_eq_true_eq] at hc
    rcases hc with rfl | hbounds
    · decide
    · exact inRanges_iff.mpr ⟨(0x09, 0x0D), List.mem_cons_self, hbounds⟩
  · exact hc

/-- The digits of base sixteen are digits and letters of ASCII. -/
theorem bounds_of_hexValue? {value : Nat} (hc : hexValue? c = some value) :
    value < 16 ∧ c.toNat < 128 ∧ c.isAlphanum = true := by
  unfold hexValue? at hc
  split at hc
  · next hdigit =>
    have hle := (isDigit_iff_toNat.mp hdigit).2
    cases hc
    exact ⟨by omega, by omega, by rw [Char.isAlphanum, hdigit, Bool.or_true]⟩
  split at hc
  · next hletter =>
    have hle : c.toNat ≤ 0x66 := UInt32.le_iff_toNat_le.mp hletter.2
    have hlower : c.isLower = true :=
      Bool.and_eq_true_iff.mpr ⟨decide_eq_true hletter.1, decide_eq_true (hletter.2.trans (by decide))⟩
    cases hc
    exact ⟨by omega, by omega, by rw [Char.isAlphanum, Char.isAlpha, hlower, Bool.or_true, Bool.true_or]⟩
  split at hc
  · next hletter =>
    have hle : c.toNat ≤ 0x46 := UInt32.le_iff_toNat_le.mp hletter.2
    have hupper : c.isUpper = true := decide_eq_true ⟨hletter.1, hletter.2.trans (by decide)⟩
    cases hc
    exact ⟨by omega, by omega, by rw [Char.isAlphanum, Char.isAlpha, hupper, Bool.true_or, Bool.true_or]⟩
  · cases hc

theorem isWordChar_of_hexValue? (hc : (hexValue? c).isSome) : isWordChar c = true := by
  obtain ⟨value, hvalue⟩ := Option.isSome_iff_exists.mp hc
  obtain ⟨-, hascii, hplain⟩ := bounds_of_hexValue? hvalue
  rw [isWordChar, if_pos hascii, hplain, Bool.true_or]

/-- The figures are not among what stands around an integer. -/
theorem not_isPadding_of_isFigure (hc : isFigure c = true) : isPadding c = false := by
  rw [Bool.eq_false_iff]
  intro hpadding
  have hblank := isBlank_of_isPadding hpadding
  by_cases hdigit : isDigit c = true
  · rw [isBlank_of_isDigit hdigit] at hblank
    cases hblank
  · rw [isDigit, Bool.not_eq_true, Option.isSome_eq_false_iff, Option.isNone_iff_eq_none] at hdigit
    rw [isFigure, hdigit, Option.none_or] at hc
    rw [isBlank_of_isWordChar (isWordChar_of_hexValue? hc)] at hblank
    cases hblank

theorem exists_figure {mark digits : List Char} (hmark : IsMark base mark)
    (hdigits : IsDigits base digits) : ∃ c rest, mark ++ digits = c :: rest ∧ isFigure c = true := by
  cases hmark with
  | nil =>
    cases hdigits with
    | intro hc _ => exact ⟨_, _, rfl, isFigure_of_digitIn? hc⟩
  | letter hzero _ => exact ⟨_, _, rfl, by rw [isFigure, hzero]; rfl⟩
  | line hzero _ => exact ⟨_, _, rfl, by rw [isFigure, hzero]; rfl⟩

theorem exists_last_figure (h : IsDigits base s) : ∃ c, s.getLast? = some c ∧ isFigure c = true := by
  have htail : ∀ {c : Char} {s : List Char}, isFigure c = true → IsTail base s →
      ∃ d, (c :: s).getLast? = some d ∧ isFigure d = true := by
    intro c s hc h
    induction h generalizing c with
    | nil => exact ⟨c, rfl, hc⟩
    | digit hd _ ih => rw [List.getLast?_cons_cons]; exact ih (isFigure_of_digitIn? hd)
    | line hd _ ih =>
      rw [List.getLast?_cons_cons, List.getLast?_cons_cons]
      exact ih (isFigure_of_digitIn? hd)
  cases h with
  | intro hc h => exact htail (isFigure_of_digitIn? hc) h

/-! ## Integers -/

/-- A text without padding that writes an integer: perhaps a sign, perhaps a mark, and digits. -/
inductive WritesBare (base : Nat) : List Char → Int → Prop
  | positive {sign mark digits : List Char} (hsign : sign = [] ∨ sign = ['+'])
      (hmark : IsMark base mark) (hdigits : IsDigits base digits) :
      WritesBare base (sign ++ (mark ++ digits)) (valueFrom base 0 digits)
  | negative {mark digits : List Char} (hmark : IsMark base mark) (hdigits : IsDigits base digits) :
      WritesBare base ('-' :: (mark ++ digits)) (-(valueFrom base 0 digits : Int))

/-- A text that writes an integer, with padding around it. -/
inductive Writes (base : Nat) : List Char → Int → Prop
  | intro {before bare after : List Char} {n : Int} (hbefore : ∀ c ∈ before, isPadding c = true)
      (hbare : WritesBare base bare n) (hafter : ∀ c ∈ after, isPadding c = true) :
      Writes base (before ++ bare ++ after) n

theorem WritesBare.of_natural? {sign rest : List Char} {value : Nat}
    (h : natural? base (unmarked base rest) = some value) (hsign : sign = [] ∨ sign = ['+']) :
    WritesBare base (sign ++ rest) value := by
  obtain ⟨mark, digits, rfl, hmark, hdigits, rfl⟩ := natural?_unmarked_eq_some_iff.mp h
  exact .positive hsign hmark hdigits

theorem read?_eq_some_iff_writesBare {n : Int} :
    read? base s = some n ↔ WritesBare base (trimWhile isPadding s) n := by
  unfold read?
  generalize trimWhile isPadding s = bare
  dsimp only
  constructor
  · intro h
    split at h
    · rename_i rest
      cases hvalue : natural? base (unmarked base rest) with
      | none => simp [hvalue] at h
      | some value =>
        obtain ⟨mark, digits, rfl, hmark, hdigits, rfl⟩ := natural?_unmarked_eq_some_iff.mp hvalue
        simp only [hvalue] at h
        cases h
        exact .negative hmark hdigits
    · obtain ⟨value, hvalue, rfl⟩ := Option.map_eq_some_iff.mp h
      exact WritesBare.of_natural? hvalue (.inr rfl)
    · obtain ⟨value, hvalue, rfl⟩ := Option.map_eq_some_iff.mp h
      exact WritesBare.of_natural? hvalue (.inl rfl)
  · intro h
    cases h with
    | @positive sign mark digits hsign hmark hdigits =>
      have hread := natural?_unmarked_eq_some_iff.mpr ⟨mark, digits, rfl, hmark, hdigits, rfl⟩
      rcases hsign with rfl | rfl
      · obtain ⟨c, rest, hc, hfigure⟩ := exists_figure hmark hdigits
        rw [List.nil_append]
        rw [hc] at hread ⊢
        -- no figure is a sign
        split
        · next heq =>
          cases heq
          exact absurd hfigure (by decide)
        · next heq =>
          cases heq
          exact absurd hfigure (by decide)
        · rw [hread]; rfl
      · exact Option.map_eq_some_iff.mpr ⟨_, hread, rfl⟩
    | @negative mark digits hmark hdigits =>
      have hread := natural?_unmarked_eq_some_iff.mpr ⟨mark, digits, rfl, hmark, hdigits, rfl⟩
      simp [hread]

/-- No padding stands at the ends of what writes an integer. -/
theorem WritesBare.ends {n : Int} (h : WritesBare base s n) :
    (∃ c, s.head? = some c ∧ isPadding c = false) ∧ ∃ d, s.getLast? = some d ∧ isPadding d = false := by
  have hdigit : ∀ {front digits : List Char}, IsDigits base digits →
      ∃ d, (front ++ digits).getLast? = some d ∧ isPadding d = false := by
    intro front digits hdigits
    obtain ⟨d, hd, hfigure⟩ := exists_last_figure hdigits
    exact ⟨d, by rw [List.getLast?_append, hd, Option.some_or], not_isPadding_of_isFigure hfigure⟩
  cases h with
  | @positive sign mark digits hsign hmark hdigits =>
    rw [← List.append_assoc]
    refine ⟨?_, hdigit hdigits⟩
    rw [List.append_assoc]
    rcases hsign with rfl | rfl
    · obtain ⟨c, rest, hc, hfigure⟩ := exists_figure hmark hdigits
      exact ⟨c, by rw [List.nil_append, hc]; rfl, not_isPadding_of_isFigure hfigure⟩
    · exact ⟨'+', rfl, by decide⟩
  | @negative mark digits hmark hdigits =>
    rw [← List.cons_append]
    exact ⟨⟨'-', rfl, by decide⟩, hdigit hdigits⟩

theorem read?_eq_some_iff {n : Int} : read? base s = some n ↔ Writes base s n := by
  rw [read?_eq_some_iff_writesBare]
  constructor
  · intro h
    obtain ⟨before, after, hs, hbefore, hafter⟩ := exists_trimWhile isPadding s
    rw [hs]
    exact .intro hbefore h hafter
  · rintro ⟨hbefore, hbare, hafter⟩
    obtain ⟨⟨c, hfirst, hc⟩, d, hlast, hd⟩ := hbare.ends
    rwa [trimWhile_append hbefore hafter hfirst hc hlast hd]

end DscAudit.Text.Integer

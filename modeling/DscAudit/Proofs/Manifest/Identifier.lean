import DscAudit.Manifest.Entry
import DscAudit.Proofs.Text.Integer

/-!
# Identifiers as numbers

What is left of the text of an identifier is read as a number in base sixteen, and all that counts besides
is its length.  So thirty-two digits are an identifier, and so is every other way to write a number with as
many characters.
-/

namespace DscAudit.Manifest.Identifier

open DscAudit.Text (hexValue?)
open DscAudit.Text.Integer (IsDigits IsTail Writes WritesBare digitIn? read?)

/-- Thirty-two digits of base sixteen. -/
structure IsPlain (core : List Char) : Prop where
  length_eq : core.length = 32
  digits : ∀ c ∈ core, (hexValue? c).isSome

/-- Thirty-two characters that write a number in base sixteen, and not a negative one. -/
structure IsNumeral (core : List Char) : Prop where
  length_eq : core.length = 32
  writes : ∃ n : Nat, Writes 16 core n

variable {s : List Char} {c : Char}

theorem isValid_iff : isValid s = true ↔ IsNumeral (digits s) := by
  have hread : (read? 16 (digits s)).any (fun n => decide (0 ≤ n)) = true ↔
      ∃ n : Nat, Writes 16 (digits s) n := by
    simp only [Option.any_eq_true, decide_eq_true_eq, Text.Integer.read?_eq_some_iff]
    constructor
    · rintro ⟨n, hwrites, hn⟩
      obtain ⟨m, rfl⟩ := Int.eq_ofNat_of_zero_le hn
      exact ⟨m, hwrites⟩
    · rintro ⟨n, hwrites⟩
      exact ⟨n, hwrites, Int.natCast_nonneg n⟩
  unfold isValid
  rw [Bool.and_eq_true, beq_iff_eq, hread]
  exact ⟨fun ⟨hlength, hwrites⟩ => ⟨hlength, hwrites⟩, fun h => ⟨h.length_eq, h.writes⟩⟩

theorem isSome_digitIn?_of_hexValue? (hc : (hexValue? c).isSome) : (digitIn? 16 c).isSome := by
  have hlt : ∀ value, (Text.digitValue? c).or (hexValue? c) = some value → value < 16 := by
    intro value hvalue
    rcases Option.or_eq_some_iff.mp hvalue with hdigit | ⟨-, hletter⟩
    · have := Text.digitValue?_lt hdigit
      omega
    · exact (Text.Integer.bounds_of_hexValue? hletter).1
  have hfigure : ((Text.digitValue? c).or (hexValue? c)).isSome := by
    rw [Option.isSome_or, hc, Bool.or_true]
  obtain ⟨value, hvalue⟩ := Option.isSome_iff_exists.mp hfigure
  rw [digitIn?, hvalue]
  dsimp only
  rw [if_pos (hlt value hvalue)]
  rfl

/-- Digits write a number, with nothing around them. -/
theorem IsPlain.isNumeral {core : List Char} (h : IsPlain core) : IsNumeral core := by
  have htail : ∀ {s : List Char}, (∀ c ∈ s, (hexValue? c).isSome) → IsTail 16 s := by
    intro s hs
    induction s with
    | nil => exact .nil
    | cons c s ih =>
      rw [List.forall_mem_cons] at hs
      exact .digit (isSome_digitIn?_of_hexValue? hs.1) (ih hs.2)
  refine ⟨h.length_eq, ?_⟩
  obtain ⟨hlength, hdigits⟩ := h
  cases core with
  | nil => cases hlength
  | cons c core =>
    rw [List.forall_mem_cons] at hdigits
    have hcore := IsDigits.intro (isSome_digitIn?_of_hexValue? hdigits.1) (htail hdigits.2)
    have hbare := WritesBare.positive (.inl rfl) .nil hcore
    have hwrites := Writes.intro (List.forall_mem_nil _) hbare (List.forall_mem_nil _)
    rw [List.append_nil] at hwrites
    exact ⟨_, hwrites⟩

end DscAudit.Manifest.Identifier

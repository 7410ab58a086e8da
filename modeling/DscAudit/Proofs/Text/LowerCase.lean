import DscAudit.Proofs.Text.Character
import DscAudit.Text.Infix

/-!
# Parts of texts in lower case

What a character becomes in lower case depends on its neighbours, and may be more than one character.
None of that matters to words of ASCII letters other than i and k: such a word is part of a text in
lower case exactly if a spelling of it in ASCII letters is part of the text.
-/

namespace DscAudit.Text

/-- An ASCII character that is the lower case of ASCII characters only. -/
def IsPlainLower (c : Char) : Prop := c.toNat < 128 ∧ c ∉ ['i', 'k']

theorem isPlainLower_of_all {word : List Char}
    (h : (word.all fun p => p.toNat < 128 && p != 'i' && p != 'k') = true) :
    ∀ p ∈ word, IsPlainLower p := by
  intro p hp
  have hplain := List.all_eq_true.1 h p hp
  simp only [Bool.and_eq_true, decide_eq_true_eq, bne_iff_ne] at hplain
  exact ⟨hplain.1.1, by simp [hplain.1.2, hplain.2]⟩

set_option maxRecDepth 20000 in
/-- No run of letters beyond ASCII has its lower case in ASCII, the Kelvin sign apart. -/
theorem caseRuns_bounds : ∀ run ∈ caseRuns,
    (128 ≤ run.first + run.shift ∧ run.last + run.shift < 0xD800) ∨
      (0xDFFF < run.first + run.shift ∧ run.last + run.shift < 0x110000) ∨
      (run.first = 0x212A ∧ run.last = 0x212A ∧ run.shift = -8383) := by
  decide

theorem toLower_of_lowerChar {c : Char} (h : IsPlainLower (lowerChar c)) :
    c.toNat < 128 ∧ lowerChar c = c.toLower := by
  by_cases hc : c.toNat < 128
  · exact ⟨hc, if_pos hc⟩
  exfalso
  obtain ⟨hascii, hmem⟩ := h
  rw [lowerChar, if_neg hc] at hascii hmem
  split at hascii
  · rename_i run hrun
    simp only [hrun] at hmem
    have hwithin := List.find?_some hrun
    simp only [Bool.and_eq_true, decide_eq_true_eq] at hwithin
    rcases caseRuns_bounds run (List.mem_of_find?_eq_some hrun) with hlow | hhigh | hkelvin
    · rw [Char.toNat_ofNat, if_pos (.inl (by omega))] at hascii
      omega
    · rw [Char.toNat_ofNat, if_pos (.inr (by omega))] at hascii
      omega
    · have hcode : (c.toNat + run.shift).toNat = 107 := by omega
      rw [hcode] at hmem
      exact hmem (by decide)
  · exact hc hascii

theorem ascii_of_toLower {c : Char} (h : c.toLower.toNat < 128) : c.toNat < 128 := by
  unfold Char.toLower at h
  split at h
  · rename_i hupper
    exact Nat.lt_of_le_of_lt (UInt32.le_iff_toNat_le.1 hupper.2) (by decide)
  · exact h

section Words

variable {word before s : List Char}

/-- Where a plain character is the lower case of one at the front of a text, nothing else is. -/
theorem lowerAfter_cons_of_head {c p : Char} {more : List Char} (hp : IsPlainLower p)
    (h : lowerAfter before (c :: s) = p :: more) :
    c.toNat < 128 ∧ c.toLower = p ∧ lowerAfter (c :: before) s = more := by
  rw [lowerAfter] at h
  by_cases hdotted : (c == '\u0130') = true
  · rw [hdotted] at h
    obtain ⟨rfl, -⟩ := List.cons.inj h
    exact absurd (by decide) hp.2
  rw [if_neg hdotted] at h
  by_cases hsigma : (c == '\u03A3') = true
  · rw [if_pos hsigma] at h
    split at h
    all_goals
      obtain ⟨rfl, -⟩ := List.cons.inj h
      exact absurd hp.1 (by decide)
  rw [if_neg hsigma] at h
  obtain ⟨rfl, hmore⟩ := List.cons.inj h
  obtain ⟨hc, hlower⟩ := toLower_of_lowerChar hp
  exact ⟨hc, hlower.symm, hmore⟩

theorem lowerAfter_cons_of_ascii {c : Char} (hc : c.toNat < 128) :
    lowerAfter before (c :: s) = c.toLower :: lowerAfter (c :: before) s := by
  have hdotted : ¬ (c == '\u0130') = true := by
    rw [beq_iff_eq]
    rintro rfl
    exact absurd hc (by decide)
  have hsigma : ¬ (c == '\u03A3') = true := by
    rw [beq_iff_eq]
    rintro rfl
    exact absurd hc (by decide)
  rw [lowerAfter, if_neg hdotted, if_neg hsigma, lowerChar, if_pos hc]
  rfl

theorem prefix_lowerAfter_iff (hword : ∀ p ∈ word, IsPlainLower p) :
    word <+: lowerAfter before s ↔ ∃ spelled, spelled <+: s ∧ spelled.map Char.toLower = word := by
  induction word generalizing before s with
  | nil => exact ⟨fun _ => ⟨[], List.nil_prefix, rfl⟩, fun _ => List.nil_prefix⟩
  | cons p word ih =>
    rw [List.forall_mem_cons] at hword
    cases s with
    | nil => simp [lowerAfter]
    | cons c s =>
      constructor
      · rintro ⟨rest, hrest⟩
        obtain ⟨hc, rfl, hmore⟩ := lowerAfter_cons_of_head hword.1 hrest.symm
        obtain ⟨spelled, hspelled, rfl⟩ := (@ih (c :: before) s hword.2).1 ⟨rest, hmore.symm⟩
        exact ⟨c :: spelled, List.cons_prefix_cons.2 ⟨rfl, hspelled⟩, rfl⟩
      · rintro ⟨spelled, hspelled, hlower⟩
        cases spelled with
        | nil => cases hlower
        | cons d spelled =>
          obtain ⟨rfl, rfl⟩ := List.cons.inj hlower
          obtain ⟨rfl, hrest⟩ := List.cons_prefix_cons.1 hspelled
          rw [lowerAfter_cons_of_ascii (ascii_of_toLower hword.1.1), List.cons_prefix_cons]
          exact ⟨rfl, (ih hword.2).2 ⟨spelled, hrest, rfl⟩⟩

theorem lowerAfter_cons_ne_nil (c : Char) : lowerAfter before (c :: s) ≠ [] := by
  rw [lowerAfter]
  split
  · exact List.cons_ne_nil _ _
  · split
    · split <;> exact List.cons_ne_nil _ _
    · exact List.cons_ne_nil _ _

theorem lowerAfter_eq_iff (hword : ∀ p ∈ word, IsPlainLower p) :
    lowerAfter before s = word ↔ s.map Char.toLower = word := by
  induction word generalizing before s with
  | nil =>
    cases s with
    | nil => exact ⟨fun _ => rfl, fun _ => rfl⟩
    | cons c s => simp [lowerAfter_cons_ne_nil]
  | cons p word ih =>
    rw [List.forall_mem_cons] at hword
    cases s with
    | nil => simp [lowerAfter]
    | cons c s =>
      rw [List.map_cons]
      constructor
      · intro hlower
        obtain ⟨-, rfl, hmore⟩ := lowerAfter_cons_of_head hword.1 hlower
        rw [(ih hword.2).1 hmore]
      · intro hspelled
        obtain ⟨rfl, hrest⟩ := List.cons.inj hspelled
        rw [lowerAfter_cons_of_ascii (ascii_of_toLower hword.1.1), (ih hword.2).2 hrest]

/-- The lower case of a text is a plain word exactly if the text spells it. -/
theorem lower_eq_iff (hword : ∀ p ∈ word, IsPlainLower p) :
    lower s = word ↔ s.map Char.toLower = word :=
  lowerAfter_eq_iff hword

/-- A plain word starts within the lower case of the first character only at its front. -/
theorem infix_lowerAfter_cons {c : Char} (hne : word ≠ []) (hword : ∀ p ∈ word, IsPlainLower p) :
    word <:+: lowerAfter before (c :: s) ↔
      word <+: lowerAfter before (c :: s) ∨ word <:+: lowerAfter (c :: before) s := by
  have hone {d : Char} (h : lowerAfter before (c :: s) = d :: lowerAfter (c :: before) s) :
      word <:+: lowerAfter before (c :: s) ↔
        word <+: lowerAfter before (c :: s) ∨ word <:+: lowerAfter (c :: before) s := by
    rw [h, List.infix_cons_iff]
  by_cases hdotted : (c == '\u0130') = true
  · have hcombining : ¬ word <+: '\u0307' :: lowerAfter (c :: before) s := by
      obtain ⟨p, word, rfl⟩ := List.exists_cons_of_ne_nil hne
      rw [List.cons_prefix_cons]
      rintro ⟨rfl, -⟩
      exact absurd (hword _ List.mem_cons_self).1 (by decide)
    have htwo : lowerAfter before (c :: s) = 'i' :: '\u0307' :: lowerAfter (c :: before) s := by
      rw [lowerAfter, if_pos hdotted]
      rfl
    rw [htwo, List.infix_cons_iff, List.infix_cons_iff, or_iff_right hcombining]
  · by_cases hsigma : (c == '\u03A3') = true
    · by_cases hfinal : (startsCased before && !startsCased s) = true
      · refine @hone '\u03C2' ?_
        rw [lowerAfter, if_neg hdotted, if_pos hsigma, if_pos hfinal]
        rfl
      · refine @hone '\u03C3' ?_
        rw [lowerAfter, if_neg hdotted, if_pos hsigma, if_neg hfinal]
        rfl
    · refine @hone (lowerChar c) ?_
      rw [lowerAfter, if_neg hdotted, if_neg hsigma]
      rfl

/-- A plain word is part of a text in lower case exactly if a spelling of it is part of the text. -/
theorem infix_lower_iff (hne : word ≠ []) (hword : ∀ p ∈ word, IsPlainLower p) :
    word <:+: lower s ↔ ∃ spelled, spelled <:+: s ∧ spelled.map Char.toLower = word := by
  have hafter : ∀ before, word <:+: lowerAfter before s ↔
      ∃ spelled, spelled <:+: s ∧ spelled.map Char.toLower = word := by
    induction s with
    | nil =>
      intro before
      simp [lowerAfter, hne, Ne.symm hne]
    | cons c s ih =>
      intro before
      rw [infix_lowerAfter_cons hne hword, ih, prefix_lowerAfter_iff hword]
      simp only [List.infix_cons_iff, or_and_right, exists_or]
  exact hafter []

end Words

end DscAudit.Text

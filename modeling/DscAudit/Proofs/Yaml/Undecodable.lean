import DscAudit.Yaml.Construction

/-!
# Files that are no text

A file is decoded by portions, so only what a portion needs is decoded.  A file of at most one chunk is
decoded as a whole before anything is looked at; if it is no text, that is all that comes of it.
-/

namespace DscAudit

namespace Text

open Utf8 (Pending)

namespace Supply

/-- If a chunk of octets can be decoded and no character is left over, every octet belongs to a
character. -/
theorem isSome_of_decodeChunk? {octets : Octets} {found found' : List Char} {pending : Option Pending}
    (hdecode : decodeChunk? found pending octets = some (found', none)) :
    ∀ c ∈ Utf8.decodeFrom pending octets, c.isSome := by
  induction octets generalizing found pending with
  | nil =>
    cases pending with
    | none => simp [Utf8.decodeFrom]
    | some p => simp [decodeChunk?] at hdecode
  | cons octet octets ih =>
    cases pending with
    | none =>
      simp only [decodeChunk?] at hdecode
      simp only [Utf8.decodeFrom, Utf8.begin]
      cases hstart : Utf8.start octet.toNat with
      | whole c =>
        rw [hstart] at hdecode
        simpa using ih hdecode
      | longer p =>
        rw [hstart] at hdecode
        simpa using ih hdecode
      | invalid =>
        rw [hstart] at hdecode
        cases hdecode
    | some p =>
      simp only [decodeChunk?] at hdecode
      simp only [Utf8.decodeFrom]
      by_cases hbounds : p.low ≤ octet.toNat ∧ octet.toNat ≤ p.high
      · rw [if_pos hbounds] at hdecode ⊢
        by_cases howed : p.owed = 1
        · rw [if_pos howed] at hdecode ⊢
          simpa using ih hdecode
        · rw [if_neg howed] at hdecode ⊢
          exact ih hdecode
      · rw [if_neg hbounds] at hdecode
        cases hdecode

/-- A character takes at least one octet, and so does what is left over. -/
theorem length_of_decodeChunk? {octets : Octets} {found found' : List Char}
    {pending pending' : Option Pending}
    (hdecode : decodeChunk? found pending octets = some (found', pending')) :
    found'.length + pending'.toList.length ≤
      found.length + pending.toList.length + octets.length := by
  induction octets generalizing found pending with
  | nil =>
    simp only [decodeChunk?, Option.some.injEq, Prod.mk.injEq] at hdecode
    obtain ⟨rfl, rfl⟩ := hdecode
    simp
  | cons octet octets ih =>
    cases pending with
    | none =>
      simp only [decodeChunk?] at hdecode
      split at hdecode
      · have hrest := ih hdecode
        simp at hrest ⊢
        omega
      · have hrest := ih hdecode
        simp at hrest ⊢
        omega
      · cases hdecode
    | some p =>
      simp only [decodeChunk?] at hdecode
      split at hdecode
      · split at hdecode
        · have hrest := ih hdecode
          simp at hrest ⊢
          omega
        · have hrest := ih hdecode
          simp at hrest ⊢
          omega
      · cases hdecode

theorem length_normalizeNewlines_le (s : List Char) : (normalizeNewlines s).length ≤ s.length := by
  induction s using normalizeNewlines.induct with
  | case1 => simp [normalizeNewlines]
  | case2 rest ih =>
    simp only [normalizeNewlines, List.length_cons]
    omega
  | case3 rest hfeed ih =>
    simp only [normalizeNewlines, List.length_cons]
    omega
  | case4 c rest hfeed hreturn ih =>
    simp only [normalizeNewlines, List.length_cons]
    omega

variable {content : Octets}

/-- All octets are decoded, a character is left over, and there are fewer characters than a chunk has
octets. -/
structure IsCut (supply : Supply) : Prop where
  octets : supply.octets = []
  partialChar : supply.partialChar.isSome
  short : supply.ready.length < chunkSize

theorem isSome_of_strict? (hall : ∀ c ∈ Utf8.decode content, c.isSome) :
    (Utf8.strict? content).isSome := by
  unfold Utf8.strict?
  generalize Utf8.decode content = decoded at hall
  induction decoded with
  | nil => rfl
  | cons c decoded ih =>
    obtain ⟨c, rfl⟩ := Option.isSome_iff_exists.mp (hall c (by simp))
    obtain ⟨s, hs⟩ := Option.isSome_iff_exists.mp (ih fun c hc => hall c (by simp [hc]))
    simp [hs]

/-- The one chunk of a small file that is no text cannot be decoded, or a character is left over. -/
theorem chunk?_ofFile (hsmall : content.length ≤ chunkSize) (hstrict : Utf8.strict? content = none)
    (wanted : Nat) :
    (ofFile content).chunk? wanted = none ∨
      ∃ supply, (ofFile content).chunk? wanted = some supply ∧ supply.IsCut := by
  have hsize : (ofFile content).octets.length ≤ (ofFile content).nextSize wanted :=
    Nat.le_trans hsmall (Nat.le_max_left _ _)
  have htake := List.take_of_length_le hsize
  unfold chunk?
  dsimp only
  rw [htake]
  rcases hdecode : decodeChunk? [] (ofFile content).partialChar (ofFile content).octets with
    - | ⟨found, _ | pending⟩
  · exact .inl rfl
  · have hsome : (Utf8.strict? content).isSome := isSome_of_strict? (isSome_of_decodeChunk? hdecode)
    rw [hstrict] at hsome
    cases hsome
  · refine .inr ⟨_, rfl, List.drop_of_length_le hsize, rfl, ?_⟩
    -- the octets of what is left over make no character
    have hfound : found.length < content.length := by
      simpa [ofFile, Nat.succ_le_iff] using length_of_decodeChunk? hdecode
    refine Nat.lt_of_le_of_lt ?_ (Nat.lt_of_lt_of_le hfound hsmall)
    simp only [ofFile, Bool.false_and, Bool.false_eq_true, if_false, List.nil_append]
    refine Nat.le_trans (length_normalizeNewlines_le _) ?_
    split
    · simp
    · simp

/-- What is left over keeps the end of the file from being read. -/
theorem fill?_of_isCut {supply : Supply} (hcut : supply.IsCut) (wanted fuel : Nat) :
    fill? wanted fuel supply = none ∨
      fill? wanted fuel supply = some supply ∧ wanted ≤ supply.ready.length := by
  have hclose : supply.close? = none := by simp [close?, hcut.partialChar]
  cases fuel with
  | zero => exact .inl hclose
  | succ fuel =>
    simp only [fill?, hcut.octets, List.isEmpty_nil, if_true, hclose]
    by_cases hready : wanted ≤ supply.ready.length
    · simp [hready]
    · simp [hready]

theorem portion?_of_isCut {supply : Supply} (hcut : supply.IsCut) (wanted : Nat) :
    supply.portion? wanted = none ∨
      wanted ≤ supply.ready.length ∧
        supply.portion? wanted =
          some (supply.ready.take wanted, { supply with ready := supply.ready.drop wanted }) := by
  unfold portion?
  rcases fill?_of_isCut hcut wanted (supply.octets.length + 1) with hfill | ⟨hfill, hready⟩
  · rw [hfill]
    exact .inl rfl
  · rw [hfill]
    exact .inr ⟨hready, rfl⟩

theorem portion?_ofFile {wanted : Nat} (hwanted : 0 < wanted) (hcontent : content ≠ []) :
    (ofFile content).portion? wanted = do
      let supply ← fill? wanted content.length (← (ofFile content).chunk? wanted)
      return (supply.ready.take wanted, { supply with ready := supply.ready.drop wanted }) := by
  have hready : ¬ wanted ≤ (ofFile content).ready.length := Nat.not_le.mpr hwanted
  have hoctets : (ofFile content).octets.isEmpty = false := by simpa [ofFile] using hcontent
  unfold portion?
  rw [fill?, if_neg hready, hoctets]
  exact Option.bind_assoc _ _ _

/-- The first two portions of a small file that is no text cannot both be read. -/
theorem portions_of_undecodable (hsmall : content.length ≤ chunkSize)
    (hstrict : Utf8.strict? content = none) {size : Nat} (hsize : chunkSize ≤ 2 * size) :
    (ofFile content).portion? size = none ∨
      ∃ portion supply, (ofFile content).portion? size = some (portion, supply) ∧
        supply.portion? size = none := by
  have hpositive : 0 < chunkSize := by decide
  have hcontent : content ≠ [] := by
    rintro rfl
    cases hstrict
  rw [portion?_ofFile (by omega) hcontent]
  rcases chunk?_ofFile hsmall hstrict size with hchunk | ⟨supply, hchunk, hcut⟩
  · rw [hchunk]
    exact .inl rfl
  rw [hchunk]
  rcases fill?_of_isCut hcut size content.length with hfill | ⟨hfill, hready⟩
  · exact .inl (by simp [hfill])
  -- the first portion can be read, and then too little is left for the second one
  have hshort := hcut.short
  have hrest : ({ supply with ready := supply.ready.drop size } : Supply).IsCut :=
    ⟨hcut.octets, hcut.partialChar, by simp only [List.length_drop]; omega⟩
  refine .inr ⟨_, _, by simp only [hfill, Option.bind_eq_bind, Option.bind_some]; rfl, ?_⟩
  rcases portion?_of_isCut hrest size with hnone | ⟨hready', -⟩
  · exact hnone
  · simp only [List.length_drop] at hready'
    omega

end Supply

end Text

namespace Yaml

open Text (Octets)

/-- A small file that is no text has no datum and is not refused as a document either. -/
theorem read_undecodable (levels : Nat) {content : Octets} (hsmall : content.length ≤ Text.chunkSize)
    (hstrict : Text.Utf8.strict? content = none) :
    read levels content = .error (.defect .undecodable) := by
  have hsource : Source.ofFile content = ⟨[], some (.defect .undecodable)⟩ := by
    have hsize : Text.chunkSize ≤ 2 * Source.portionSize := by decide
    unfold Source.ofFile
    rcases Text.Supply.portions_of_undecodable hsmall hstrict hsize with
      hfirst | ⟨portion, supply, hfirst, hsecond⟩
    · simp [hfirst]
    · simp [hfirst, hsecond]
  rw [read, hsource]
  rfl

end Yaml

end DscAudit

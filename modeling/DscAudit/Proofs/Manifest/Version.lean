import DscAudit.Config.Load
import DscAudit.Manifest.Entry
import DscAudit.Proofs.Text.Character
import DscAudit.Proofs.Text.Cutting
import Mathlib

/-!
# Versions as numbers

A version is read piece by piece, and a piece counts as the number that it writes, however many zeros
it begins with.  Of two versions the lower one has the lower number at the first place where they
differ; a version has zeros behind its last number, so nothing is changed by writing some of them.

A configuration may demand what is a version between the ends of its text, or before a line feed there.
-/

namespace DscAudit.Manifest.Version

open DscAudit.Text (digitValue? digitsValue isBlank splitAt trim)

/-! ## Reading -/

/-- The pieces of a text between points, blanks around it apart. -/
def pieces (s : List Char) : List (List Char) := splitAt '.' (trim s)

/-- Digits of any script, at least one. -/
def IsNumber (piece : List Char) : Prop := piece ≠ [] ∧ ∀ c ∈ piece, Text.isDigit c = true

theorem read?_eq_some_iff {s : List Char} {version : Version} :
    read? s = some version ↔
      (2 ≤ (pieces s).length ∧ (pieces s).length ≤ 4) ∧ (∀ piece ∈ pieces s, IsNumber piece) ∧
        version = (pieces s).map digitsValue := by
  have hunfold : read? s = if 2 ≤ (pieces s).length ∧ (pieces s).length ≤ 4 then
      if (pieces s).all fun piece => !piece.isEmpty && piece.all Text.isDigit then
        some ((pieces s).map digitsValue)
      else none
    else none := rfl
  rw [hunfold]
  have hnumbers : ((pieces s).all fun piece => !piece.isEmpty && piece.all Text.isDigit) = true ↔
      ∀ piece ∈ pieces s, IsNumber piece := by
    simp [IsNumber]
  split
  · rename_i hlength
    split
    · rename_i hall
      constructor
      · rintro ⟨⟩
        exact ⟨hlength, hnumbers.mp hall, rfl⟩
      · rintro ⟨-, -, rfl⟩
        rfl
    · rename_i hall
      exact ⟨nofun, fun ⟨_, hpieces, _⟩ => absurd (hnumbers.mpr hpieces) hall⟩
  · rename_i hlength
    exact ⟨nofun, fun ⟨hpieces, _⟩ => absurd hpieces hlength⟩

theorem length_le_of_read? {s : List Char} {version : Version} (hread : read? s = some version) :
    version.length ≤ 4 := by
  obtain ⟨⟨-, hlength⟩, -, rfl⟩ := read?_eq_some_iff.mp hread
  rwa [List.length_map]

/-! ## Order -/

/-- The number at a place; a number that is missing is zero. -/
def part (version : Version) (place : Nat) : Nat := version.getD place 0

/-- The first version has the lower number at the first place where their numbers differ. -/
def Precedes (a b : Version) : Prop :=
  ∃ place, (∀ earlier < place, a.part earlier = b.part earlier) ∧ a.part place < b.part place

variable {a b c d : Version}

theorem not_precedes_self (a : Version) : ¬ a.Precedes a := by
  rintro ⟨place, -, hlower⟩
  exact lt_irrefl _ hlower

/-- A version that is no higher precedes what is no lower. -/
theorem Precedes.mono (h : b.Precedes c) (hleft : ¬ b.Precedes a) (hright : ¬ d.Precedes c) :
    a.Precedes d := by
  -- this is the lexicographic order of the sequences of all numbers
  have hlow : toLex a.part ≤ toLex b.part := not_lt.mp hleft
  have hbetween : toLex b.part < toLex c.part := h
  have hhigh : toLex c.part ≤ toLex d.part := not_lt.mp hright
  exact (hlow.trans_lt hbetween).trans_le hhigh

theorem part_append_replicate (version : Version) (count : Nat) :
    part (version ++ List.replicate count 0) = version.part := by
  funext place
  simp only [part, List.getD_eq_getElem?_getD, List.getElem?_append, List.getElem?_replicate]
  split
  · rfl
  · rename_i houtside
    rw [List.getElem?_eq_none (by omega)]
    split <;> rfl

theorem getElem_padded {place : Nat} (hplace : place < a.padded.length) :
    a.padded[place] = a.part place := by
  rw [← part_append_replicate a (4 - a.length)]
  exact (List.getD_eq_getElem _ _ hplace).symm

theorem part_of_length_le {place : Nat} (hplace : a.length ≤ place) : a.part place = 0 := by
  rw [part, List.getD_eq_getElem?_getD, List.getElem?_eq_none hplace, Option.getD_none]

/-- Comparing the versions with four numbers is comparing all their numbers. -/
theorem isLower_iff (ha : a.length ≤ 4) (hb : b.length ≤ 4) :
    a.isLower b = true ↔ a.Precedes b := by
  have hlengthA := length_padded ha
  have hlengthB := length_padded hb
  rw [isLower, decide_eq_true_iff, List.lt_iff_exists]
  constructor
  · rintro (⟨-, hshort⟩ | ⟨place, hplaceA, hplaceB, hsame, hlower⟩)
    · omega
    · refine ⟨place, fun earlier hearlier => ?_, ?_⟩
      · have := hsame earlier hearlier
        rwa [getElem_padded, getElem_padded] at this
      · rwa [getElem_padded, getElem_padded] at hlower
  · rintro ⟨place, hsame, hlower⟩
    have hplace : place < 4 := by
      by_contra hbeyond
      rw [part_of_length_le (by omega : b.length ≤ place)] at hlower
      exact Nat.not_lt_zero _ hlower
    refine .inr ⟨place, by omega, by omega, fun earlier hearlier => ?_, ?_⟩
    · rw [getElem_padded, getElem_padded]
      exact hsame earlier hearlier
    · rwa [getElem_padded, getElem_padded]

/-! ## Zeros -/

/-- Digits of any script that are zero. -/
def AreZeros (digits : List Char) : Prop := ∀ c ∈ digits, digitValue? c = some 0

/-- The second piece is the first one with zeros in front of it. -/
def IsLedBy (piece longer : List Char) : Prop := ∃ zeros, AreZeros zeros ∧ longer = zeros ++ piece

/-- The second text writes the numbers of the first one, perhaps with zeros in front of them, and then
perhaps numbers that are zero; these are four numbers at most. -/
def AddsZeros (s t : List Char) : Prop :=
  (pieces t).length ≤ 4 ∧ ∃ kept added, pieces t = kept ++ added ∧
    List.Forall₂ IsLedBy (pieces s) kept ∧ ∀ piece ∈ added, piece ≠ [] ∧ AreZeros piece

theorem digitsValue_append_of_areZeros {zeros : List Char} (hzeros : AreZeros zeros)
    (digits : List Char) : digitsValue (zeros ++ digits) = digitsValue digits := by
  induction zeros with
  | nil => rfl
  | cons c zeros ih =>
    have hc := hzeros c List.mem_cons_self
    have hrest := ih fun d hd => hzeros d (List.mem_cons_of_mem c hd)
    simpa [digitsValue, hc] using hrest

theorem digitsValue_of_areZeros {zeros : List Char} (hzeros : AreZeros zeros) :
    digitsValue zeros = 0 := by
  simpa [digitsValue] using digitsValue_append_of_areZeros hzeros []

theorem AreZeros.isDigit {zeros : List Char} (hzeros : AreZeros zeros) :
    ∀ c ∈ zeros, Text.isDigit c = true := by
  intro c hc
  rw [Text.isDigit, hzeros c hc]
  rfl

theorem IsNumber.of_isLedBy {piece longer : List Char} (hnumber : IsNumber piece)
    (hled : IsLedBy piece longer) : IsNumber longer := by
  obtain ⟨zeros, hzeros, rfl⟩ := hled
  refine ⟨by simp [hnumber.1], fun c hc => ?_⟩
  rcases List.mem_append.mp hc with hc | hc
  · exact hzeros.isDigit c hc
  · exact hnumber.2 c hc

/-- Zeros in front of numbers leave the numbers as they are. -/
theorem numbers_of_forall₂_isLedBy {short long : List (List Char)}
    (hled : List.Forall₂ IsLedBy short long) (hshort : ∀ piece ∈ short, IsNumber piece) :
    (∀ piece ∈ long, IsNumber piece) ∧ long.map digitsValue = short.map digitsValue := by
  induction hled with
  | nil => exact ⟨nofun, rfl⟩
  | @cons piece longer short long hpiece _ ih =>
    rw [List.forall_mem_cons] at hshort
    obtain ⟨hnumbers, hvalues⟩ := ih hshort.2
    refine ⟨List.forall_mem_cons.mpr ⟨hshort.1.of_isLedBy hpiece, hnumbers⟩, ?_⟩
    obtain ⟨zeros, hzeros, rfl⟩ := hpiece
    rw [List.map_cons, List.map_cons, hvalues, digitsValue_append_of_areZeros hzeros]

/-- A version with more zeros is a version with the same numbers. -/
theorem read?_of_addsZeros {s t : List Char} {version : Version} (hread : read? s = some version)
    (hzeros : AddsZeros s t) : ∃ longer, read? t = some longer ∧ longer.part = version.part := by
  obtain ⟨⟨hlow, -⟩, hnumbers, rfl⟩ := read?_eq_some_iff.mp hread
  obtain ⟨hhigh, kept, added, hpieces, hled, hadded⟩ := hzeros
  obtain ⟨hkept, hvalues⟩ := numbers_of_forall₂_isLedBy hled hnumbers
  have hzero : added.map digitsValue = List.replicate added.length 0 := by
    rw [List.map_eq_replicate_iff]
    exact fun piece hpiece => digitsValue_of_areZeros (hadded piece hpiece).2
  have hlength := hled.length_eq
  refine ⟨(pieces t).map digitsValue, read?_eq_some_iff.mpr ⟨⟨?_, hhigh⟩, ?_, rfl⟩, ?_⟩
  · rw [hpieces, List.length_append]
    omega
  · rw [hpieces, List.forall_mem_append]
    exact ⟨hkept, fun piece hpiece => ⟨(hadded piece hpiece).1, (hadded piece hpiece).2.isDigit⟩⟩
  · rw [hpieces, List.map_append, hvalues, hzero, part_append_replicate]

/-! ## Demanded versions -/

/-- The rest of a text that is numbers with points between them: what is left of one number, and others.
The flags tell whether digits of that number and whether a point have come before. -/
structure IsRest (afterDigit afterPoint : Bool) (left : Nat) (first : List Char)
    (others : List (List Char)) (ending s : List Char) : Prop where
  written : s = ['.'].intercalate (first :: others) ++ ending
  digits : ∀ number ∈ first :: others, ∀ c ∈ number, c.isDigit = true
  begun : afterDigit = false → first ≠ []
  full : ∀ number ∈ others, number ≠ []
  several : afterPoint = false → others ≠ []
  length_le : others.length ≤ left
  ending : ending = [] ∨ ending = ['\n']

theorem exists_isRest {afterDigit afterPoint : Bool} {left : Nat} {s : List Char}
    (hs : Config.isDottedNumber afterDigit afterPoint left s = true) :
    ∃ first others ending, IsRest afterDigit afterPoint left first others ending s := by
  induction afterDigit, afterPoint, left, s using Config.isDottedNumber.induct with
  | case1 afterDigit afterPoint left =>
    rw [Config.isDottedNumber, Bool.and_eq_true] at hs
    obtain ⟨rfl, rfl⟩ := hs
    exact ⟨[], [], [], by simp, by simp, by simp, by simp, by simp, by simp, .inl rfl⟩
  | case2 afterDigit afterPoint left =>
    rw [Config.isDottedNumber, Bool.and_eq_true] at hs
    obtain ⟨rfl, rfl⟩ := hs
    exact ⟨[], [], ['\n'], by simp, by simp, by simp, by simp, by simp, by simp, .inr rfl⟩
  | case3 afterDigit afterPoint left c rest hrest hc ih =>
    have hs : Config.isDottedNumber true afterPoint left rest = true := by
      cases left <;> simpa [Config.isDottedNumber, hc] using hs
    obtain ⟨first, others, ending, hwritten, hdigits, -, hfull, hseveral, hlength, hending⟩ := ih hs
    rw [List.forall_mem_cons] at hdigits
    refine ⟨c :: first, others, ending, ?_, ?_, fun _ => List.cons_ne_nil _ _, hfull, hseveral, hlength,
      hending⟩
    · rw [hwritten]
      cases others <;> simp [List.intercalate_cons_cons]
    · exact List.forall_mem_cons.mpr ⟨List.forall_mem_cons.mpr ⟨hc, hdigits.1⟩, hdigits.2⟩
  | case4 afterDigit afterPoint c rest hrest hc => simp [Config.isDottedNumber, hc] at hs
  | case5 afterDigit afterPoint c rest hrest hc left ih =>
    have hs : (c = '.' ∧ afterDigit = true) ∧ Config.isDottedNumber false true left rest = true := by
      simpa [Config.isDottedNumber, hc] using hs
    obtain ⟨⟨rfl, rfl⟩, hs⟩ := hs
    obtain ⟨first, others, ending, hwritten, hdigits, hbegun, hfull, -, hlength, hending⟩ := ih hs
    refine ⟨[], first :: others, ending, ?_, ?_, by simp, ?_, fun _ => List.cons_ne_nil _ _, ?_, hending⟩
    · rw [hwritten, List.intercalate_cons_cons]
      rfl
    · exact List.forall_mem_cons.mpr ⟨List.forall_mem_nil _, hdigits⟩
    · exact List.forall_mem_cons.mpr ⟨hbegun rfl, hfull⟩
    · rw [List.length_cons]
      omega

/-- What may be demanded is a version. -/
theorem exists_read?_of_dottedNumber {s : List Char} (hs : Config.dottedNumber.occursIn s = true) :
    ∃ version, read? s = some version := by
  obtain ⟨first, others, ending, hwritten, hdigits, hbegun, hfull, hseveral, hlength, hending⟩ :=
    exists_isRest hs
  have hnumbers : ∀ number ∈ first :: others, number ≠ [] :=
    List.forall_mem_cons.mpr ⟨hbegun rfl, hfull⟩
  have hpoint : ∀ number ∈ first :: others, '.' ∉ number := by
    intro number hnumber hmem
    exact absurd (hdigits number hnumber _ hmem) (by decide)
  have hshown : ∀ c ∈ ['.'].intercalate (first :: others), isBlank c = false := by
    refine Text.forall_mem_intercalate (by decide) fun number hnumber c hc => ?_
    exact Text.isBlank_of_isDigit (Text.isDigit_of_ascii (hdigits number hnumber c hc))
  have hne : ['.'].intercalate (first :: others) ≠ [] := by
    obtain ⟨c, cs, hfirst⟩ := List.exists_cons_of_ne_nil (hbegun rfl)
    cases others <;> simp [hfirst, List.intercalate_cons_cons]
  have hblanks : ∀ b ∈ ending, isBlank b = true := by
    rcases hending with rfl | rfl
    · exact List.forall_mem_nil _
    · exact List.forall_mem_singleton.mpr (by decide)
  have hpieces : pieces s = first :: others := by
    rw [pieces, hwritten, Text.trim_of_forall_not_isBlank hne hshown hblanks,
      Text.splitAt_intercalate (List.cons_ne_nil _ _) hpoint]
  have hothers := List.length_pos_iff.mpr (hseveral rfl)
  refine ⟨_, read?_eq_some_iff.mpr ⟨?_, ?_, rfl⟩⟩
  · rw [hpieces, List.length_cons]
    omega
  · rw [hpieces]
    exact fun number hnumber => ⟨hnumbers number hnumber,
      fun c hc => Text.isDigit_of_ascii (hdigits number hnumber c hc)⟩

end DscAudit.Manifest.Version

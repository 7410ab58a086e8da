import DscAudit.Proofs.Text.Character
import DscAudit.Resource.Schema

/-!
# Reading a schema up to a quotation mark

Blanks, words and marks have no quotation mark in them.  So a text is read in the same way if a
quotation mark and anything else follow, as long as no quotation mark is asked for.
-/

namespace DscAudit

namespace Text

variable {c : Char}

/-! ## Blanks and words -/

theorem dropWhile_append_of_eq_false {p : Char → Bool} (hc : p c = false) (s rest : List Char) :
    (s ++ c :: rest).dropWhile p = s.dropWhile p ++ c :: rest := by
  rw [List.dropWhile_append]
  split
  · rename_i hempty
    rw [List.isEmpty_iff.mp hempty, List.dropWhile_cons_of_neg (by simp [hc]), List.nil_append]
  · rfl

theorem takeWhile_append_of_eq_false {p : Char → Bool} (hc : p c = false) (s rest : List Char) :
    (s ++ c :: rest).takeWhile p = s.takeWhile p := by
  rw [List.takeWhile_append]
  split
  · rename_i hall
    rw [List.takeWhile_cons_of_neg (by simp [hc]), List.append_nil]
    exact (List.takeWhile_prefix p).eq_of_length hall |>.symm
  · rfl

theorem isBlank_quote : isBlank '"' = false := by decide

theorem isWordChar_quote : isWordChar '"' = false := by decide

theorem trimStart_append_quote (s rest : List Char) :
    trimStart (s ++ '"' :: rest) = trimStart s ++ '"' :: rest :=
  dropWhile_append_of_eq_false isBlank_quote s rest

theorem afterBlanks?_append_quote (s rest : List Char) :
    afterBlanks? (s ++ '"' :: rest) = (afterBlanks? s).map (· ++ '"' :: rest) := by
  cases s with
  | nil => simp [afterBlanks?, isBlank_quote]
  | cons c s =>
    simp only [List.cons_append, afterBlanks?, trimStart_append_quote]
    split <;> rfl

theorem sameInAnyCase_quote {letter : Char} (hletter : letter ≠ '"') :
    sameInAnyCase letter '"' = false := by
  have hlower : '"'.toLower = '"' := by decide
  simp [sameInAnyCase, hlower, hletter.symm]

theorem afterWord?_append {word : List Char} (hc : ∀ letter ∈ word, sameInAnyCase letter c = false)
    (s rest : List Char) :
    afterWord? word (s ++ c :: rest) = (afterWord? word s).map (· ++ c :: rest) := by
  induction word generalizing s with
  | nil => simp [afterWord?]
  | cons letter word ih =>
    rw [List.forall_mem_cons] at hc
    cases s with
    | nil => simp [afterWord?, hc.1]
    | cons d s =>
      simp only [List.cons_append, afterWord?]
      split
      · exact ih hc.2 s
      · rfl

theorem afterWord?_append_quote {word : List Char} (hword : '"' ∉ word) (s rest : List Char) :
    afterWord? word (s ++ '"' :: rest) = (afterWord? word s).map (· ++ '"' :: rest) :=
  afterWord?_append (fun _ hletter => sameInAnyCase_quote (ne_of_mem_of_not_mem hletter hword)) s rest

theorem afterWord?_eq_some_iff {word s rest : List Char} :
    afterWord? word s = some rest ↔ ∃ spelled,
      List.Forall₂ (fun letter c => sameInAnyCase letter c = true) word spelled ∧
        s = spelled ++ rest := by
  induction word generalizing s with
  | nil => simp [afterWord?]
  | cons letter word ih =>
    cases s with
    | nil => simp [afterWord?, List.forall₂_cons_left_iff]
    | cons c s =>
      simp only [afterWord?, List.forall₂_cons_left_iff]
      by_cases hc : sameInAnyCase letter c = true
      · rw [if_pos hc, ih]
        constructor
        · intro hspelled
          obtain ⟨spelled, hspelled, rfl⟩ := hspelled
          exact ⟨c :: spelled, ⟨c, spelled, hc, hspelled, rfl⟩, rfl⟩
        · intro hspelled
          obtain ⟨-, ⟨d, spelled, -, hspelled, rfl⟩, hs⟩ := hspelled
          cases hs
          exact ⟨spelled, hspelled, rfl⟩
      · rw [if_neg hc]
        constructor
        · intro hnone
          cases hnone
        · intro hspelled
          obtain ⟨-, ⟨d, spelled, hd, -, rfl⟩, hs⟩ := hspelled
          cases hs
          exact absurd hd hc

/-- No blank spells anything but itself. -/
theorem isBlank_of_spelling {letter : Char} (hletter : isBlank letter = false)
    (hc : sameInAnyCase letter c = true) : isBlank c = false := by
  simp only [sameInAnyCase, Bool.or_eq_true, Bool.and_eq_true, beq_iff_eq] at hc
  rcases hc with ((hlower | ⟨-, rfl | rfl⟩) | ⟨-, rfl⟩) | ⟨-, rfl⟩
  · by_cases hupper : 65 ≤ c.val ∧ c.val ≤ 90
    · have hlt : c.toNat < 128 := Nat.lt_of_le_of_lt (UInt32.le_iff_toNat_le.mp hupper.2) (by decide)
      have hisUpper : c.isUpper = true := by simpa [Char.isUpper] using hupper
      apply isBlank_of_isWordChar
      simp [isWordChar, hlt, Char.isAlphanum, Char.isAlpha, hisUpper]
    · have hsame : c.toLower = c := by
        rw [Char.toLower]
        exact dif_neg hupper
      rwa [← hlower, hsame] at hletter
  · decide
  · decide
  · decide
  · decide

/-- A character that spells a letter is not blank. -/
theorem isBlank_of_sameInAnyCase {letter : Char} (hletter : letter.isLower = true)
    (hc : sameInAnyCase letter c = true) : isBlank c = false := by
  refine isBlank_of_spelling (isBlank_of_isWordChar ?_) hc
  have hbounds := hletter
  simp only [Char.isLower, Bool.and_eq_true, decide_eq_true_eq] at hbounds
  have hlt : letter.toNat < 128 := Nat.lt_of_le_of_lt (UInt32.le_iff_toNat_le.mp hbounds.2) (by decide)
  simp [isWordChar, hlt, Char.isAlphanum, Char.isAlpha, hletter]

theorem afterWord?_suffix {word s rest : List Char} (hrest : afterWord? word s = some rest) :
    rest <:+ s := by
  obtain ⟨spelled, -, rfl⟩ := afterWord?_eq_some_iff.mp hrest
  exact List.suffix_append spelled rest

/-- Two words that differ in a letter do not both begin a text. -/
theorem afterWord?_eq_none_of_differ {first second : Char}
    (hdiffer : ∀ c, sameInAnyCase first c = true → sameInAnyCase second c = false)
    (same behind other : List Char) {s rest : List Char}
    (hfirst : afterWord? (same ++ first :: behind) s = some rest) :
    afterWord? (same ++ second :: other) s = none := by
  induction same generalizing s with
  | nil =>
    cases s with
    | nil => rfl
    | cons c s =>
      simp only [List.nil_append, afterWord?] at hfirst ⊢
      split at hfirst
      · rw [hdiffer c ‹_›]
        rfl
      · cases hfirst
  | cons letter same ih =>
    cases s with
    | nil => rfl
    | cons c s =>
      simp only [List.cons_append, afterWord?] at hfirst ⊢
      split at hfirst
      · rw [if_pos ‹_›]
        exact ih hfirst
      · cases hfirst

end Text

namespace Resource.Schema

open Text

theorem spanWord?_append_quote (s rest : List Char) :
    spanWord? (s ++ '"' :: rest) =
      (spanWord? s).map fun found => (found.1, found.2 ++ '"' :: rest) := by
  unfold spanWord?
  rw [takeWhile_append_of_eq_false isWordChar_quote, dropWhile_append_of_eq_false isWordChar_quote]
  dsimp only
  split <;> rfl

theorem afterMark?_append_quote {mark : Char} (hmark : mark ≠ '"') (s rest : List Char) :
    afterMark? mark (s ++ '"' :: rest) = (afterMark? mark s).map (· ++ '"' :: rest) := by
  unfold afterMark?
  rw [trimStart_append_quote]
  cases trimStart s with
  | nil => simp [hmark.symm]
  | cons c s =>
    dsimp only [List.cons_append]
    split <;> rfl

theorem afterMark?_eq_some_iff {mark : Char} (hmark : isBlank mark = false) {s rest : List Char} :
    afterMark? mark s = some rest ↔
      ∃ blanks, trimStart blanks = [] ∧ s = blanks ++ mark :: rest := by
  constructor
  · intro hrest
    unfold afterMark? at hrest
    split at hrest
    · rename_i c behind hstart
      split at hrest
      · rename_i hc
        cases hrest
        use s.takeWhile isBlank
        constructor
        · exact List.dropWhile_eq_nil_iff.mpr fun c hc => List.mem_takeWhile_imp hc
        · rw [← hc, ← hstart]
          exact (List.takeWhile_append_dropWhile).symm
      · cases hrest
    · cases hrest
  · intro hblanks
    obtain ⟨blanks, hblanks, rfl⟩ := hblanks
    have hstart : trimStart (blanks ++ mark :: rest) = mark :: rest := by
      rw [trimStart, dropWhile_append_of_eq_false hmark]
      show trimStart blanks ++ mark :: rest = mark :: rest
      rw [hblanks, List.nil_append]
    simp [afterMark?, hstart]

theorem afterMark?_suffix {mark : Char} (hmark : isBlank mark = false) {s rest : List Char}
    (hrest : afterMark? mark s = some rest) : mark :: rest <:+ s := by
  obtain ⟨blanks, -, rfl⟩ := (afterMark?_eq_some_iff hmark).mp hrest
  exact List.suffix_append blanks (mark :: rest)

theorem base?_append_quote (s rest : List Char) :
    base? (s ++ '"' :: rest) = (base? s).map fun found => (found.1, found.2 ++ '"' :: rest) := by
  unfold base?
  rw [afterMark?_append_quote (by decide)]
  cases afterMark? ':' s with
  | none => rfl
  | some behind =>
    show spanWord? (trimStart (behind ++ '"' :: rest)) = _
    rw [trimStart_append_quote, spanWord?_append_quote]
    rfl

/-! ## Keys -/

/-- The text behind the brackets of an array type, if it starts with them. -/
def behindBrackets : List Char → List Char
  | '[' :: ']' :: rest => rest
  | rest => rest

theorem behindBrackets_append_quote (s rest : List Char) :
    behindBrackets (s ++ '"' :: rest) = behindBrackets s ++ '"' :: rest := by
  rcases s with _ | ⟨c, _ | ⟨d, s⟩⟩
  · rfl
  · by_cases hc : c = '['
    · rw [hc]
      rfl
    · simp [behindBrackets, hc]
  · by_cases hbrackets : c = '[' ∧ d = ']'
    · rw [hbrackets.1, hbrackets.2]
      rfl
    · have hself : ∀ s, behindBrackets (c :: d :: s) = c :: d :: s := by
        intro s
        unfold behindBrackets
        split
        · rename_i heq
          cases heq
          exact absurd ⟨rfl, rfl⟩ hbrackets
        · rfl
      rw [List.cons_append, List.cons_append, hself, hself, List.cons_append, List.cons_append]

/-- Do blanks and a word follow? -/
def startsName (s : List Char) : Bool :=
  match afterBlanks? s with
  | some (c :: _) => isWordChar c
  | _ => false

theorem startsName_append_quote (s rest : List Char) :
    startsName (s ++ '"' :: rest) = startsName s := by
  unfold startsName
  rw [afterBlanks?_append_quote]
  cases afterBlanks? s with
  | none => rfl
  | some behind =>
    cases behind with
    | nil => exact isWordChar_quote
    | cons c behind => rfl

theorem startsProperty_eq (s : List Char) :
    startsProperty s = (spanWord? (trimStart s)).any fun found =>
      startsName (behindBrackets found.2) := by
  unfold startsProperty
  cases spanWord? (trimStart s) with
  | none => rfl
  | some found => rfl

theorem startsProperty_append_quote (s rest : List Char) :
    startsProperty (s ++ '"' :: rest) = startsProperty s := by
  rw [startsProperty_eq, startsProperty_eq, trimStart_append_quote, spanWord?_append_quote,
    Option.any_map]
  simp only [behindBrackets_append_quote, startsName_append_quote]

theorem startsKey_append_quote (s rest : List Char) :
    startsKey (s ++ '"' :: rest) = startsKey s := by
  unfold startsKey
  rw [trimStart_append_quote, afterWord?_append_quote (by decide)]
  cases afterWord? "key".toList (trimStart s) with
  | none => rfl
  | some behind =>
    cases behind with
    | nil => simp [isWordChar_quote]
    | cons c behind => rfl

theorem hasKey_append_quote (s rest : List Char) :
    hasKey (s ++ '"' :: rest) = (hasKey s || hasKey rest) := by
  induction s with
  | nil => simp [hasKey]
  | cons c s ih =>
    rw [List.cons_append]
    by_cases hc : c = ','
    · rw [hc]
      simp only [hasKey]
      rw [startsKey_append_quote, ih, Bool.or_assoc]
    · simp [hasKey, ih]

/-! ## Brackets -/

/-- The text up to a closing square bracket, and the text behind it. -/
def upToBracket? (s : List Char) : Option (List Char × List Char) :=
  match s.dropWhile (· != ']') with
  | _ :: behind => some (s.takeWhile (· != ']'), behind)
  | [] => none

theorem bracketed?_cons (c : Char) (s : List Char) :
    bracketed? (c :: s) = if c = '[' then upToBracket? s else none := by
  by_cases hc : c = '['
  · rw [hc]
    rfl
  · simp [bracketed?, hc]

theorem upToBracket?_append_bracket {inside : List Char} (hinside : ']' ∉ inside)
    (behind : List Char) : upToBracket? (inside ++ ']' :: behind) = some (inside, behind) := by
  have hall : ∀ c ∈ inside, (c != ']') = true := by
    intro c hc
    rw [bne_iff_ne]
    exact ne_of_mem_of_not_mem hc hinside
  unfold upToBracket?
  rw [List.takeWhile_append_of_pos hall, List.dropWhile_append_of_pos hall]
  simp

theorem upToBracket?_eq_none {s : List Char} (hs : ']' ∉ s) : upToBracket? s = none := by
  have hnil : s.dropWhile (· != ']') = [] := by
    rw [List.dropWhile_eq_nil_iff]
    intro c hc
    rw [bne_iff_ne]
    exact ne_of_mem_of_not_mem hc hs
  unfold upToBracket?
  rw [hnil]

/-- What stands before the bracket that closes is not looked at. -/
theorem upToBracket?_append {s : List Char} (hs : ']' ∉ s) (rest : List Char) :
    upToBracket? (s ++ rest) = (upToBracket? rest).map fun found => (s ++ found.1, found.2) := by
  by_cases hrest : ']' ∈ rest
  · obtain ⟨inside, behind, rfl, hinside⟩ := List.eq_append_cons_of_mem hrest
    rw [upToBracket?_append_bracket hinside, ← List.append_assoc, upToBracket?_append_bracket]
    · rfl
    · simp [hs, hinside]
  · rw [upToBracket?_eq_none hrest, upToBracket?_eq_none]
    · rfl
    · simp [hs, hrest]

/-! ## Class declarations -/

/-- The name of a class and that of its base class, if a text goes on with a class behind its
qualifiers, and the text behind the names. -/
def header? (s : List Char) : Option (List Char × List Char × List Char) := do
  let rest ← afterWord? "class".toList (trimStart s)
  let rest ← afterBlanks? rest
  let (name, rest) ← spanWord? rest
  return match base? rest with
    | some (base, rest) => (name, base, rest)
    | none => (name, [], trimStart rest)

theorem classHere?_eq (s : List Char) :
    classHere? s = (bracketed? s).bind fun found => (header? found.2).map fun header =>
      ⟨found.1, header.1, header.2.1, header.2.2⟩ := by
  unfold classHere? header?
  cases bracketed? s with
  | none => rfl
  | some found =>
    dsimp only [Option.bind_eq_bind, Option.bind_some]
    cases afterWord? "class".toList (trimStart found.2) with
    | none => rfl
    | some behind =>
      dsimp only [Option.bind_some]
      cases afterBlanks? behind with
      | none => rfl
      | some behind =>
        dsimp only [Option.bind_some]
        cases spanWord? behind with
        | none => rfl
        | some found =>
          dsimp only [Option.bind_some]
          cases base? found.2 <;> rfl

theorem header?_append_quote (s rest : List Char) :
    header? (s ++ '"' :: rest) =
      (header? s).map fun header => (header.1, header.2.1, header.2.2 ++ '"' :: rest) := by
  unfold header?
  rw [trimStart_append_quote, afterWord?_append_quote (by decide)]
  cases afterWord? "class".toList (trimStart s) with
  | none => rfl
  | some behind =>
    dsimp only [Option.map_some, Option.bind_eq_bind, Option.bind_some]
    rw [afterBlanks?_append_quote]
    cases afterBlanks? behind with
    | none => rfl
    | some behind =>
      dsimp only [Option.map_some, Option.bind_some]
      rw [spanWord?_append_quote]
      cases spanWord? behind with
      | none => rfl
      | some found =>
        dsimp only [Option.map_some, Option.bind_some]
        rw [base?_append_quote, trimStart_append_quote]
        cases base? found.2 <;> rfl

/-! ## Qualifiers -/

/-- The text ends with a word, in any case, and an opening bracket, blanks apart. -/
def Opens (word s : List Char) : Prop :=
  ∃ opening behind blanks, opening <:+ s ∧ afterWord? word opening = some behind ∧
    afterMark? '(' behind = some blanks ∧ trimStart blanks = []

theorem Opens.of_suffix {word s t : List Char} (hopens : Opens word s) (hsuffix : s <:+ t) :
    Opens word t := by
  obtain ⟨opening, behind, blanks, hopening, hrest⟩ := hopens
  exact ⟨opening, behind, blanks, hopening.trans hsuffix, hrest⟩

variable {keyword : List Char} {allowed : Char → Bool}

/-- The text up to a closing quotation mark and a round bracket, if all of it is admitted. -/
def quotation? (allowed : Char → Bool) (s : List Char) : Option (List Char) :=
  match s.dropWhile allowed with
  | '"' :: rest => do
    let _ ← afterMark? ')' rest
    if (s.takeWhile allowed).isEmpty then none else return s.takeWhile allowed
  | _ => none

theorem quotation?_append_quote (hallowed : allowed '"' = false) (s : List Char) {rest : List Char}
    (hrest : afterMark? ')' rest = none) :
    quotation? allowed (s ++ '"' :: rest) = quotation? allowed s := by
  unfold quotation?
  rw [takeWhile_append_of_eq_false hallowed, dropWhile_append_of_eq_false hallowed]
  cases s.dropWhile allowed with
  | nil =>
    simp [hrest]
  | cons c behind =>
    by_cases hc : c = '"'
    · have hclose := afterMark?_append_quote (by decide : ')' ≠ '"') behind rest
      cases hmark : afterMark? ')' behind <;> simp [hc, hclose, hmark]
    · simp [hc]

theorem quoted?_eq (keyword s : List Char) (allowed : Char → Bool) :
    quoted? keyword allowed s = (afterWord? keyword s).bind fun rest =>
      (afterMark? '(' rest).bind fun rest => (afterMark? '"' rest).bind (quotation? allowed) := rfl

theorem quoted?_append_quote (hkeyword : '"' ∉ keyword) (hallowed : allowed '"' = false)
    {s rest : List Char} (hopens : ¬ Opens keyword s)
    (hrest : '"' ∈ s → afterMark? ')' rest = none) :
    quoted? keyword allowed (s ++ '"' :: rest) = quoted? keyword allowed s := by
  rw [quoted?_eq, quoted?_eq, afterWord?_append_quote hkeyword]
  cases hword : afterWord? keyword s with
  | none => rfl
  | some behind =>
    dsimp only [Option.map_some, Option.bind_some]
    rw [afterMark?_append_quote (by decide)]
    cases hmark : afterMark? '(' behind with
    | none => rfl
    | some blanks =>
      have hne : trimStart blanks ≠ [] := fun hnil =>
        hopens ⟨s, behind, blanks, List.suffix_refl s, hword, hmark, hnil⟩
      obtain ⟨c, inside, hinside⟩ := List.exists_cons_of_ne_nil hne
      dsimp only [Option.map_some, Option.bind_some]
      unfold afterMark?
      rw [trimStart_append_quote, hinside]
      dsimp only [List.cons_append]
      by_cases hc : c = '"'
      · have hmem : '"' ∈ s := by
          have hsuffix := (List.dropWhile_suffix isBlank).trans ((List.suffix_cons '(' blanks).trans
            (afterMark?_suffix (by decide) hmark))
          apply (hsuffix.trans (afterWord?_suffix hword)).mem
          show '"' ∈ trimStart blanks
          rw [hinside, hc]
          exact List.mem_cons_self
        rw [if_pos hc, if_pos hc]
        exact quotation?_append_quote hallowed inside (hrest hmem)
      · rw [if_neg hc, if_neg hc]

theorem hasQualifier_append_quote (hkeyword : '"' ∉ keyword) (hne : keyword ≠ [])
    (hallowed : allowed '"' = false) {s rest : List Char} (hopens : ¬ Opens keyword s)
    (hrest : '"' ∈ s → afterMark? ')' rest = none) (previous : Option Char) :
    hasQualifier keyword allowed previous (s ++ '"' :: rest) =
      (hasQualifier keyword allowed previous s || hasQualifier keyword allowed (some '"') rest) := by
  induction s generalizing previous with
  | nil =>
    have hnone : quoted? keyword allowed ('"' :: rest) = none := by
      rw [quoted?_eq, ← List.nil_append ('"' :: rest), afterWord?_append_quote hkeyword]
      obtain ⟨letter, word, hword⟩ := List.exists_cons_of_ne_nil hne
      rw [hword]
      rfl
    simp [hasQualifier, hnone]
  | cons c s ih =>
    have hsuffix := List.suffix_cons c s
    have hs := ih (fun hs => hopens (hs.of_suffix hsuffix)) (fun hs => hrest (hsuffix.mem hs))
      (some c)
    have hquoted := quoted?_append_quote hkeyword hallowed hopens hrest
    rw [List.cons_append] at hquoted ⊢
    simp only [hasQualifier]
    rw [hquoted, hs, Bool.or_assoc]

/-- What is quoted has a quotation mark before it. -/
theorem quoted?_eq_none {s : List Char} (hs : '"' ∉ s) : quoted? keyword allowed s = none := by
  rw [quoted?_eq, Option.bind_eq_none_iff]
  intro behind hbehind
  rw [Option.bind_eq_none_iff]
  intro blanks hblanks
  rw [Option.bind_eq_none_iff]
  intro inside hinside
  have hsuffix := (afterMark?_suffix isBlank_quote hinside).trans ((List.suffix_cons '(' blanks).trans
    ((afterMark?_suffix (by decide) hblanks).trans (afterWord?_suffix hbehind)))
  exact absurd (hsuffix.mem List.mem_cons_self) hs

theorem hasQualifier_eq_false {s : List Char} (hs : '"' ∉ s) (previous : Option Char) :
    hasQualifier keyword allowed previous s = false := by
  induction s generalizing previous with
  | nil => rfl
  | cons c s ih =>
    have hrest := ih (fun hmem => hs (List.mem_cons_of_mem c hmem)) (some c)
    simp [hasQualifier, quoted?_eq_none hs, hrest]

/-! ## Words before a bracket -/

/-- What stands before a bracket is read off from the end of the text. -/
theorem Opens.exists_afterWord? {word s : List Char} (hne : word ≠ [])
    (hword : ∀ letter ∈ word, letter.isLower = true) (hopens : Opens word s) :
    ∃ rest, afterWord? word.reverse (trimStart (trimStart s.reverse).tail) = some rest := by
  have hbracket : isBlank '(' = false := by decide
  obtain ⟨opening, behind, blanks, ⟨front, rfl⟩, hopening, hbehind, hblanks⟩ := hopens
  obtain ⟨spelled, hspelled, rfl⟩ := afterWord?_eq_some_iff.mp hopening
  obtain ⟨between, hbetween, rfl⟩ := (afterMark?_eq_some_iff hbracket).mp hbehind
  have hreverse : (front ++ (spelled ++ (between ++ '(' :: blanks))).reverse =
      blanks.reverse ++ '(' :: (between.reverse ++ (spelled.reverse ++ front.reverse)) := by
    simp
  have hread : afterWord? word.reverse (spelled.reverse ++ front.reverse) = some front.reverse :=
    afterWord?_eq_some_iff.mpr ⟨spelled.reverse, List.forall₂_reverse_iff.mpr hspelled, rfl⟩
  have hstart : trimStart (spelled.reverse ++ front.reverse) = spelled.reverse ++ front.reverse := by
    obtain ⟨letter, letters, hletters⟩ :=
      List.exists_cons_of_ne_nil (List.reverse_ne_nil_iff.mpr hne)
    have hspell := List.forall₂_reverse_iff.mpr hspelled
    rw [hletters, List.forall₂_cons_left_iff] at hspell
    obtain ⟨c, cs, hc, -, hcs⟩ := hspell
    have hlower := hword letter (List.mem_reverse.mp (hletters ▸ List.mem_cons_self))
    rw [hcs, List.cons_append]
    exact List.dropWhile_cons_of_neg (by simp [isBlank_of_sameInAnyCase hlower hc])
  have hblank : ∀ {s : List Char}, trimStart s = [] → ∀ rest,
      trimStart (s.reverse ++ rest) = trimStart rest := by
    intro s hs rest
    apply List.dropWhile_append_of_pos
    intro c hc
    exact List.dropWhile_eq_nil_iff.mp hs c (List.mem_reverse.mp hc)
  have hmark : ∀ rest, trimStart ('(' :: rest) = '(' :: rest :=
    fun rest => List.dropWhile_cons_of_neg (by simp [hbracket])
  use front.reverse
  rw [hreverse, hblank hblanks, hmark, List.tail_cons, hblank hbetween, hstart]
  exact hread

/-- Different words do not stand before the same bracket. -/
theorem Opens.not_opens {same behind other : List Char} {first second : Char}
    (hfirst : ∀ letter ∈ behind ++ first :: same, letter.isLower = true)
    (hsecond : ∀ letter ∈ other ++ second :: same, letter.isLower = true)
    (hdiffer : ∀ c, sameInAnyCase first c = true → sameInAnyCase second c = false) {s : List Char}
    (hopens : Opens (behind ++ first :: same) s) : ¬ Opens (other ++ second :: same) s := by
  intro hother
  obtain ⟨rest, hrest⟩ := hopens.exists_afterWord? (by simp) hfirst
  obtain ⟨last, hlast⟩ := hother.exists_afterWord? (by simp) hsecond
  rw [List.reverse_append, List.reverse_cons, List.append_assoc, List.singleton_append] at hrest hlast
  rw [afterWord?_eq_none_of_differ hdiffer same.reverse behind.reverse other.reverse hrest] at hlast
  cases hlast

end Resource.Schema

end DscAudit

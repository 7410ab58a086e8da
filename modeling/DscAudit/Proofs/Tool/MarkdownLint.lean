import DscAudit.Proofs.Host.Attempt
import DscAudit.Proofs.Text.LowerCase
import DscAudit.Proofs.Tool.MarkdownIssue
import DscAudit.Tool.MarkdownLint

/-!
# The two streams of the lint task

The issues are read from what the task wrote to both streams, one directly behind the other.  So the last
line of the output, if no line end follows it, and the first line of the errors become one line.  All other
lines are read as they were printed, and so is this one if one of its two parts is blank.  An issue in the
first part takes the second part into its message, and an issue in the second part is lost.
-/

namespace DscAudit.Tool

open DscAudit.Text (isBlank isLineBreak firstLine lastLine afterBlanks? afterWord? sameInAnyCase trimStart)

namespace MarkdownIssue

/-! ## Readers of a line

The parts of an issue are read one after the other, and each reader looks no further than at the character
behind its own part. -/

/-- The reader takes a word without a point, whatever stands behind the next character. -/
def Cuts {α : Type} (read : List Char → Option (α × List Char)) : Prop :=
  ∀ {s value rest}, read s = some (value, rest) → rest ≠ [] →
    ∃ word, s = word ++ rest ∧ '.' ∉ word ∧
      ∀ other : List Char, other.head? = rest.head? → read (word ++ other) = some (value, other)

theorem head?_append_eq (word : List Char) {other rest : List Char} (hother : other.head? = rest.head?) :
    (word ++ other).head? = (word ++ rest).head? := by
  rw [List.head?_append, List.head?_append, hother]

/-- A run of characters without the point is such a word. -/
theorem run_cuts {p : Char → Bool} (hp : p '.' = false) {s rest : List Char} (hs : s.dropWhile p = rest) :
    s = s.takeWhile p ++ rest ∧ '.' ∉ s.takeWhile p ∧
      ∀ other : List Char, other.head? = rest.head? →
        (s.takeWhile p ++ other).takeWhile p = s.takeWhile p ∧
          (s.takeWhile p ++ other).dropWhile p = other := by
  subst hs
  refine ⟨List.takeWhile_append_dropWhile.symm, fun hmem => ?_, fun other hother => ?_⟩
  · rw [List.mem_takeWhile_imp hmem] at hp
    cases hp
  · refine Text.takeWhile_append_of_head? (fun c hc => List.mem_takeWhile_imp hc) fun c hc => ?_
    have hstop := List.head?_dropWhile_not p s
    rw [← hother, hc] at hstop
    exact hstop

theorem cuts_digits? : Cuts digits? := by
  intro s digits rest hread hne
  rw [digits?] at hread
  split at hread
  · cases hread
  · rename_i hempty
    cases hread
    obtain ⟨hs, hpoint, hagain⟩ := run_cuts (p := Text.isDigit) (by decide) rfl
    refine ⟨_, hs, hpoint, fun other hother => ?_⟩
    obtain ⟨htake, hdrop⟩ := hagain other hother
    rw [digits?, htake, hdrop, if_neg hempty]

theorem exists_of_afterBlanks? {s rest : List Char} (hread : afterBlanks? s = some rest) :
    ∃ c blanks, s = c :: blanks ++ rest ∧ '.' ∉ c :: blanks ∧ isBlank c = true ∧
      ∀ other : List Char, other.head? = rest.head? →
        afterBlanks? (c :: blanks ++ other) = some other := by
  cases s with
  | nil => cases hread
  | cons c s =>
    rw [afterBlanks?] at hread
    split at hread
    · rename_i hc
      cases hread
      obtain ⟨hs, hpoint, hagain⟩ := run_cuts (p := isBlank) (by decide) rfl
      refine ⟨c, s.takeWhile isBlank, congrArg (c :: ·) hs, ?_, hc, fun other hother => ?_⟩
      · refine List.not_mem_cons_of_ne_of_not_mem ?_ hpoint
        rintro rfl
        cases hc
      · rw [List.cons_append, afterBlanks?, if_pos hc, trimStart, (hagain other hother).2]
    · cases hread

/-- The number of the line, behind a colon and blanks. -/
def lineNumber? : List Char → Option (List Char × List Char)
  | ':' :: rest => digits? (trimStart rest)
  | _ => none

/-- The column and the blanks behind it. -/
def column? (s : List Char) : Option (Nat × List Char) :=
  (afterBlanks? (withoutColon (columnOf s).2)).map fun rest => ((columnOf s).1, rest)

/-- The further name of the rule and the blanks behind it. -/
def otherName? (s : List Char) : Option (List Char × List Char) :=
  (afterBlanks? (otherNameOf s).2).map fun rest => ((otherNameOf s).1, rest)

theorem cuts_lineNumber? : Cuts lineNumber? := by
  intro s digits rest hread hne
  unfold lineNumber? at hread
  split at hread
  · rename_i s
    obtain ⟨word, hs, hpoint, hagain⟩ := cuts_digits? hread hne
    obtain ⟨hsplit, hblank, hskip⟩ := run_cuts (p := isBlank) (by decide) (hs : s.dropWhile isBlank = _)
    refine ⟨':' :: s.takeWhile isBlank ++ word, ?_, ?_, fun other hother => ?_⟩
    · rw [List.cons_append, List.cons_append, List.append_assoc, ← hsplit]
    · exact List.not_mem_append (List.not_mem_cons_of_ne_of_not_mem (by decide) hblank) hpoint
    · have hhead := head?_append_eq word hother
      have hstart := (hskip _ hhead).2
      rw [List.append_assoc, List.cons_append, lineNumber?, trimStart, hstart]
      exact hagain other hother
  · cases hread

theorem cuts_rule? : Cuts rule? := by
  intro s rule rest hread _
  unfold rule? at hread
  split at hread
  · rename_i a b c behind hword
    obtain ⟨spelled, hspelled, rfl⟩ := Text.afterWord?_eq_some_iff.mp hword
    split at hread
    · rename_i hdigits
      cases hread
      have hpoint : ∀ d ∈ [a, b, c], d ≠ '.' := by
        rintro d hd rfl
        exact absurd (List.all_eq_true.mp hdigits '.' hd) (by decide)
      have hnot : '.' ∉ spelled := fun hmem => by
        have hlower := List.mem_map_of_mem (f := Char.toLower) hmem
        rw [map_toLower_of_spelled (by simp) hspelled] at hlower
        exact absurd hlower (by simp)
      refine ⟨spelled ++ [a, b, c], by simp, ?_, fun other _ => ?_⟩
      · exact List.not_mem_append hnot fun hmem => hpoint _ hmem rfl
      · have hagain : afterWord? "md".toList (spelled ++ a :: b :: c :: other) =
            some (a :: b :: c :: other) :=
          Text.afterWord?_eq_some_iff.mpr ⟨spelled, hspelled, rfl⟩
        rw [List.append_assoc, rule?]
        simp only [List.cons_append, List.nil_append, hagain, hdigits, if_true]
    · cases hread
  · cases hread

theorem cuts_otherName? : Cuts otherName? := by
  intro s name rest hread _
  obtain ⟨_, hblanks, heq⟩ := Option.map_eq_some_iff.mp hread
  cases heq
  rcases s with - | ⟨c, s⟩
  · cases hblanks
  by_cases hslash : c = '/'
  · subst hslash
    by_cases hempty : (s.takeWhile isAliasPart).isEmpty = true
    · -- the slash itself is not blank
      rw [otherNameOf, if_pos hempty] at hblanks
      cases hblanks
    · obtain ⟨hs, hpoint, hagain⟩ :=
        run_cuts (p := isAliasPart) (by decide) (rfl : s.dropWhile isAliasPart = _)
      rw [otherNameOf, if_neg hempty] at hblanks ⊢
      change afterBlanks? (s.dropWhile isAliasPart) = some rest at hblanks
      obtain ⟨d, blanks, hsplit, hnot, -, hskip⟩ := exists_of_afterBlanks? hblanks
      refine ⟨'/' :: s.takeWhile isAliasPart ++ d :: blanks, ?_, ?_, fun other hother => ?_⟩
      · rw [List.append_assoc, ← hsplit, List.cons_append, ← hs]
      · exact List.not_mem_append (List.not_mem_cons_of_ne_of_not_mem (by decide) hpoint) hnot
      · obtain ⟨htake, hdrop⟩ := hagain (d :: blanks ++ other) (by rw [hsplit]; rfl)
        rw [otherName?, List.append_assoc, List.cons_append, otherNameOf, htake, hdrop, if_neg hempty,
          hskip other hother]
        rfl
  · have hnone (s : List Char) : otherNameOf (c :: s) = ([], c :: s) := by
      unfold otherNameOf
      split
      · rename_i heq
        exact absurd (List.cons.inj heq).1 hslash
      · rfl
    rw [hnone] at hblanks ⊢
    obtain ⟨d, blanks, hsplit, hnot, -, hskip⟩ := exists_of_afterBlanks? hblanks
    cases hsplit
    refine ⟨c :: blanks, rfl, hnot, fun other hother => ?_⟩
    rw [otherName?, List.cons_append, hnone]
    exact congrArg (Option.map _) (hskip other hother)

theorem digits?_cons_of_not_isDigit {c : Char} (hc : Text.isDigit c = false) (s : List Char) :
    digits? (c :: s) = none := by
  rw [digits?, List.takeWhile_cons_of_neg (by simp [hc])]
  rfl

theorem columnOf_cons_of_ne {c : Char} (hc : c ≠ ':') (s : List Char) :
    columnOf (c :: s) = (0, c :: s) := by
  unfold columnOf
  split
  · rename_i heq
    exact absurd (List.cons.inj heq).1 hc
  · rfl

theorem withoutColon_cons_of_ne {c : Char} (hc : c ≠ ':') (s : List Char) :
    withoutColon (c :: s) = c :: s := by
  unfold withoutColon
  split
  · rename_i heq
    exact absurd (List.cons.inj heq).1 hc
  · rfl

/-- Behind the numbers there may be a colon in front of the blanks. -/
theorem exists_of_withoutColon {s rest : List Char} (hread : afterBlanks? (withoutColon s) = some rest) :
    ∃ c word, s = c :: word ++ rest ∧ '.' ∉ c :: word ∧
      ∀ other : List Char, other.head? = rest.head? →
        afterBlanks? (withoutColon (c :: word ++ other)) = some other := by
  rcases s with - | ⟨c, s⟩
  · cases hread
  by_cases hcolon : c = ':'
  · subst hcolon
    obtain ⟨d, blanks, hsplit, hnot, -, hskip⟩ := exists_of_afterBlanks? hread
    exact ⟨':', d :: blanks, congrArg _ hsplit, List.not_mem_cons_of_ne_of_not_mem (by decide) hnot, hskip⟩
  · rw [withoutColon_cons_of_ne hcolon] at hread
    obtain ⟨d, blanks, hsplit, hnot, -, hskip⟩ := exists_of_afterBlanks? hread
    cases hsplit
    refine ⟨c, blanks, rfl, hnot, fun other hother => ?_⟩
    rw [List.cons_append, withoutColon_cons_of_ne hcolon]
    exact hskip other hother

theorem cuts_column? : Cuts column? := by
  intro s column rest hread hne
  obtain ⟨_, hblanks, heq⟩ := Option.map_eq_some_iff.mp hread
  cases heq
  rcases s with - | ⟨c, s⟩
  · cases hblanks
  by_cases hcolon : c = ':'
  · subst hcolon
    cases hdigits : digits? s with
    | some found =>
      obtain ⟨digits, behind⟩ := found
      have hcolumn {s : List Char} {behind : List Char} (hs : digits? s = some (digits, behind)) :
          columnOf (':' :: s) = (Text.digitsValue digits, behind) := by
        rw [columnOf, hs]
      rw [hcolumn hdigits] at hblanks ⊢
      obtain ⟨d, word, rfl, hnot, hskip⟩ := exists_of_withoutColon hblanks
      obtain ⟨taken, rfl, hpoint, hagain⟩ := cuts_digits? hdigits (List.cons_ne_nil _ _)
      refine ⟨':' :: taken ++ d :: word, by simp, ?_, fun other hother => ?_⟩
      · exact List.not_mem_append (List.not_mem_cons_of_ne_of_not_mem (by decide) hpoint) hnot
      · rw [column?, List.append_assoc, List.cons_append, hcolumn (hagain (d :: word ++ other) rfl),
          hskip other hother]
        rfl
    | none =>
      have hcolumn {s : List Char} (hs : digits? s = none) : columnOf (':' :: s) = (0, ':' :: s) := by
        rw [columnOf, hs]
      rw [hcolumn hdigits] at hblanks ⊢
      obtain ⟨d, blanks, rfl, hnot, hd, hskip⟩ := exists_of_afterBlanks? hblanks
      have hdigit : Text.isDigit d = false := by
        by_contra hcontra
        rw [Text.isBlank_of_isDigit (Bool.of_not_eq_false hcontra)] at hd
        cases hd
      refine ⟨':' :: d :: blanks, rfl, ?_, fun other hother => ?_⟩
      · exact List.not_mem_cons_of_ne_of_not_mem (by decide) hnot
      · have hnumber : digits? (d :: blanks ++ other) = none := digits?_cons_of_not_isDigit hdigit _
        rw [column?, List.cons_append, hcolumn hnumber]
        exact congrArg (Option.map _) (hskip other hother)
  · rw [columnOf_cons_of_ne hcolon] at hblanks ⊢
    rw [withoutColon_cons_of_ne hcolon] at hblanks
    obtain ⟨d, blanks, hsplit, hnot, -, hskip⟩ := exists_of_afterBlanks? hblanks
    cases hsplit
    refine ⟨c :: blanks, rfl, hnot, fun other hother => ?_⟩
    rw [column?, List.cons_append, columnOf_cons_of_ne hcolon, withoutColon_cons_of_ne hcolon]
    exact congrArg (Option.map _) (hskip other hother)

/-! ## The message takes what stands behind it -/

theorem behindPath?_eq_some_iff {path s : List Char} {issue : MarkdownIssue} :
    behindPath? path s = some issue ↔
      ∃ line column rule otherName afterLine afterColumn afterRule message,
      lineNumber? s = some (line, afterLine) ∧ column? afterLine = some (column, afterColumn) ∧
      rule? afterColumn = some (rule, afterRule) ∧ otherName? afterRule = some (otherName, message) ∧
      message ≠ [] ∧ issue = ⟨String.ofList path, Text.digitsValue line, column, String.ofList rule,
        String.ofList otherName, String.ofList (Text.trim message)⟩ := by
  unfold behindPath? lineNumber?
  split
  · simp only [Option.bind_eq_bind, Option.bind_eq_some_iff, column?, otherName?, Option.map_eq_some_iff,
      Prod.mk.injEq, Prod.exists]
    constructor
    · rintro ⟨line, afterLine, hline, afterColumn, hcolumn, rule, afterRule, hrule, message, hmessage,
        hissue⟩
      split at hissue
      · cases hissue
      · rename_i hempty
        exact ⟨line, _, rule, _, afterLine, afterColumn, afterRule, message, hline,
          ⟨_, hcolumn, rfl, rfl⟩, hrule, ⟨_, hmessage, rfl, rfl⟩, by simpa using hempty,
          (Option.some.inj hissue).symm⟩
    · rintro ⟨line, _, rule, _, afterLine, _, afterRule, _, hline,
        ⟨afterColumn, hcolumn, rfl, rfl⟩, hrule, ⟨message, hmessage, rfl, rfl⟩, hne, rfl⟩
      refine ⟨line, afterLine, hline, afterColumn, hcolumn, rule, afterRule, hrule, message, hmessage, ?_⟩
      rw [if_neg (by simpa using hne)]
      rfl
  · simp

/-- An issue behind a path has no point up to its message, and the message is what is left. -/
theorem exists_front {path s : List Char} {issue : MarkdownIssue}
    (hread : behindPath? path s = some issue) :
    ∃ front text, s = front ++ text ∧ '.' ∉ front ∧ text ≠ [] ∧
      issue.message = String.ofList (Text.trim text) ∧
      ∀ other : List Char, other.head? = text.head? →
        behindPath? path (front ++ other) =
          some { issue with message := String.ofList (Text.trim other) } := by
  obtain ⟨line, column, rule, otherName, afterLine, afterColumn, afterRule, text, hline, hcolumn, hrule,
    hname, hne, rfl⟩ := behindPath?_eq_some_iff.mp hread
  -- the words from the last one to the first one
  obtain ⟨named, rfl, hnamed, hnameAgain⟩ := cuts_otherName? hname hne
  have hne₁ := List.append_ne_nil_of_right_ne_nil named hne
  obtain ⟨ruled, rfl, hruled, hruleAgain⟩ := cuts_rule? hrule hne₁
  have hne₂ := List.append_ne_nil_of_right_ne_nil ruled hne₁
  obtain ⟨columned, rfl, hcolumned, hcolumnAgain⟩ := cuts_column? hcolumn hne₂
  have hne₃ := List.append_ne_nil_of_right_ne_nil columned hne₂
  obtain ⟨lined, rfl, hlined, hlineAgain⟩ := cuts_lineNumber? hline hne₃
  refine ⟨lined ++ columned ++ ruled ++ named, text, by simp, ?_, hne, rfl, fun other hother => ?_⟩
  · exact List.not_mem_append (List.not_mem_append (List.not_mem_append hlined hcolumned) hruled) hnamed
  · have hother₁ := head?_append_eq named hother
    have hother₂ := head?_append_eq ruled hother₁
    have hother₃ := head?_append_eq columned hother₂
    have hfull : other ≠ [] := by
      rintro rfl
      exact hne (List.head?_eq_none_iff.mp hother.symm)
    rw [List.append_assoc, List.append_assoc, List.append_assoc]
    exact behindPath?_eq_some_iff.mpr ⟨line, column, rule, otherName, _, _, _, other,
      hlineAgain _ hother₃, hcolumnAgain _ hother₂, hruleAgain _ hother₁, hnameAgain _ hother, hfull, rfl⟩

/-- A path may end with three characters that spell its suffix, and nowhere else. -/
theorem ofLineFrom?_mark (begun behind : List Char) (a b c : Char) :
    ofLineFrom? begun (a :: b :: c :: behind) =
      (if begun ≠ [] ∧ sameInAnyCase '.' a ∧ sameInAnyCase 'm' b ∧ sameInAnyCase 'd' c then
        behindPath? (begun.reverse ++ [a, b, c]) behind
      else none).or (ofLineFrom? (a :: begun) (b :: c :: behind)) := by
  have hword : afterWord? ".md".toList (a :: b :: c :: behind) =
      if sameInAnyCase '.' a ∧ sameInAnyCase 'm' b ∧ sameInAnyCase 'd' c then some behind
      else none := by
    show afterWord? ['.', 'm', 'd'] _ = _
    simp only [afterWord?, ite_and]
  rw [ofLineFrom?, hword]
  refine congrArg (Option.or · _) ?_
  cases begun with
  | nil => simp
  | cons d begun =>
    split
    · rename_i hempty
      cases hempty
    · by_cases hsame : sameInAnyCase '.' a ∧ sameInAnyCase 'm' b ∧ sameInAnyCase 'd' c
      · rw [if_pos hsame, if_pos ⟨List.cons_ne_nil d begun, hsame⟩]
        rfl
      · rw [if_neg hsame, if_neg fun h => hsame h.2]

theorem eq_point_of_toLower {c : Char} (hc : c.toLower = '.') : c = '.' := by
  have hascii : ∀ n < 128, (Char.ofNat n).toLower = '.' → Char.ofNat n = '.' := by decide
  have hlt := Text.ascii_of_toLower (by rw [hc]; decide : c.toLower.toNat < 128)
  have hc' := hascii c.toNat hlt
  rw [Char.ofNat_toNat] at hc'
  exact hc' hc

/-- What stands behind the suffix of a path holds a point if an issue is found there. -/
theorem point_mem {begun behind : List Char} {b c : Char} {issue : MarkdownIssue}
    (hb : sameInAnyCase 'm' b = true) (hc : sameInAnyCase 'd' c = true)
    (hfound : ofLineFrom? begun (b :: c :: behind) = some issue) : '.' ∈ behind := by
  have hpoint : '.' ∈ (b :: c :: behind).map Char.toLower :=
    (hasMark_of_ofLineFrom? hfound).subset (by simp)
  rw [List.map_cons, List.map_cons, toLower_of_sameInAnyCase (by simp) hb,
    toLower_of_sameInAnyCase (by simp) hc] at hpoint
  have hbehind : '.' ∈ behind.map Char.toLower := by simpa using hpoint
  obtain ⟨d, hd, hlower⟩ := List.mem_map.mp hbehind
  rwa [← eq_point_of_toLower hlower]

/-- No issue with a point in what is left of it begins behind a path because of the text behind it. -/
theorem behindPath?_append_eq_none {path s : List Char} (hpoint : '.' ∈ s)
    (hnone : behindPath? path s = none) (t : List Char) : behindPath? path (s ++ t) = none := by
  by_contra hsome
  obtain ⟨issue, hissue⟩ := Option.ne_none_iff_exists'.mp hsome
  obtain ⟨front, text, hsplit, hfront, -, -, hagain⟩ := exists_front hissue
  rcases List.append_eq_append_iff.mp hsplit with ⟨more, rfl, -⟩ | ⟨more, rfl, rfl⟩
  · exact hfront (List.mem_append_left _ hpoint)
  · have hmore : more ≠ [] := by
      rintro rfl
      exact hfront (by simpa using hpoint)
    rw [hagain more (List.head?_append_of_ne_nil _ hmore).symm] at hnone
    cases hnone

/-- Where an issue is found, more text becomes part of its message. -/
theorem ofLineFrom?_append_right {begun s : List Char} {issue : MarkdownIssue}
    (hfound : ofLineFrom? begun s = some issue) (t : List Char) :
    ∃ text, issue.message = String.ofList (Text.trim text) ∧
      ofLineFrom? begun (s ++ t) =
        some { issue with message := String.ofList (Text.trim (text ++ t)) } := by
  induction s generalizing begun with
  | nil => cases hfound
  | cons a s ih =>
    obtain ⟨b, c, behind, rfl⟩ : ∃ b c behind, s = b :: c :: behind := by
      have hlength := (hasMark_of_ofLineFrom? hfound).length_le
      rw [List.length_map] at hlength
      match s, hlength with
      | b :: c :: behind, _ => exact ⟨b, c, behind, rfl⟩
    rw [ofLineFrom?_mark] at hfound
    rw [List.cons_append, List.cons_append, List.cons_append, ofLineFrom?_mark]
    by_cases hmark : begun ≠ [] ∧ sameInAnyCase '.' a ∧ sameInAnyCase 'm' b ∧
        sameInAnyCase 'd' c
    · rw [if_pos hmark] at hfound ⊢
      cases hhere : behindPath? (begun.reverse ++ [a, b, c]) behind with
      | some found =>
        rw [hhere, Option.some_or] at hfound
        cases hfound
        obtain ⟨front, text, rfl, -, hne, hmessage, hagain⟩ := exists_front hhere
        refine ⟨text, hmessage, ?_⟩
        rw [List.append_assoc, hagain (text ++ t) (List.head?_append_of_ne_nil _ hne), Option.some_or]
      | none =>
        rw [hhere, Option.none_or] at hfound
        obtain ⟨text, hmessage, hlater⟩ := ih hfound
        have hpoint := point_mem hmark.2.2.1 hmark.2.2.2 hfound
        rw [behindPath?_append_eq_none hpoint hhere, Option.none_or]
        exact ⟨text, hmessage, hlater⟩
    · rw [if_neg hmark, Option.none_or] at hfound ⊢
      exact ih hfound

/-- So a line that is an issue never stays the same issue with more text behind it. -/
theorem exists_ofLine?_append {s t : List Char} {issue : MarkdownIssue} (hfound : ofLine? s = some issue)
    (ht : ∃ c ∈ t, isBlank c = false) :
    ∃ longer, ofLine? (s ++ t) = some longer ∧ longer.message ≠ issue.message := by
  obtain ⟨tail, htrim, c, hc, hblank⟩ := Text.exists_trim_append s ht
  obtain ⟨text, hmessage, hlonger⟩ := ofLineFrom?_append_right hfound tail
  refine ⟨_, by rw [ofLine?, htrim, hlonger], fun hsame => ?_⟩
  rw [hmessage, String.ofList_inj] at hsame
  have hfilter := congrArg (List.filter fun c => !isBlank c) hsame
  rw [Text.filter_trim, Text.filter_trim, List.filter_append, List.append_right_eq_self,
    List.filter_eq_nil_iff] at hfilter
  exact hfilter c hc (by simp [hblank])

/-! ## Where two texts meet -/

theorem ofLine?_trim (line : List Char) : ofLine? (Text.trim line) = ofLine? line := by
  rw [ofLine?, Text.trim_trim, ofLine?]

variable (root directory : Path)

theorem readAll_trim (s : List Char) :
    readAll root directory (Text.trim s) = readAll root directory s := by
  rw [readAll_eq, readAll_eq, Text.onLines_trim rfl ofLine?_trim]

theorem length_readAll_le {s : List Char} (hs : ∀ c ∈ s, isLineBreak c = false) :
    (readAll root directory s).length ≤ 1 := by
  rw [readAll_eq, Text.onLines_of_unbroken rfl hs, List.length_map]
  exact Option.length_toList_le

/-- What is read from a text behind another one: only the line where they meet can be another one. -/
theorem exists_readAll_append (output errors : List Char) :
    ∃ before behind,
      readAll root directory output = before ++ readAll root directory (lastLine output) ∧
      readAll root directory errors = readAll root directory (firstLine errors) ++ behind ∧
      readAll root directory (output ++ errors) =
        before ++ readAll root directory (lastLine output ++ firstLine errors) ++ behind := by
  have hempty : ofLine? [] = none := rfl
  have houtput := Text.onLines_append_lastLine hempty output []
  have herrors := Text.onLines_append_firstLine hempty [] errors
  have hboth := Text.onLines_append_lastLine hempty output errors
  rw [List.append_nil, List.append_nil] at houtput
  rw [List.nil_append, List.nil_append] at herrors
  rw [Text.onLines_append_firstLine hempty (lastLine output) errors] at hboth
  refine ⟨readAll root directory (output.reverse.dropWhile fun c => !isLineBreak c).reverse,
    readAll root directory (errors.dropWhile fun c => !isLineBreak c), ?_, ?_, ?_⟩
  · simp only [readAll_eq]
    rw [houtput, List.map_append]
  · simp only [readAll_eq]
    rw [herrors, List.map_append]
  · simp only [readAll_eq]
    rw [hboth, List.map_append, List.map_append, List.append_assoc]

theorem readAll_blanks_append {blanks : List Char} (hblanks : ∀ c ∈ blanks, isBlank c = true)
    (s : List Char) : readAll root directory (blanks ++ s) = readAll root directory s := by
  rw [readAll_eq, readAll_eq, Text.onLines_blanks_append rfl ofLine?_trim hblanks]

theorem readAll_append_blanks {blanks : List Char} (hblanks : ∀ c ∈ blanks, isBlank c = true)
    (s : List Char) : readAll root directory (s ++ blanks) = readAll root directory s := by
  rw [readAll_eq, readAll_eq, Text.onLines_append_blanks rfl ofLine?_trim hblanks]

theorem readAll_of_blanks {blanks : List Char} (hblanks : ∀ c ∈ blanks, isBlank c = true) :
    readAll root directory blanks = [] :=
  readAll_append_blanks root directory hblanks []

theorem message_shownFor (issue : MarkdownIssue) :
    (shownFor root directory issue).message = issue.message := by
  rw [shownFor]

/-- What is read of a line is not what is read of two parts of it if the first part is an issue. -/
theorem readAll_append_ne {s t : List Char} (hs : ∀ c ∈ s, isLineBreak c = false)
    (ht : ∀ c ∈ t, isLineBreak c = false) (hissue : readAll root directory s ≠ [])
    (hblank : ∃ c ∈ t, isBlank c = false) :
    readAll root directory (s ++ t) ≠ readAll root directory s ++ readAll root directory t := by
  intro hsame
  have hboth := List.forall_mem_append.mpr ⟨hs, ht⟩
  -- an issue on each part would be two issues on one line
  have hnone : readAll root directory t = [] := by
    have hpos := List.length_pos_of_ne_nil hissue
    have hone := length_readAll_le root directory hboth
    have hlength := congrArg List.length hsame
    rw [List.length_append] at hlength
    exact List.eq_nil_of_length_eq_zero (by omega)
  have hline (line : List Char) (hline : ∀ c ∈ line, isLineBreak c = false) :
      readAll root directory line = ((ofLine? line).map (shownFor root directory)).toList := by
    rw [readAll_eq, Text.onLines_of_unbroken rfl hline, Option.toList_map]
  rw [hnone, List.append_nil, hline s hs, hline (s ++ t) hboth] at hsame
  rw [hline s hs] at hissue
  cases hfound : ofLine? s with
  | none => exact absurd (by rw [hfound]; rfl) hissue
  | some issue =>
    obtain ⟨longer, hlonger, hmessage⟩ := exists_ofLine?_append hfound hblank
    rw [hfound, hlonger, Option.map_some, Option.map_some, Option.toList_some, Option.toList_some] at hsame
    have hshown : shownFor root directory longer = shownFor root directory issue :=
      (List.cons.inj hsame).1
    rw [← message_shownFor root directory longer, hshown, message_shownFor] at hmessage
    exact hmessage rfl

end MarkdownIssue

/-- What issues tell of those that were printed on two streams. -/
structure TellsStreams (read : List Char → List MarkdownIssue) (output errors : List Char)
    (issues : List MarkdownIssue) : Prop where
  /-- Only the line where the streams meet can be another one. -/
  seam : ∃ before behind, read output = before ++ read (lastLine output) ∧
    read errors = read (firstLine errors) ++ behind ∧
    issues = before ++ read (lastLine output ++ firstLine errors) ++ behind
  tellsAll_iff : issues = read output ++ read errors ↔
    read (lastLine output ++ firstLine errors) = read (lastLine output) ++ read (firstLine errors)
  tellsAll :
    (∀ c ∈ lastLine output, isBlank c = true) ∨ (∀ c ∈ firstLine errors, isBlank c = true) →
      issues = read output ++ read errors
  /-- An issue at the end of the output needs nothing but blanks behind it. -/
  blank_of_tellsAll : issues = read output ++ read errors → read (lastLine output) ≠ [] →
    ∀ c ∈ firstLine errors, isBlank c = true
  losesOne : read (lastLine output) ≠ [] → read (firstLine errors) ≠ [] →
    issues.length < (read output ++ read errors).length

/-- The issues in the output of a command on both streams. -/
theorem MarkdownIssue.tellsStreams_combined (root directory : Path) (result : CommandResult) :
    TellsStreams (readAll root directory) result.output.toList result.errors.toList
      (readAll root directory result.combined.toList) := by
  have hcombined : readAll root directory result.combined.toList =
      readAll root directory (result.output.toList ++ result.errors.toList) := by
    rw [CommandResult.combined, String.toList_ofList, String.toList_append, readAll_trim]
  obtain ⟨before, behind, houtput, herrors, hboth⟩ :=
    exists_readAll_append root directory result.output.toList result.errors.toList
  rw [← hcombined] at hboth
  have hlast := Text.unbroken_lastLine result.output.toList
  have hfirst := Text.unbroken_firstLine result.errors.toList
  have hone := length_readAll_le root directory (List.forall_mem_append.mpr ⟨hlast, hfirst⟩)
  have htells : readAll root directory result.combined.toList =
      readAll root directory result.output.toList ++ readAll root directory result.errors.toList ↔
      readAll root directory (lastLine result.output.toList ++ firstLine result.errors.toList) =
        readAll root directory (lastLine result.output.toList) ++
          readAll root directory (firstLine result.errors.toList) := by
    rw [hboth, houtput, herrors]
    simp only [List.append_assoc, List.append_right_inj]
    rw [← List.append_assoc, List.append_left_inj]
  exact
    { seam := ⟨before, behind, houtput, herrors, hboth⟩
      tellsAll_iff := htells
      tellsAll := by
        rintro (hblanks | hblanks)
        · rw [htells, readAll_blanks_append root directory hblanks, readAll_of_blanks root directory hblanks,
            List.nil_append]
        · rw [htells, readAll_append_blanks root directory hblanks, readAll_of_blanks root directory hblanks,
            List.append_nil]
      blank_of_tellsAll := by
        intro hall hissue
        by_contra hnot
        push Not at hnot
        obtain ⟨c, hc, hblank⟩ := hnot
        exact readAll_append_ne root directory hlast hfirst hissue ⟨c, hc, Bool.of_not_eq_true hblank⟩
          (htells.mp hall)
      losesOne := by
        intro hissue hother
        have hpos := List.length_pos_of_ne_nil hissue
        have hpos' := List.length_pos_of_ne_nil hother
        rw [hboth, houtput, herrors]
        simp only [List.length_append]
        omega }

/-! ## The run -/

namespace MarkdownLint

open DscAudit.Action

/-- The task itself. -/
def Session.task (session : Session) : Command :=
  session.command
    ["exec", "--", "gulp", "test-mdsyntax", "--silent", "--rootpath", session.root.toString,
     "--dscresourcespath", session.directory.toString]

/-- How it fails if its time runs out. -/
def Session.tooSlow (session : Session) : Failure :=
  .complaint ⟨"markdown lint timed out after " ++ session.timeout.text ++ "s", .timeout,
    "markdown_timeout"⟩

variable {session : Session} {host prepared ready : Host}

/-- Once the packages are there the task is started, and only its time can run out. -/
theorem exec_run (hprepare : (prepare session.directory session.root).exec host = (.ok (), prepared))
    (hinstall : (install session).exec prepared = (.ok (), ready)) :
    ∃ result after, result = session.task.resultOf (ready.results.headD (.missing none)) ∧
      ready.Starts [session.task.call] after ∧
      (run session).exec host =
        (if result.code = timeoutCode then .error session.tooSlow
          else .ok (result, MarkdownIssue.readAll session.root ready.directory result.combined.toList),
        after) := by
  obtain ⟨after, hcommand, hstarts⟩ := session.task.exec_runOnce session.log ready
  have hdirectory : after.directory = ready.directory := by
    obtain ⟨logs, rfl⟩ := hstarts
    rfl
  refine ⟨_, after, rfl, hstarts, ?_⟩
  generalize session.task.resultOf (ready.results.headD (.missing none)) = result at hcommand ⊢
  rw [run, exec_bind_ok hprepare, exec_bind_ok hinstall]
  refine (exec_bind_ok hcommand _).trans ?_
  split
  · rfl
  · rw [← hdirectory]
    rfl

/-- What the task printed on the two streams of its process is read as one text. -/
theorem run_tells_streams
    (hprepare : (prepare session.directory session.root).exec host = (.ok (), prepared))
    (hinstall : (install session).exec prepared = (.ok (), ready)) :
    ∃ result after, result = session.task.resultOf (ready.results.headD (.missing none)) ∧
      ready.Starts [session.task.call] after ∧
      (result.code = timeoutCode → (run session).exec host = (.error session.tooSlow, after)) ∧
      (result.code ≠ timeoutCode → ∃ issues, (run session).exec host = (.ok (result, issues), after) ∧
        TellsStreams (MarkdownIssue.readAll session.root ready.directory) result.output.toList
          result.errors.toList issues) := by
  obtain ⟨result, after, hresult, hstarts, hrun⟩ := exec_run hprepare hinstall
  refine ⟨result, after, hresult, hstarts, fun htimeout => ?_, fun htimeout => ?_⟩
  · rw [hrun, if_pos htimeout]
  · refine ⟨_, ?_, MarkdownIssue.tellsStreams_combined session.root ready.directory result⟩
    rw [hrun, if_neg htimeout]

/-- A module whose lint task prints this on its two streams. -/
def printing (output errors : String) : Host :=
  { Host.holding ⟨[(["m"], .directory)]⟩ ⟨.slash, ["m"]⟩ with
    results := [.finished 0 "" "", .finished 1 output errors] }

def sample : Session := ⟨"npm", ⟨.slash, ["m"]⟩, ⟨.slash, ["m", "output"]⟩, .int 900, none⟩

theorem run_tells_streams_ended_line :
    ∃ issues after, (run sample).exec (printing "a.md: 1: MD001 x\n" "b.md: 2: MD002 y") =
        (.ok (⟨1, "a.md: 1: MD001 x\n", "b.md: 2: MD002 y", 0⟩, issues), after) ∧
      issues = MarkdownIssue.readAll sample.root ⟨.slash, ["m"]⟩ "a.md: 1: MD001 x\n".toList ++
        MarkdownIssue.readAll sample.root ⟨.slash, ["m"]⟩ "b.md: 2: MD002 y".toList ∧
      issues.map (·.message) = ["x", "y"] := by
  obtain ⟨_, after, rfl, -, -, hreturns⟩ :=
    @run_tells_streams sample (printing "a.md: 1: MD001 x\n" "b.md: 2: MD002 y") _ _ rfl rfl
  obtain ⟨issues, hrun, htells⟩ := hreturns (by decide)
  have hlast : lastLine "a.md: 1: MD001 x\n".toList = [] := by decide
  have hall := htells.tellsAll (.inl fun c hc => absurd (hlast ▸ hc) List.not_mem_nil)
  refine ⟨issues, after, hrun, hall, ?_⟩
  rw [hall]
  decide

/-- Without the line end the second issue becomes part of the first one. -/
theorem run_joins_streams :
    ∃ issues after, (run sample).exec (printing "a.md: 1: MD001 x" "b.md: 2: MD002 y") =
        (.ok (⟨1, "a.md: 1: MD001 x", "b.md: 2: MD002 y", 0⟩, issues), after) ∧
      issues.map (·.message) = ["xb.md: 2: MD002 y"] ∧
      issues ≠ MarkdownIssue.readAll sample.root ⟨.slash, ["m"]⟩ "a.md: 1: MD001 x".toList ++
        MarkdownIssue.readAll sample.root ⟨.slash, ["m"]⟩ "b.md: 2: MD002 y".toList := by
  obtain ⟨_, after, rfl, -, hrun⟩ :=
    @exec_run sample (printing "a.md: 1: MD001 x" "b.md: 2: MD002 y") _ _ rfl rfl
  refine ⟨_, after, hrun, by decide, fun hall => ?_⟩
  have hlength := congrArg List.length hall
  revert hlength
  decide

end MarkdownLint

end DscAudit.Tool

import DscAudit.Proofs.PowerShell.Place
import DscAudit.Proofs.Resource.Reading
import DscAudit.Resource.Module

/-!
# Definitions and comments

The functions that a module defines are read off its text, comments included.  A definition may be
sought line by line, and a line defines the same function with blanks in place of its comments, unless a
comment gets in the way: if it holds a definition itself, or stands on a line before the keyword, or
between the keyword and the name.
-/

namespace DscAudit.Resource.Module

open Text PowerShell

/-! ## Definitions line by line -/

/-- A blank within a line. -/
def isLineBlank (c : Char) : Bool := isBlank c && c != '\n'

theorem isBlank_of_isLineBlank {c : Char} (h : isLineBlank c = true) : isBlank c = true :=
  (Bool.and_eq_true_iff.1 h).1

/-- The function name behind its keyword, and the text behind it. -/
def named? : List Char → Option (List Char × List Char)
  | [] => none
  | c :: rest =>
    if isBlank c then
      let rest := trimStart rest
      let name := rest.takeWhile isNamePart
      if name.isEmpty then none else some (name, rest.dropWhile isNamePart)
    else none

theorem definition?_eq (s : List Char) :
    definition? s = (afterWord? "function".toList (trimStart s)).bind named? := by
  unfold definition?
  rcases afterWord? "function".toList (trimStart s) with - | - | ⟨c, rest⟩ <;> rfl

/-- The function name of a definition on this line. -/
def definitionOnLine? (s : List Char) : Option (List Char × List Char) :=
  (afterWord? "function".toList (s.dropWhile isLineBlank)).bind named?

theorem isBlank_of_keyword {c : Char} {s rest : List Char}
    (h : afterWord? "function".toList (c :: s) = some rest) : isBlank c = false := by
  have hword : "function".toList = 'f' :: "unction".toList := rfl
  have hletter : 'f'.isLower = true := by decide
  rw [hword, afterWord?] at h
  split at h
  · exact isBlank_of_sameInAnyCase hletter ‹_›
  · cases h

/-- Behind blanks within its line, a keyword stands also behind all blanks. -/
theorem definition?_of_onLine {s : List Char} {found : List Char × List Char}
    (h : definitionOnLine? s = some found) : definition? s = some found := by
  have hstart : trimStart s = trimStart (s.dropWhile isLineBlank) := by
    induction s with
    | nil => rfl
    | cons c s ih =>
      by_cases hc : isLineBlank c = true
      · rw [List.dropWhile_cons_of_pos hc, trimStart,
          List.dropWhile_cons_of_pos (isBlank_of_isLineBlank hc)]
        unfold definitionOnLine? at h
        rw [List.dropWhile_cons_of_pos hc] at h
        exact ih h
      · rw [List.dropWhile_cons_of_neg hc]
  rw [definition?_eq, hstart, ← h, definitionOnLine?]
  unfold definitionOnLine? at h
  obtain ⟨rest, hword, -⟩ := Option.bind_eq_some_iff.1 h
  cases hline : s.dropWhile isLineBlank with
  | nil => rfl
  | cons c line =>
    rw [hline] at hword
    rw [trimStart, List.dropWhile_cons_of_neg (by simp [isBlank_of_keyword hword])]

/-- A definition that is not on the line where it is sought stands on a later one, behind blanks. -/
theorem mem_blanks_of_not_onLine {s : List Char} {found : List Char × List Char}
    (h : definition? s = some found) (hline : definitionOnLine? s = none) :
    '\n' ∈ s.takeWhile isBlank := by
  by_contra hnone
  have hstart : s.dropWhile isLineBlank = trimStart s := by
    clear h hline
    induction s with
    | nil => rfl
    | cons c s ih =>
      by_cases hc : isBlank c = true
      · rw [List.takeWhile_cons_of_pos hc, List.mem_cons, not_or] at hnone
        have hblank : isLineBlank c = true := by simpa [isLineBlank, hc] using Ne.symm hnone.1
        rw [List.dropWhile_cons_of_pos hblank, trimStart, List.dropWhile_cons_of_pos hc]
        exact ih hnone.2
      · rw [trimStart, List.dropWhile_cons_of_neg hc,
          List.dropWhile_cons_of_neg (mt isBlank_of_isLineBlank hc)]
  rw [definition?_eq, ← hstart] at h
  exact Option.some_ne_none _ (h.symm.trans hline)

theorem definitionsFrom_false (c : Char) (rest : List Char) :
    definitionsFrom false (c :: rest) = definitionsFrom (c == '\n') rest := by
  rw [definitionsFrom.eq_def]
  rfl

theorem definitionsFrom_of_definition? {s name rest : List Char} (h : definition? s = some (name, rest)) :
    definitionsFrom true s = name :: definitionsFrom false rest := by
  cases s with
  | nil => cases h
  | cons c s =>
    rw [definitionsFrom.eq_def]
    dsimp only
    split
    · rename_i heq
      rw [if_pos rfl, h] at heq
      cases heq
      rfl
    · rename_i heq
      rw [if_pos rfl, h] at heq
      cases heq

/-- Where a definition stands behind a line end, it does not matter whether a line starts here. -/
theorem definitionsFrom_of_later {s name rest : List Char} (h : definition? s = some (name, rest))
    (hlater : '\n' ∈ s.takeWhile isBlank) :
    definitionsFrom false s = name :: definitionsFrom false rest := by
  induction s with
  | nil => cases h
  | cons c s ih =>
    by_cases hc : isBlank c = true
    · have hsame : definition? s = definition? (c :: s) := by
        rw [definition?_eq, definition?_eq, trimStart, trimStart, List.dropWhile_cons_of_pos hc]
      rw [List.takeWhile_cons_of_pos hc, List.mem_cons] at hlater
      rw [definitionsFrom_false]
      by_cases hnewline : c = '\n'
      · rw [hnewline]
        exact definitionsFrom_of_definition? (hsame.trans h)
      · have hbeq : (c == '\n') = false := beq_eq_false_iff_ne.2 hnewline
        rw [hbeq]
        exact ih (hsame.trans h) (hlater.resolve_left (Ne.symm hnewline))
    · rw [List.takeWhile_cons_of_neg hc] at hlater
      cases hlater

theorem definitionsFrom_of_onLine {s name rest : List Char}
    (h : definitionOnLine? s = some (name, rest)) :
    definitionsFrom true s = name :: definitionsFrom false rest :=
  definitionsFrom_of_definition? (definition?_of_onLine h)

theorem definitionsFrom_of_not_onLine {s : List Char} (h : definitionOnLine? s = none) :
    definitionsFrom true s = definitionsFrom false s := by
  cases hfound : definition? s with
  | some found =>
    rw [definitionsFrom_of_definition? hfound,
      definitionsFrom_of_later hfound (mem_blanks_of_not_onLine hfound h)]
  | none =>
    cases s with
    | nil => rw [definitionsFrom.eq_def, definitionsFrom.eq_def]
    | cons c s =>
      rw [definitionsFrom_false, definitionsFrom.eq_def]
      dsimp only
      split
      · rename_i heq
        rw [if_pos rfl, hfound] at heq
        cases heq
      · rfl

/-! ## Definitions within a part of a text -/

theorem named?_append {c : Char} (hblank : isBlank c = false) (hname : isNamePart c = false)
    (s rest : List Char) :
    named? (s ++ c :: rest) = (named? s).map fun found => (found.1, found.2 ++ c :: rest) := by
  cases s with
  | nil => simp [named?, hblank]
  | cons d s =>
    have htrim : trimStart (s ++ c :: rest) = trimStart s ++ c :: rest :=
      dropWhile_append_of_eq_false hblank s rest
    simp only [List.cons_append, named?, htrim, takeWhile_append_of_eq_false hname,
      dropWhile_append_of_eq_false hname]
    split
    · split <;> rfl
    · rfl

/-- A definition ends before the mark that closes a comment. -/
theorem definitionOnLine?_append (s rest : List Char) :
    definitionOnLine? (s ++ '>' :: rest) =
      (definitionOnLine? s).map fun found => (found.1, found.2 ++ '>' :: rest) := by
  have hspelled : ("function".toList.all fun letter => !sameInAnyCase letter '>') = true := by decide
  have hword : ∀ letter ∈ "function".toList, sameInAnyCase letter '>' = false := fun letter hletter => by
    simpa using List.all_eq_true.1 hspelled letter hletter
  have hline : isLineBlank '>' = false := by decide
  unfold definitionOnLine?
  rw [dropWhile_append_of_eq_false hline, afterWord?_append hword]
  cases afterWord? "function".toList (s.dropWhile isLineBlank) with
  | none => rfl
  | some behind => exact named?_append (by decide) (by decide) behind rest

/-- A definition on a line of a text is found, unless another one takes it in. -/
theorem definitionsFrom_ne_nil {s : List Char} (h : definitionOnLine? s ≠ none) (front : List Char)
    (lineStart : Bool) : definitionsFrom lineStart (front ++ '\n' :: s) ≠ [] := by
  obtain ⟨⟨name, rest⟩, hfound⟩ := Option.ne_none_iff_exists'.1 h
  have hskip {c : Char} {more : List Char}
      (hmore : definitionsFrom (c == '\n') more ≠ []) (lineStart : Bool) :
      definitionsFrom lineStart (c :: more) ≠ [] := by
    cases lineStart with
    | false =>
      rw [definitionsFrom_false]
      exact hmore
    | true =>
      cases hline : definitionOnLine? (c :: more) with
      | none =>
        rw [definitionsFrom_of_not_onLine hline, definitionsFrom_false]
        exact hmore
      | some found =>
        rw [definitionsFrom_of_onLine hline]
        exact List.cons_ne_nil _ _
  induction front generalizing lineStart with
  | nil =>
    refine hskip ?_ lineStart
    rw [beq_self_eq_true, definitionsFrom_of_onLine hfound]
    exact List.cons_ne_nil _ _
  | cons c front ih => exact hskip (ih _) lineStart

/-! ## Blanks in place of comments -/

/-- A line starts behind the text. -/
def IsLineStart (front : List Char) : Prop := front = [] ∨ front.getLast? = some '\n'

/-- No comment gets in the way of a definition: none holds one, or stands before the keyword on its
line, or between the keyword and the name. -/
structure DefinitionsApart (s : List Char) : Prop where
  within : ∀ {before text behind : List Char}, HasComment s before text behind →
    definitionsFrom false text = []
  beforeKeyword : ∀ {before text behind : List Char}, HasComment s before text behind →
    afterWord? "function".toList (behind.dropWhile isLineBlank) = none
  behindKeyword : ∀ {before text behind : List Char}, HasComment s before text behind →
    ∀ front line, before = front ++ line → IsLineStart front →
      ∀ rest, afterWord? "function".toList (line.dropWhile isLineBlank) = some rest →
        ¬ ∀ c ∈ rest, isBlank c = true

section Places

variable {whole front s t : List Char}

theorem startsCode_of_spelling {word : List Char}
    (hword : (word.all fun letter =>
      !isBlank letter && !sameInAnyCase letter '#' && !sameInAnyCase letter '<') = true) :
    ∀ letter ∈ word, ∀ c, sameInAnyCase letter c = true → StartsCode c := by
  intro letter hletter c hc
  have hmarks := List.all_eq_true.1 hword letter hletter
  simp only [Bool.and_eq_true, Bool.not_eq_true'] at hmarks
  refine ⟨isBlank_of_spelling hmarks.1.1 hc, fun hmem => ?_⟩
  simp only [List.mem_cons, List.not_mem_nil, or_false] at hmem
  rcases hmem with rfl | rfl
  · exact Bool.noConfusion (hc.symm.trans hmarks.1.2)
  · exact Bool.noConfusion (hc.symm.trans hmarks.2)

theorem startsCode_of_isNamePart (c : Char) (hc : isNamePart c = true) : StartsCode c := by
  refine ⟨?_, not_mem_of_any (by decide) hc⟩
  simp only [isNamePart, Bool.or_eq_true, beq_iff_eq] at hc
  rcases hc with hword | rfl
  · exact isBlank_of_isWordChar hword
  · decide

theorem afterWord?_eq_none_of_not_startsCode {word : List Char} (hne : word ≠ [])
    (hword : ∀ letter ∈ word, ∀ c, sameInAnyCase letter c = true → StartsCode c) {c : Char}
    (hc : ¬ StartsCode c) (rest : List Char) : afterWord? word (c :: rest) = none := by
  obtain ⟨letter, word, rfl⟩ := List.exists_cons_of_ne_nil hne
  exact if_neg (mt (hword letter List.mem_cons_self c) hc)

theorem startsCode_of_function : ∀ letter ∈ "function".toList, ∀ c,
    sameInAnyCase letter c = true → StartsCode c :=
  startsCode_of_spelling (by decide)

/-- Blanks put no keyword on a line. -/
theorem keyword_eq_none_of_blanks {blanks : List Char} (hblanks : ∀ b ∈ blanks, isBlank b = true)
    (h : afterWord? "function".toList (s.dropWhile isLineBlank) = none) :
    afterWord? "function".toList ((blanks ++ s).dropWhile isLineBlank) = none := by
  induction blanks with
  | nil => exact h
  | cons b blanks ih =>
    rw [List.forall_mem_cons] at hblanks
    rw [List.cons_append]
    by_cases hb : isLineBlank b = true
    · rw [List.dropWhile_cons_of_pos hb]
      exact ih hblanks.2
    · rw [List.dropWhile_cons_of_neg hb]
      refine afterWord?_eq_none_of_not_startsCode (by decide) startsCode_of_function ?_ _
      exact fun hstarts => Bool.noConfusion (hblanks.1.symm.trans hstarts.1)

/-- What stands behind a keyword does not matter for it. -/
theorem keyword_append {before rest : List Char}
    (h : afterWord? "function".toList ((before ++ rest).dropWhile isLineBlank) = some rest)
    (other : List Char) :
    afterWord? "function".toList ((before ++ other).dropWhile isLineBlank) = some other := by
  obtain ⟨spelled, hspelled, hdrop⟩ := afterWord?_eq_some_iff.1 h
  have hbefore : (before ++ rest).takeWhile isLineBlank ++ spelled = before := by
    have hsplit := List.takeWhile_append_dropWhile (p := isLineBlank) (l := before ++ rest)
    rw [hdrop, ← List.append_assoc] at hsplit
    exact List.append_cancel_right hsplit
  have hblanks : ∀ c ∈ (before ++ rest).takeWhile isLineBlank, isLineBlank c = true :=
    fun c hc => List.mem_takeWhile_imp hc
  obtain ⟨c, spelled, rfl⟩ : ∃ c more, spelled = c :: more := by
    cases hspelled
    exact ⟨_, _, rfl⟩
  have hc : ¬ isLineBlank c = true := by
    rw [hdrop] at h
    exact fun hblank => Bool.noConfusion
      ((isBlank_of_isLineBlank hblank).symm.trans (isBlank_of_keyword h))
  rw [← hbefore, List.append_assoc, List.dropWhile_append_of_pos hblanks, List.cons_append,
    List.dropWhile_cons_of_neg hc]
  exact afterWord?_eq_some_iff.2 ⟨c :: spelled, hspelled, rfl⟩

/-- A keyword on a line stands there also with blanks in place of comments. -/
theorem keyword_alike (hapart : DefinitionsApart whole) (hwhole : whole = front ++ s)
    (h : InCode front s t) :
    (afterWord? "function".toList (s.dropWhile isLineBlank) = none ∧
      afterWord? "function".toList (t.dropWhile isLineBlank) = none) ∨
    ∃ before s' t', s = before ++ s' ∧
      afterWord? "function".toList (s.dropWhile isLineBlank) = some s' ∧
      afterWord? "function".toList (t.dropWhile isLineBlank) = some t' ∧
      InCode (front ++ before) s' t' := by
  induction hlength : s.length using Nat.strong_induction_on generalizing front s t with
  | _ length ih =>
    subst hlength
    have hsplit : s.takeWhile isLineBlank ++ s.dropWhile isLineBlank = s :=
      List.takeWhile_append_dropWhile
    rcases h.dropWhile fun _ => isBlank_of_isLineBlank with
      hcode | ⟨t', text, behind, behind', hdrop, hnext⟩
    · rcases hcode.afterWord? startsCode_of_function with hnone | ⟨spelled, s', t', hs, hs', ht', hrest⟩
      · exact .inl hnone
      · refine .inr ⟨s.takeWhile isLineBlank ++ spelled, s', t', ?_, hs', ht', ?_⟩
        · rw [List.append_assoc, ← hs, hsplit]
        · rwa [← List.append_assoc]
    · -- a comment stands on the line, and behind it no keyword
      have hcomment := hnext.hasComment
      rw [List.append_assoc, hsplit, ← hwhole] at hcomment
      have hnone := hapart.beforeKeyword hcomment
      obtain ⟨blanks, hblanks, rfl⟩ := hnext.exists_blanks
      obtain ⟨kind, -, hscans⟩ := hnext.exists_kind
      have hshorter : behind.length < s.length := by
        have hlength := congrArg List.length (hsplit.symm.trans (congrArg _ hnext.split))
        have hpos := List.length_pos_iff.2 hscans.ne_nil
        simp only [List.length_append] at hlength
        omega
      refine .inl ⟨?_, ?_⟩
      · obtain ⟨⟨c, rest, heq, hc⟩, -⟩ := hnext.not_startsCode
        rw [heq]
        exact afterWord?_eq_none_of_not_startsCode (by decide) startsCode_of_function hc rest
      · rw [← hdrop]
        refine keyword_eq_none_of_blanks (isBlank_of_mem_blanks hblanks) ?_
        have hwhole' : whole = (front ++ s.takeWhile isLineBlank) ++ text ++ behind := by
          rw [hcomment.split]
          simp only [List.append_assoc]
        rcases ih _ hshorter hwhole' hnext.behind rfl with ⟨-, hbehind⟩ | ⟨_, s', _, -, hsome, -, -⟩
        · exact hbehind
        · cases hnone.symm.trans hsome

/-- A name behind a keyword stands there also with blanks in place of comments, if no comment stands
before it. -/
theorem named?_alike (h : InCode front s t)
    (hfree : ∀ blanks text behind, (∀ c ∈ blanks, isBlank c = true) →
      ¬ HasComment (front ++ s) (front ++ blanks) text behind) :
    (named? s = none ∧ named? t = none) ∨
    ∃ name before s' t', s = before ++ s' ∧ named? s = some (name, s') ∧
      named? t = some (name, t') ∧ InCode (front ++ before) s' t' := by
  cases s with
  | nil =>
    obtain rfl : t = [] := List.length_eq_zero_iff.1 h.length_eq.symm
    exact .inl ⟨rfl, rfl⟩
  | cons c s =>
    rcases h.tail with ⟨t, rfl, htail⟩ | ⟨text, behind, behind', hnext⟩
    · by_cases hc : isBlank c = true
      · have hread (rest : List Char) : named? (c :: rest) =
            if ((trimStart rest).takeWhile isNamePart).isEmpty then none
            else some ((trimStart rest).takeWhile isNamePart, (trimStart rest).dropWhile isNamePart) :=
          if_pos hc
        rcases htail.dropWhile fun _ => id with hcode | ⟨t', text, behind, behind', -, hnext⟩
        · obtain ⟨hname, hrest⟩ := hcode.takeWhile startsCode_of_isNamePart
          have hname : (trimStart s).takeWhile isNamePart = (trimStart t).takeWhile isNamePart := hname
          rw [hread s, hread t, ← hname]
          by_cases hempty : ((trimStart s).takeWhile isNamePart).isEmpty = true
          · exact .inl ⟨if_pos hempty, if_pos hempty⟩
          · refine .inr ⟨_, c :: (s.takeWhile isBlank ++ (trimStart s).takeWhile isNamePart), _, _, ?_,
              if_neg hempty, if_neg hempty, ?_⟩
            · rw [List.cons_append, List.append_assoc, List.takeWhile_append_dropWhile]
              exact congrArg (List.cons c) List.takeWhile_append_dropWhile.symm
            · rw [List.append_cons, ← List.append_assoc]
              exact hrest
        · have hblanks : ∀ d ∈ c :: s.takeWhile isBlank, isBlank d = true :=
            List.forall_mem_cons.2 ⟨hc, fun d hd => List.mem_takeWhile_imp hd⟩
          have hcomment := hnext.hasComment
          rw [List.append_assoc, List.takeWhile_append_dropWhile, List.append_assoc,
            List.append_assoc] at hcomment
          exact absurd hcomment (hfree _ text behind hblanks)
      · exact .inl ⟨if_neg hc, if_neg hc⟩
    · have hcomment := hnext.hasComment
      have hnone := hfree [] text behind (by simp)
      rw [List.append_nil] at hnone
      exact absurd hcomment hnone

/-- A definition on a line of the code stands there also with blanks in place of comments. -/
theorem definitionOnLine?_alike (hapart : DefinitionsApart whole) (hwhole : whole = front ++ s)
    (hstart : IsLineStart front) (h : InCode front s t) :
    (definitionOnLine? s = none ∧ definitionOnLine? t = none) ∨
    ∃ name before s' t', s = before ++ s' ∧ definitionOnLine? s = some (name, s') ∧
      definitionOnLine? t = some (name, t') ∧ InCode (front ++ before) s' t' := by
  unfold definitionOnLine?
  rcases keyword_alike hapart hwhole h with ⟨hs, ht⟩ | ⟨before, s', t', rfl, hs, ht, hrest⟩
  · rw [hs, ht]
    exact .inl ⟨rfl, rfl⟩
  rw [hs, ht]
  have hfree : ∀ blanks text behind, (∀ c ∈ blanks, isBlank c = true) →
      ¬ HasComment (front ++ before ++ s') (front ++ before ++ blanks) text behind := by
    intro blanks text behind hblanks hcomment
    rw [List.append_assoc, ← hwhole, List.append_assoc] at hcomment
    exact hapart.behindKeyword hcomment front _ rfl hstart blanks (keyword_append hs blanks) hblanks
  rcases named?_alike hrest hfree with hnone | ⟨name, more, s'', t'', rfl, hs', ht', hrest⟩
  · exact .inl hnone
  · refine .inr ⟨name, before ++ more, s'', t'', (List.append_assoc _ _ _).symm, hs', ht', ?_⟩
    rwa [← List.append_assoc]

theorem definitionOnLine?_eq_none_of_mark {c : Char} (hc : c ∈ ['#', '<']) (rest : List Char) :
    definitionOnLine? (c :: rest) = none := by
  have hblank : isBlank c = false := by
    simp only [List.mem_cons, List.not_mem_nil, or_false] at hc
    rcases hc with rfl | rfl <;> decide
  unfold definitionOnLine?
  rw [List.dropWhile_cons_of_neg (by simp [isLineBlank, hblank]),
    afterWord?_eq_none_of_not_startsCode (by decide) startsCode_of_function
      (fun hstarts => hstarts.2 hc) rest]
  rfl

/-- No definition starts within a comment, nor within blanks in its place. -/
theorem definitionOnLine?_comment (hapart : DefinitionsApart whole) {before head : List Char}
    (hwhole : whole = before ++ head ++ s) (hstart : IsLineStart (before ++ head))
    (h : InComment before head s t) : definitionOnLine? s = none ∧ definitionOnLine? t = none := by
  obtain ⟨hcomment, hlexemes, hscans, hrest, hblanks, h⟩ := h
  rename_i kind rest blanks s t
  have hsplit : whole = before ++ (head ++ rest ++ s) := by
    rw [hwhole]
    simp only [List.append_assoc]
  have hhas : HasComment whole before (head ++ rest) s := ⟨hsplit, hlexemes, kind, hcomment, hscans⟩
  constructor
  · by_contra hsome
    -- a line starts within the comment, which is therefore a block
    rcases List.eq_nil_or_concat' head with rfl | ⟨head, c, rfl⟩
    · rcases hscans.head_of_isComment hcomment with ⟨content, htext, -⟩ | ⟨content, htext⟩
      all_goals
        rw [List.nil_append] at htext
        rw [htext] at hsome
        exact hsome (definitionOnLine?_eq_none_of_mark (by simp) _)
    obtain rfl : c = '\n' := by
      rcases hstart with hnil | hlast
      · simp at hnil
      · simpa using hlast
    rcases hscans.end_of_isComment hcomment hrest with ⟨hline, -⟩ | ⟨rest, rfl⟩
    · simp at hline
    · have hrest : definitionOnLine? rest ≠ none := by
        rw [List.append_assoc, List.singleton_append, definitionOnLine?_append] at hsome
        exact fun hnone => hsome (by rw [hnone]; rfl)
      have hwithin : definitionOnLine? (rest ++ ['>']) ≠ none := by
        rw [definitionOnLine?_append]
        exact fun hnone => hrest (Option.map_eq_none_iff.1 hnone)
      refine definitionsFrom_ne_nil hwithin head false ?_
      rw [List.append_cons]
      exact hapart.within hhas
  · have hnext : InCode (before ++ (head ++ rest)) s t := .between (hlexemes.snoc hscans) h
    have hwhole' : whole = before ++ (head ++ rest) ++ s := by
      rw [hsplit]
      simp only [List.append_assoc]
    have hnone := hapart.beforeKeyword hhas
    have hnone' : afterWord? "function".toList (t.dropWhile isLineBlank) = none := by
      rcases keyword_alike hapart hwhole' hnext with ⟨-, ht⟩ | ⟨_, _, _, -, hs, -, -⟩
      · exact ht
      · cases hnone.symm.trans hs
    unfold definitionOnLine?
    rw [keyword_eq_none_of_blanks (isBlank_of_mem_blanks hblanks) hnone']
    rfl

/-- With blanks in place of its comments, a text defines the same functions, if no comment gets in the
way. -/
theorem definitionsFrom_alike (hapart : DefinitionsApart whole) (hwhole : whole = front ++ s)
    {lineStart : Bool} (hstart : lineStart = true → IsLineStart front) (h : IsPlace [] front s t) :
    definitionsFrom lineStart s = definitionsFrom lineStart t := by
  induction hlength : s.length using Nat.strong_induction_on generalizing front s t lineStart with
  | _ length ih =>
    subst hlength
    cases s with
    | nil =>
      obtain rfl : t = [] := List.length_eq_zero_iff.1 h.length_eq.symm
      rfl
    | cons c s =>
      obtain ⟨d, t', rfl, hd, htail⟩ := h.tail
      have hstep : definitionsFrom false (c :: s) = definitionsFrom false (d :: t') := by
        have hsame : (d == '\n') = (c == '\n') := by
          rw [Bool.eq_iff_iff, beq_iff_eq, beq_iff_eq, newline_iff hd]
        rw [definitionsFrom_false, definitionsFrom_false, hsame]
        refine ih _ (Nat.lt_succ_self _) (hwhole.trans (List.append_cons ..)) (fun hc => .inr ?_) htail rfl
        rw [beq_iff_eq.1 hc]
        exact List.getLast?_concat
      cases lineStart with
      | false => exact hstep
      | true =>
        have halike : (definitionOnLine? (c :: s) = none ∧ definitionOnLine? (d :: t') = none) ∨
            ∃ name before s' t'', c :: s = before ++ s' ∧
              definitionOnLine? (c :: s) = some (name, s') ∧
              definitionOnLine? (d :: t') = some (name, t'') ∧ InCode (front ++ before) s' t'' := by
          rcases h with ⟨-, hcode⟩ | ⟨before, head, rfl, -, hcomment⟩
          · exact definitionOnLine?_alike hapart hwhole (hstart rfl) hcode
          · exact .inl (definitionOnLine?_comment hapart hwhole (hstart rfl) hcomment)
        rcases halike with ⟨hs, ht⟩ | ⟨name, before, s', t'', heq, hs, ht, hrest⟩
        · rw [definitionsFrom_of_not_onLine hs, definitionsFrom_of_not_onLine ht]
          exact hstep
        · rw [definitionsFrom_of_onLine hs, definitionsFrom_of_onLine ht]
          have hshorter := definition?_length (definition?_of_onLine hs)
          have hwhole' : whole = front ++ before ++ s' := by rw [hwhole, heq, List.append_assoc]
          have hbehind : definitionsFrom false s' = definitionsFrom false t'' :=
            ih _ hshorter hwhole' nofun (.inl ⟨List.nil_prefix, hrest⟩) rfl
          rw [hbehind]

end Places

theorem definitions_eq_of_blanking {s t : List Char} (hapart : DefinitionsApart s) (h : Blanking s t) :
    definitions s = definitions t :=
  definitionsFrom_alike hapart (List.nil_append s).symm (fun _ => .inl rfl) h.inCode.isPlace

end DscAudit.Resource.Module

import DscAudit.Proofs.Resource.Reading

/-!
# Descriptions in a schema

A schema is read without regard to where quoted text begins and ends.  So what a description says can
be taken for a comment, a bracket, a qualifier or a key; if none of these stands in it, what is wrong
with the schema does not depend on it.
-/

namespace DscAudit.Resource.Schema

open Text

/-- A text with quoted content in it. -/
def withLiteral (before content after : List Char) : List Char :=
  before ++ '"' :: (content ++ '"' :: after)

/-- Quoted content in which nothing is read: no mark of a comment, no square bracket, and no key behind
a comma.  It neither closes nor opens a round bracket that would make a qualifier of what is quoted
before or after it. -/
structure IsPlain (content : List Char) : Prop where
  noQuote : '"' ∉ content
  noBreak : '\n' ∉ content
  noOpening : '[' ∉ content
  noClosing : ']' ∉ content
  noLineComment : ¬ ['/', '/'] <:+: content
  noBlockComment : ¬ ['/', '*'] <:+: content
  noCommentEnd : ¬ ['*', '/'] <:+: content
  noKey : hasKey content = false
  notClosing : afterMark? ')' content = none
  notVersion : ¬ Opens "classversion".toList content
  notFriendlyName : ¬ Opens "friendlyname".toList content

/-! ## Comments -/

theorem withoutComments_cons {c : Char} {s : List Char}
    (hline : ¬ ['/', '/'] <+: c :: s) (hblock : ¬ ['/', '*'] <+: c :: s) :
    withoutComments (c :: s) = c :: withoutComments s := by
  apply withoutComments.eq_4
  · intro rest hc hs
    apply hline
    rw [hc, hs]
    exact ⟨rest, rfl⟩
  · intro rest hc hs
    apply hblock
    rw [hc, hs]
    exact ⟨rest, rfl⟩

/-- Every comment has a slash. -/
theorem withoutComments_of_not_mem {s : List Char} (h : '/' ∉ s) : withoutComments s = s := by
  induction s with
  | nil => rw [withoutComments]
  | cons c s ih =>
    rw [List.mem_cons, not_or] at h
    have hplain : ∀ d, ¬ ['/', d] <+: c :: s := fun d hprefix => h.1 (List.cons_prefix_cons.mp hprefix).1
    rw [withoutComments_cons (hplain '/') (hplain '*'), ih h.2]

/-- A quotation mark is not the second character of a mark. -/
theorem prefix_of_append_quote {a c d : Char} {s rest : List Char}
    (hstarts : [c, d] <+: a :: (s ++ '"' :: rest)) (hd : d ≠ '"') : [c, d] <+: a :: s := by
  cases s with
  | nil => simp [hd] at hstarts
  | cons b s => simpa using hstarts

theorem withoutComments_append_quote {content : List Char} (hcontent : IsPlain content)
    (rest : List Char) :
    withoutComments (content ++ '"' :: rest) = content ++ '"' :: withoutComments rest := by
  have hmarks : ∀ s, s <:+ content →
      withoutComments (s ++ '"' :: rest) = s ++ '"' :: withoutComments rest := by
    intro s hs
    induction s with
    | nil => exact withoutComments_cons (by simp) (by simp)
    | cons c s ih =>
      have hrest := ih ((List.suffix_cons c s).trans hs)
      rw [List.cons_append, withoutComments_cons, hrest, List.cons_append]
      · intro hline
        have hstarts := prefix_of_append_quote hline (by decide)
        exact hcontent.noLineComment (hstarts.isInfix.trans hs.isInfix)
      · intro hblock
        have hstarts := prefix_of_append_quote hblock (by decide)
        exact hcontent.noBlockComment (hstarts.isInfix.trans hs.isInfix)
  exact hmarks content (List.suffix_refl content)

theorem withoutComments_block {rest behind : List Char} (hbehind : afterComment? rest = some behind) :
    withoutComments ('/' :: '*' :: rest) = withoutComments behind := by
  rw [withoutComments.eq_3]
  split
  · rename_i found hfound
    rw [hbehind] at hfound
    rw [Option.some.inj hfound]
  · rename_i hnone
    rw [hbehind] at hnone
    cases hnone

theorem withoutComments_open {rest : List Char} (hnone : afterComment? rest = none) :
    withoutComments ('/' :: '*' :: rest) = '/' :: withoutComments ('*' :: rest) := by
  rw [withoutComments.eq_3]
  split
  · rename_i found hfound
    rw [hnone] at hfound
    cases hfound
  · rfl

theorem afterComment?_cons {c : Char} {s : List Char} (hend : ¬ ['*', '/'] <+: c :: s) :
    afterComment? (c :: s) = afterComment? s := by
  apply afterComment?.eq_3
  intro rest hc hs
  apply hend
  rw [hc, hs]
  exact ⟨rest, rfl⟩

theorem afterComment?_append_of_some {s behind : List Char} (hbehind : afterComment? s = some behind)
    (rest : List Char) : afterComment? (s ++ rest) = some (behind ++ rest) := by
  fun_induction afterComment? s with
  | case1 => cases hbehind
  | case2 s =>
    cases hbehind
    rfl
  | case3 c s hend ih =>
    rw [List.cons_append, ← ih hbehind]
    apply afterComment?.eq_3
    intro behind' hc hs
    cases s with
    | nil => cases hbehind
    | cons d s =>
      cases hs
      exact hend s hc rfl

theorem afterComment?_append_quote {s : List Char} (hs : ¬ ['*', '/'] <:+: s) (rest : List Char) :
    afterComment? (s ++ '"' :: rest) = afterComment? rest := by
  induction s with
  | nil => exact afterComment?_cons (by simp)
  | cons c s ih =>
    rw [List.cons_append, afterComment?_cons]
    · exact ih fun hmark => hs (hmark.trans (List.suffix_cons c s).isInfix)
    · intro hend
      exact hs (prefix_of_append_quote hend (by decide)).isInfix

theorem not_infix_of_afterComment?_eq_none {s : List Char} (hnone : afterComment? s = none) :
    ¬ ['*', '/'] <:+: s := by
  fun_induction afterComment? s with
  | case1 => simp
  | case2 s => cases hnone
  | case3 c s hend ih =>
    rw [List.infix_cons_iff, not_or]
    constructor
    · intro hstarts
      obtain ⟨rest, hrest⟩ := hstarts
      cases hrest
      exact hend rest rfl rfl
    · exact ih hnone

theorem dropWhile_withLiteral_of_mem {before : List Char} (hbefore : '\n' ∈ before)
    (content after : List Char) : (withLiteral before content after).dropWhile (· != '\n') =
      withLiteral (before.dropWhile (· != '\n')) content after := by
  unfold withLiteral
  rw [List.dropWhile_append, if_neg]
  rw [List.isEmpty_iff, List.dropWhile_eq_nil_iff]
  intro hall
  exact absurd (hall _ hbefore) (by simp)

theorem dropWhile_withLiteral_of_not_mem {before content : List Char} (hbefore : '\n' ∉ before)
    (hcontent : '\n' ∉ content) (after : List Char) :
    (withLiteral before content after).dropWhile (· != '\n') = after.dropWhile (· != '\n') := by
  have hall : ∀ {s : List Char}, '\n' ∉ s → ∀ c ∈ s, (c != '\n') = true := by
    intro s hs c hc
    rw [bne_iff_ne]
    exact ne_of_mem_of_not_mem hc hs
  unfold withLiteral
  rw [List.dropWhile_append_of_pos (hall hbefore), List.dropWhile_cons_of_pos (by decide),
    List.dropWhile_append_of_pos (hall hcontent), List.dropWhile_cons_of_pos (by decide)]

/-- A literal with plain content is kept between the rest of what stands around it, or it is dropped
with a comment, whatever the content is. -/
def IsKeptOrDropped (before kept after : List Char) : Prop :=
  (∀ content, IsPlain content → withoutComments (withLiteral before content after) =
    withLiteral kept content (withoutComments after)) ∨
  ∃ s, ∀ content, IsPlain content → withoutComments (withLiteral before content after) = s

theorem IsKeptOrDropped.cons {c : Char} {longer before kept after : List Char}
    (hstep : ∀ content, IsPlain content → withoutComments (withLiteral longer content after) =
      c :: withoutComments (withLiteral before content after))
    (hbefore : IsKeptOrDropped before kept after) : IsKeptOrDropped longer (c :: kept) after := by
  cases hbefore with
  | inl hkept =>
    left
    intro content hcontent
    rw [hstep content hcontent, hkept content hcontent]
    rfl
  | inr hdropped =>
    obtain ⟨s, hs⟩ := hdropped
    right
    use c :: s
    intro content hcontent
    rw [hstep content hcontent, hs content hcontent]

theorem isKeptOrDropped (before after : List Char) :
    IsKeptOrDropped before (withoutComments before) after := by
  fun_induction withoutComments before with
  | case1 =>
    left
    intro content hcontent
    show withoutComments ([] ++ '"' :: (content ++ '"' :: after)) = _
    rw [List.nil_append, withoutComments_cons (by simp) (by simp),
      withoutComments_append_quote hcontent]
    rfl
  | case2 rest ih =>
    have hstep : ∀ content, withoutComments (withLiteral ('/' :: '/' :: rest) content after) =
        withoutComments ((withLiteral rest content after).dropWhile (· != '\n')) :=
      fun content => withoutComments.eq_2 _
    unfold IsKeptOrDropped
    by_cases hrest : '\n' ∈ rest
    · simp only [hstep, dropWhile_withLiteral_of_mem hrest]
      exact ih
    · right
      use withoutComments (after.dropWhile (· != '\n'))
      intro content hcontent
      rw [hstep, dropWhile_withLiteral_of_not_mem hrest hcontent.noBreak]
  | case3 rest behind hbehind ih =>
    have hstep : ∀ content, withoutComments (withLiteral ('/' :: '*' :: rest) content after) =
        withoutComments (withLiteral behind content after) :=
      fun content => withoutComments_block (afterComment?_append_of_some hbehind _)
    unfold IsKeptOrDropped
    simp only [hstep]
    exact ih
  | case4 rest hnone ih =>
    have hend : ∀ content, IsPlain content →
        afterComment? (withLiteral rest content after) = afterComment? after := by
      intro content hcontent
      rw [withLiteral, afterComment?_append_quote (not_infix_of_afterComment?_eq_none hnone),
        afterComment?_append_quote hcontent.noCommentEnd]
    cases hafter : afterComment? after with
    | some behind =>
      right
      use withoutComments behind
      intro content hcontent
      exact withoutComments_block ((hend content hcontent).trans hafter)
    | none =>
      apply ih.cons
      intro content hcontent
      exact withoutComments_open ((hend content hcontent).trans hafter)
  | case5 c rest hline hblock ih =>
    apply ih.cons
    intro content _
    apply withoutComments_cons
    · intro hstarts
      obtain ⟨s, hs⟩ := prefix_of_append_quote hstarts (by decide)
      cases hs
      exact hline s rfl rfl
    · intro hstarts
      obtain ⟨s, hs⟩ := prefix_of_append_quote hstarts (by decide)
      cases hs
      exact hblock s rfl rfl

/-! ## Keys -/

variable {content other : List Char}

theorem upToBracket?_withLiteral {before : List Char} (hbefore : ']' ∉ before)
    (hcontent : ']' ∉ content) (after : List Char) :
    upToBracket? (withLiteral before content after) =
      (upToBracket? after).map fun found => (withLiteral before content found.1, found.2) := by
  have hmove : ∀ rest, withLiteral before content rest = before ++ '"' :: (content ++ ['"']) ++ rest := by
    intro rest
    simp [withLiteral]
  simp only [hmove]
  apply upToBracket?_append
  simp [hbefore, hcontent]

theorem isKeyProperty_cons (c : Char) (s : List Char) :
    isKeyProperty (c :: s) = (c == '[' && (upToBracket? s).any fun found =>
      (startsKey found.1 || hasKey found.1) && startsProperty found.2) := by
  unfold isKeyProperty
  rw [bracketed?_cons]
  by_cases hc : c = '['
  · rw [if_pos hc]
    cases upToBracket? s <;> simp [hc]
  · simp [hc]

theorem isKey_withLiteral (hcontent : hasKey content = false) (before after : List Char) :
    (startsKey (withLiteral before content after) || hasKey (withLiteral before content after)) =
      (startsKey before || (hasKey before || hasKey after)) := by
  unfold withLiteral
  rw [startsKey_append_quote, hasKey_append_quote, hasKey_append_quote, hcontent, Bool.false_or]

theorem isKeyProperty_withLiteral (hcontent : IsPlain content) (hother : IsPlain other)
    (c : Char) (before after : List Char) :
    isKeyProperty (c :: withLiteral before content after) =
      isKeyProperty (c :: withLiteral before other after) := by
  rw [isKeyProperty_cons, isKeyProperty_cons]
  congr 1
  by_cases hbefore : ']' ∈ before
  · -- the bracket closes before the literal
    obtain ⟨inside, behind, rfl, hinside⟩ := List.eq_append_cons_of_mem hbefore
    unfold withLiteral
    rw [List.append_assoc, List.append_assoc, List.cons_append, List.cons_append,
      upToBracket?_append_bracket hinside, upToBracket?_append_bracket hinside]
    simp only [Option.any_some, startsProperty_append_quote]
  · rw [upToBracket?_withLiteral hbefore hcontent.noClosing,
      upToBracket?_withLiteral hbefore hother.noClosing, Option.any_map, Option.any_map]
    simp only [isKey_withLiteral hcontent.noKey, isKey_withLiteral hother.noKey]

theorem hasKeyProperty_append {s : List Char} (hs : '[' ∉ s) (rest : List Char) :
    hasKeyProperty (s ++ rest) = hasKeyProperty rest := by
  induction s with
  | nil => rfl
  | cons c s ih =>
    rw [List.mem_cons, not_or] at hs
    have hc : isKeyProperty (c :: (s ++ rest)) = false := by
      simp [isKeyProperty_cons, Ne.symm hs.1]
    rw [List.cons_append, hasKeyProperty, hc, Bool.false_or, ih hs.2]

theorem hasKeyProperty_withLiteral (hcontent : IsPlain content) (hother : IsPlain other)
    (before after : List Char) :
    hasKeyProperty (withLiteral before content after) =
      hasKeyProperty (withLiteral before other after) := by
  induction before with
  | nil =>
    have hskip : ∀ {content : List Char}, '[' ∉ content →
        hasKeyProperty (withLiteral [] content after) = hasKeyProperty ('"' :: after) := by
      intro content hcontent
      exact hasKeyProperty_append (s := '"' :: content) (by simp [hcontent]) ('"' :: after)
    rw [hskip hcontent.noOpening, hskip hother.noOpening]
  | cons c before ih =>
    show hasKeyProperty (c :: withLiteral before content after) =
      hasKeyProperty (c :: withLiteral before other after)
    rw [hasKeyProperty, hasKeyProperty, isKeyProperty_withLiteral hcontent hother, ih]

/-! ## Qualifiers -/

variable {keyword : List Char} {allowed : Char → Bool}

theorem hasQualifier_withLiteral (hkeyword : '"' ∉ keyword) (hne : keyword ≠ [])
    (hallowed : allowed '"' = false) {before : List Char} (hbefore : ¬ Opens keyword before)
    (hcontent : IsPlain content) (hopens : ¬ Opens keyword content) (after : List Char) :
    hasQualifier keyword allowed none (withLiteral before content after) =
      (hasQualifier keyword allowed none before || hasQualifier keyword allowed (some '"') after) := by
  have hclose : afterMark? ')' (content ++ '"' :: after) = none := by
    rw [afterMark?_append_quote (by decide), hcontent.notClosing]
    rfl
  unfold withLiteral
  rw [hasQualifier_append_quote hkeyword hne hallowed hbefore fun _ => hclose,
    hasQualifier_append_quote hkeyword hne hallowed hopens fun hmem => absurd hmem hcontent.noQuote,
    hasQualifier_eq_false hcontent.noQuote, Bool.false_or]

/-- A text that ends with neither of the words that a class needs, and an opening bracket. -/
structure OpensOther (before : List Char) : Prop where
  notVersion : ¬ Opens "classversion".toList before
  notFriendlyName : ¬ Opens "friendlyname".toList before

theorem OpensOther.of_suffix {before front : List Char} (hbefore : OpensOther before)
    (hfront : front <:+ before) : OpensOther front where
  notVersion hopens := hbefore.notVersion (hopens.of_suffix hfront)
  notFriendlyName hopens := hbefore.notFriendlyName (hopens.of_suffix hfront)

theorem hasVersion_withLiteral {before : List Char} (hbefore : OpensOther before)
    (hcontent : IsPlain content) (hother : IsPlain other) (after : List Char) :
    hasVersion (withLiteral before content after) = hasVersion (withLiteral before other after) := by
  unfold hasVersion
  rw [hasQualifier_withLiteral (by decide) (by decide) (by decide) hbefore.notVersion hcontent
      hcontent.notVersion,
    hasQualifier_withLiteral (by decide) (by decide) (by decide) hbefore.notVersion hother
      hother.notVersion]

theorem hasFriendlyName_withLiteral {before : List Char} (hbefore : OpensOther before)
    (hcontent : IsPlain content) (hother : IsPlain other) (after : List Char) :
    hasFriendlyName (withLiteral before content after) =
      hasFriendlyName (withLiteral before other after) := by
  unfold hasFriendlyName
  rw [hasQualifier_withLiteral (by decide) (by decide) (by decide) hbefore.notFriendlyName hcontent
      hcontent.notFriendlyName,
    hasQualifier_withLiteral (by decide) (by decide) (by decide) hbefore.notFriendlyName hother
      hother.notFriendlyName]

/-! ## Class declarations -/

/-- Two declarations in which the same is wrong. -/
structure ClassDeclaration.IsLike (first second : ClassDeclaration) : Prop where
  name : first.name = second.name
  base : first.base = second.base
  version : hasVersion first.qualifiers = hasVersion second.qualifiers
  friendlyName : hasFriendlyName first.qualifiers = hasFriendlyName second.qualifiers
  key : hasKeyProperty first.rest = hasKeyProperty second.rest

theorem ClassDeclaration.IsLike.refl (found : ClassDeclaration) : found.IsLike found :=
  ⟨rfl, rfl, rfl, rfl, rfl⟩

theorem classHere?_withLiteral {before : List Char} (hbefore : OpensOther before)
    (hcontent : IsPlain content) (hother : IsPlain other) (c : Char) (after : List Char) :
    Option.Rel ClassDeclaration.IsLike (classHere? (c :: withLiteral before content after))
      (classHere? (c :: withLiteral before other after)) := by
  rw [classHere?_eq, classHere?_eq, bracketed?_cons, bracketed?_cons]
  by_cases hc : c = '['
  · rw [if_pos hc, if_pos hc]
    by_cases hclosed : ']' ∈ before
    · -- the literal stands behind the qualifiers
      obtain ⟨inside, behind, rfl, hinside⟩ := List.eq_append_cons_of_mem hclosed
      unfold withLiteral
      rw [List.append_assoc, List.append_assoc, List.cons_append, List.cons_append,
        upToBracket?_append_bracket hinside, upToBracket?_append_bracket hinside,
        Option.bind_some, Option.bind_some, header?_append_quote, header?_append_quote]
      cases header? behind with
      | none => exact .none
      | some header =>
        have hkey := hasKeyProperty_withLiteral hcontent hother header.2.2 after
        exact .some ⟨rfl, rfl, rfl, rfl, hkey⟩
    · -- the literal is one of the qualifiers, or no bracket closes
      rw [upToBracket?_withLiteral hclosed hcontent.noClosing,
        upToBracket?_withLiteral hclosed hother.noClosing]
      cases upToBracket? after with
      | none => exact .none
      | some found =>
        rw [Option.map_some, Option.map_some, Option.bind_some, Option.bind_some]
        have hversion := hasVersion_withLiteral hbefore hcontent hother found.1
        have hname := hasFriendlyName_withLiteral hbefore hcontent hother found.1
        cases header? found.2 with
        | none => exact .none
        | some header => exact .some ⟨rfl, rfl, hversion, hname, rfl⟩
  · rw [if_neg hc, if_neg hc]
    exact .none

theorem rel_or {α : Type} {r : α → α → Prop} {a b c d : Option α} (hfirst : Option.Rel r a b)
    (hsecond : Option.Rel r c d) : Option.Rel r (a.or c) (b.or d) := by
  cases hfirst with
  | none => exact hsecond
  | some hr => exact .some hr

theorem class?_append {s : List Char} (hs : '[' ∉ s) (rest : List Char) :
    class? (s ++ rest) = class? rest := by
  induction s with
  | nil => rfl
  | cons c s ih =>
    rw [List.mem_cons, not_or] at hs
    have hc : classHere? (c :: (s ++ rest)) = none := by
      rw [classHere?_eq, bracketed?_cons, if_neg (Ne.symm hs.1)]
      rfl
    rw [List.cons_append, class?, hc, Option.none_or, ih hs.2]

theorem class?_withLiteral {before : List Char} (hbefore : OpensOther before)
    (hcontent : IsPlain content) (hother : IsPlain other) (after : List Char) :
    Option.Rel ClassDeclaration.IsLike (class? (withLiteral before content after))
      (class? (withLiteral before other after)) := by
  induction before with
  | nil =>
    have hskip : ∀ {content : List Char}, '[' ∉ content →
        class? (withLiteral [] content after) = class? ('"' :: after) := by
      intro content hcontent
      exact class?_append (s := '"' :: content) (by simp [hcontent]) ('"' :: after)
    rw [hskip hcontent.noOpening, hskip hother.noOpening]
    cases class? ('"' :: after) with
    | none => exact .none
    | some found => exact .some (.refl found)
  | cons c before ih =>
    have hrest := hbefore.of_suffix (List.suffix_cons c before)
    have hhere := classHere?_withLiteral hrest hcontent hother c after
    exact rel_or hhere (ih hrest)

/-! ## Problems -/

theorem problems_eq_of_rel {s t : List Char}
    (hlike : Option.Rel ClassDeclaration.IsLike (class? (withoutComments s)) (class? (withoutComments t)))
    (resource : String) : problems s resource = problems t resource := by
  unfold problems
  generalize class? (withoutComments s) = first at hlike ⊢
  generalize class? (withoutComments t) = second at hlike ⊢
  cases hlike with
  | none => rfl
  | some hlike =>
    dsimp only
    rw [hlike.name, hlike.base, hlike.version, hlike.friendlyName, hlike.key]

theorem opensOther_of_opens_description {before : List Char}
    (hbefore : Opens "description".toList before) : OpensOther before := by
  constructor
  · have hdiffer : ∀ c, sameInAnyCase 't' c = true → sameInAnyCase 's' c = false := by
      intro c hc
      have hlower : c.toLower = 't' := by simpa [sameInAnyCase] using hc
      have hlong : c ≠ '\u017F' := by
        rintro rfl
        revert hlower
        decide
      simp [sameInAnyCase, hlower, hlong]
    have hopens : Opens (['d', 'e', 's', 'c', 'r', 'i', 'p'] ++ 't' :: ['i', 'o', 'n']) before :=
      hbefore
    show ¬ Opens (['c', 'l', 'a', 's', 's', 'v', 'e', 'r'] ++ 's' :: ['i', 'o', 'n']) before
    exact hopens.not_opens (by simp) (by simp) hdiffer
  · have hdiffer : ∀ c, sameInAnyCase 'n' c = true → sameInAnyCase 'e' c = false := by
      intro c hc
      have hlower : c.toLower = 'n' := by simpa [sameInAnyCase] using hc
      simp [sameInAnyCase, hlower]
    have hopens : Opens (['d', 'e', 's', 'c', 'r', 'i', 'p', 't', 'i', 'o'] ++ ['n']) before :=
      hbefore
    show ¬ Opens (['f', 'r', 'i', 'e', 'n', 'd', 'l', 'y', 'n', 'a', 'm'] ++ ['e']) before
    exact hopens.not_opens (by simp) (by simp) hdiffer

/-- What is wrong with a schema does not depend on what a description says, as long as nothing is read
in it. -/
theorem problems_eq_of_description {before : List Char}
    (hbefore : Opens "description".toList (withoutComments before)) (hcontent : IsPlain content)
    (hother : IsPlain other) (after : List Char) (resource : String) :
    problems (withLiteral before content after) resource =
      problems (withLiteral before other after) resource := by
  cases isKeptOrDropped before after with
  | inl hkept =>
    apply problems_eq_of_rel
    rw [hkept content hcontent, hkept other hother]
    exact class?_withLiteral (opensOther_of_opens_description hbefore) hcontent hother _
  | inr hdropped =>
    obtain ⟨s, hs⟩ := hdropped
    unfold problems
    rw [hs content hcontent, hs other hother]

/-! ## Schemas of one property -/

theorem hasKey_eq_false {s : List Char} (hs : ',' ∉ s) : hasKey s = false := by
  induction s with
  | nil => rfl
  | cons c s ih =>
    rw [List.mem_cons, not_or] at hs
    simp [hasKey, Ne.symm hs.1, ih hs.2]

theorem mem_of_opens {word s : List Char} (hopens : Opens word s) : '(' ∈ s := by
  obtain ⟨opening, behind, blanks, hsuffix, hopening, hbehind, -⟩ := hopens
  exact (((afterMark?_suffix (by decide) hbehind).trans (afterWord?_suffix hopening)).trans
    hsuffix).mem List.mem_cons_self

/-- Content without the marks of a schema is plain. -/
theorem isPlain_of_forall_not_mem
    (hcontent : ∀ mark ∈ ['"', '\n', '[', ']', '(', ')', '/', ','], mark ∉ content) :
    IsPlain content where
  noQuote := hcontent '"' (by decide)
  noBreak := hcontent '\n' (by decide)
  noOpening := hcontent '[' (by decide)
  noClosing := hcontent ']' (by decide)
  noLineComment hmark := hcontent '/' (by decide) (hmark.mem (by decide))
  noBlockComment hmark := hcontent '/' (by decide) (hmark.mem (by decide))
  noCommentEnd hmark := hcontent '/' (by decide) (hmark.mem (by decide))
  noKey := hasKey_eq_false (hcontent ',' (by decide))
  notClosing := by
    rw [Option.eq_none_iff_forall_ne_some]
    intro rest hrest
    exact hcontent ')' (by decide) ((afterMark?_suffix (by decide) hrest).mem List.mem_cons_self)
  notVersion hopens := hcontent '(' (by decide) (mem_of_opens hopens)
  notFriendlyName hopens := hcontent '(' (by decide) (mem_of_opens hopens)

/-- The front of a schema, up to the description of its only property. -/
def untilDescription (qualifier : String) : List Char :=
  "[ClassVersion(\"1.0\"), FriendlyName(\"Demo\")]\nclass Demo : OMI_BaseResource\n\x7b\n    [".toList ++
    (qualifier.toList ++ ", Description(".toList)

def sinceDescription : List Char := ")] String Name;\n\x7d;\n".toList

theorem opens_untilDescription :
    Opens "description".toList (withoutComments (untilDescription "Key")) := by
  have hkept : withoutComments (untilDescription "Key") = untilDescription "Key" :=
    withoutComments_of_not_mem (by decide)
  have hsuffix : "Description(".toList <:+ ", Description(".toList := by decide
  rw [hkept]
  refine ⟨"Description(".toList, ['('], [], ?_, by decide, by decide, rfl⟩
  exact hsuffix.trans ((List.suffix_append _ _).trans (List.suffix_append _ _))

theorem problems_eq_of_plain_description :
    Opens "description".toList (withoutComments (untilDescription "Key")) ∧
    IsPlain "The name".toList ∧ IsPlain "Path of a file".toList ∧
    problems (withLiteral (untilDescription "Key") "The name".toList sinceDescription) "Demo" =
      problems (withLiteral (untilDescription "Key") "Path of a file".toList sinceDescription)
        "Demo" := by
  have hopens := opens_untilDescription
  have hcontent : IsPlain "The name".toList := isPlain_of_forall_not_mem (by simp)
  have hother : IsPlain "Path of a file".toList := isPlain_of_forall_not_mem (by simp)
  exact ⟨hopens, hcontent, hother,
    problems_eq_of_description hopens hcontent hother sinceDescription "Demo"⟩

/-- A link in a description hides the key of a schema, and a key in it stands for one that is missing. -/
theorem description_changes_problems :
    (problems (withLiteral (untilDescription "Key") "Name".toList sinceDescription) "Demo" = [] ∧
      problems (withLiteral (untilDescription "Key") "http://x".toList sinceDescription) "Demo" =
        [.noKey]) ∧
    (problems (withLiteral (untilDescription "Write") "Name".toList sinceDescription) "Demo" =
        [.noKey] ∧
      problems (withLiteral (untilDescription "Write") "No, key".toList sinceDescription) "Demo" =
        []) := by
  decide +kernel

end DscAudit.Resource.Schema

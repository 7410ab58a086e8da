import DscAudit.Proofs.Resource.Definition
import DscAudit.Proofs.Text.LowerCase

/-!
# Exports and comments

The exports of a module are read off its text as well.  With blanks in place of its comments a module
exports the same functions, unless a comment gets in the way: if it holds an export itself, if the
arguments of an export reach it and it names a function, or if an export looks for the end of a bracket
in it.
-/

namespace DscAudit.Resource.Module

open Text PowerShell

/-- Do the arguments of an export name the function, or all functions of resources, in any case? -/
def mentions (name : String) (arguments : List Char) : Bool :=
  hasInfix "*-targetresource".toList (lower arguments) || hasInfix (lower name.toList) (lower arguments)

theorem exports_eq (s : List Char) (name : String) :
    exports s name = (exportArguments s).any (mentions name) := rfl

theorem afterExport?_eq (s : List Char) :
    afterExport? s = (afterWord? "export-modulemember".toList s).filter fun rest =>
      !rest.head?.any isWordChar := by
  unfold afterExport?
  rcases afterWord? "export-modulemember".toList s with - | - | ⟨c, rest⟩
  · rfl
  · rfl
  · cases hc : isWordChar c <;> simp [Option.filter, hc]

theorem exportArguments_of_some {s behind : List Char} (h : afterExport? s = some behind) :
    exportArguments s = exportHere behind :: exportArguments (behind.dropWhile (· != '\n')) := by
  cases s with
  | nil => cases h
  | cons c s =>
    rw [exportArguments.eq_def]
    dsimp only
    split
    · rename_i heq
      cases h.symm.trans heq
      rfl
    · rename_i heq
      cases h.symm.trans heq

theorem exportArguments_of_none {c : Char} {s : List Char} (h : afterExport? (c :: s) = none) :
    exportArguments (c :: s) = exportArguments s := by
  rw [exportArguments.eq_def]
  dsimp only
  split
  · rename_i heq
    cases h.symm.trans heq
  · rfl

/-! ## Exports within a part of a text -/

/-- A command ends before the mark that closes a comment, and before a line end. -/
theorem afterExport?_append {c : Char} (hc : c = '>' ∨ c = '\n') (s rest : List Char) :
    afterExport? (s ++ c :: rest) = (afterExport? s).map (· ++ c :: rest) := by
  have hspelled : ("export-modulemember".toList.all fun letter =>
      !sameInAnyCase letter '>' && !sameInAnyCase letter '\n') = true := by decide
  have hword : ∀ letter ∈ "export-modulemember".toList, sameInAnyCase letter c = false := by
    intro letter hletter
    have hmarks := List.all_eq_true.1 hspelled letter hletter
    simp only [Bool.and_eq_true, Bool.not_eq_true'] at hmarks
    rcases hc with rfl | rfl
    · exact hmarks.1
    · exact hmarks.2
  have hpart : isWordChar c = false := by
    rcases hc with rfl | rfl <;> decide
  rw [afterExport?_eq, afterExport?_eq, afterWord?_append hword]
  rcases afterWord? "export-modulemember".toList s with - | - | ⟨d, behind⟩
  · rfl
  · simp [Option.filter, hpart]
  · cases hd : isWordChar d <;> simp [Option.filter, hd]

theorem exportArguments_ne_nil {s : List Char} (h : afterExport? s ≠ none) (front : List Char) :
    exportArguments (front ++ s) ≠ [] := by
  induction front with
  | nil =>
    obtain ⟨behind, hbehind⟩ := Option.ne_none_iff_exists'.1 h
    rw [List.nil_append, exportArguments_of_some hbehind]
    exact List.cons_ne_nil _ _
  | cons c front ih =>
    rw [List.cons_append]
    cases hfound : afterExport? (c :: (front ++ s)) with
    | some behind =>
      rw [exportArguments_of_some hfound]
      exact List.cons_ne_nil _ _
    | none =>
      rw [exportArguments_of_none hfound]
      exact ih

/-! ## Blanks in place of comments -/

/-- The command of an export stands before a place, with a text in between. -/
def BehindExport (front rest between : List Char) : Prop :=
  ∃ before line, front = before ++ line ∧ afterExport? (line ++ rest) = some (between ++ rest)

/-- No comment gets in the way of an export: none holds one, none that the arguments of an export reach
names a function, and on the line of an export every round bracket is code. -/
structure ExportsApart (s : List Char) : Prop where
  within : ∀ {before text behind : List Char}, HasComment s before text behind →
    exportArguments text = []
  names : ∀ {before text behind between : List Char}, HasComment s before text behind →
    BehindExport before (text ++ behind) between →
    between.length < (exportHere (between ++ (text ++ behind))).length →
    ∀ name ∈ targetFunctions, mentions name text = false
  brackets : ∀ {kind : LexemeKind} {before head rest behind between : List Char}, kind ≠ .plain →
    s = before ++ (head ++ '(' :: rest ++ behind) →
    Lexemes before (head ++ '(' :: rest ++ behind) → Scans kind (head ++ '(' :: rest) behind →
    BehindExport (before ++ head) ('(' :: rest ++ behind) between → '\n' ∈ between

section Places

variable {whole front s t : List Char}

theorem startsCode_of_export : ∀ letter ∈ "export-modulemember".toList, ∀ c,
    sameInAnyCase letter c = true → StartsCode c :=
  startsCode_of_spelling (by decide)

theorem any_head?_eq (p : Char → Bool) (s : List Char) :
    s.head?.any p = !(s.takeWhile p).isEmpty := by
  cases s with
  | nil => rfl
  | cons c s => cases hc : p c <;> simp [hc]

/-- The command of an export in the code is one also with blanks in place of comments. -/
theorem afterExport?_alike (h : InCode front s t) :
    (afterExport? s = none ∧ afterExport? t = none) ∨
    ∃ before s' t', s = before ++ s' ∧ afterExport? s = some s' ∧ afterExport? t = some t' ∧
      InCode (front ++ before) s' t' := by
  rw [afterExport?_eq, afterExport?_eq]
  rcases h.afterWord? startsCode_of_export with ⟨hs, ht⟩ | ⟨spelled, s', t', hsplit, hs, ht, hrest⟩
  · rw [hs, ht]
    exact .inl ⟨rfl, rfl⟩
  have hhead : s'.head?.any isWordChar = t'.head?.any isWordChar := by
    have hpart (c : Char) (hc : isWordChar c = true) : StartsCode c :=
      startsCode_of_isNamePart c (by rw [isNamePart, hc, Bool.true_or])
    rw [any_head?_eq, any_head?_eq, (hrest.takeWhile hpart).1]
  rw [hs, ht]
  cases hword : s'.head?.any isWordChar with
  | true => exact .inl (by simp [Option.filter, ← hhead, hword])
  | false => exact .inr ⟨spelled, s', t', hsplit, by simp [Option.filter, hword],
      by simp [Option.filter, ← hhead, hword], hrest⟩

/-- No command starts within a comment, nor within blanks in its place. -/
theorem afterExport?_comment (hapart : ExportsApart whole) {before head : List Char}
    (hwhole : whole = before ++ head ++ s) (h : InComment before head s t) :
    afterExport? s = none ∧ afterExport? t = none := by
  obtain ⟨hcomment, hlexemes, hscans, hrest, hblanks, h⟩ := h
  rename_i kind rest blanks s t
  have hsplit : whole = before ++ (head ++ rest ++ s) := by
    rw [hwhole]
    simp only [List.append_assoc]
  have hhas : HasComment whole before (head ++ rest) s := ⟨hsplit, hlexemes, kind, hcomment, hscans⟩
  have hnone : afterExport? rest = none := by
    by_contra hsome
    exact exportArguments_ne_nil hsome head (hapart.within hhas)
  constructor
  · rcases hscans.end_of_isComment hcomment hrest with ⟨-, hend⟩ | ⟨rest, rfl⟩
    · cases s with
      | nil => rwa [List.append_nil]
      | cons c s =>
        rw [afterExport?_append (.inr (hend c rfl)), hnone]
        rfl
    · rw [afterExport?_append (.inl rfl), Option.map_eq_none_iff] at hnone
      rw [List.append_assoc, List.singleton_append, afterExport?_append (.inl rfl), hnone]
      rfl
  · obtain ⟨b, blanks, rfl⟩ : ∃ b more, blanks = b :: more := by
      cases hblanks with
      | nil => exact absurd rfl hrest
      | cons _ _ => exact ⟨_, _, rfl⟩
    have hb := isBlank_of_mem_blanks hblanks b List.mem_cons_self
    rw [afterExport?_eq, List.cons_append,
      afterWord?_eq_none_of_not_startsCode (by decide) startsCode_of_export
        (fun hcode => Bool.noConfusion (hb.symm.trans hcode.1))]
    rfl

/-! ## Arguments -/

/-- A round bracket on the line of an export is code. -/
theorem bracket_alike (hapart : ExportsApart whole) (hwhole : whole = front ++ '(' :: s)
    {between : List Char} (hexport : BehindExport front ('(' :: s) between) (hline : '\n' ∉ between)
    {base : List Char} (h : IsPlace base front ('(' :: s) t) :
    ∃ t', t = '(' :: t' ∧ Blanking s t' ∧ Lexemes (front ++ ['(']) s := by
  have hscans : Scans .plain ['('] s := by
    have hbracket : isBracket '(' = true := by decide
    exact ⟨'(', s, _, rfl, scan_bracket hbracket s, rfl, rfl⟩
  -- nothing but a plain character has a bracket of the line in it
  have hplain {kind : LexemeKind} {before head rest behind : List Char} (hfront : front = before ++ head)
      (hrest : rest ≠ []) (hs : '(' :: s = rest ++ behind)
      (hlexemes : Lexemes before (head ++ rest ++ behind)) (hscans : Scans kind (head ++ rest) behind) :
      kind = .plain := by
    by_contra hkind
    obtain ⟨c, rest, rfl⟩ := List.exists_cons_of_ne_nil hrest
    obtain ⟨rfl, htail⟩ := List.cons.inj hs
    change s = rest ++ behind at htail
    rw [hfront, htail] at hexport hwhole
    refine hline (hapart.brackets hkind ?_ hlexemes hscans hexport)
    rw [hwhole]
    simp only [List.append_assoc, List.cons_append]
  generalize hs : '(' :: s = rest at h hplain hwhole
  rcases h with ⟨-, hcode⟩ | ⟨before, head, hfront, -, hcomment⟩
  · cases hcode with
    | between hlexemes h =>
      subst hs
      obtain ⟨t', rfl, hbehind⟩ := h.behind hscans rfl
      exact ⟨t', rfl, hbehind, hlexemes.snoc hscans⟩
    | within hcode hlexemes hscans' hhead hrest h =>
      obtain rfl := hplain rfl hrest rfl hlexemes hscans'
      obtain ⟨c, hone⟩ := hscans'.exists_of_plain
      have hlength := congrArg List.length hone
      have hpos := List.length_pos_iff.2 hhead
      have hpos' := List.length_pos_iff.2 hrest
      simp only [List.length_append, List.length_singleton] at hlength
      omega
  · obtain ⟨hcomment, hlexemes, hscans', hrest, -, -⟩ := hcomment
    obtain rfl := hplain hfront hrest rfl hlexemes hscans'
    cases hcomment

theorem BehindExport.append {behind between : List Char} (h : BehindExport front (s ++ behind) between) :
    BehindExport (front ++ s) behind (between ++ s) := by
  obtain ⟨before, line, rfl, hfound⟩ := h
  exact ⟨before, line ++ s, by rw [List.append_assoc], by simpa using hfound⟩

theorem argumentsStop_of_le {stop offset : Nat} (h : stop ≤ offset) (s : List Char) :
    argumentsStop stop offset s = stop := by
  rw [argumentsStop.eq_def]
  cases s with
  | nil => rfl
  | cons c s => exact if_neg (Nat.not_lt.2 h)

theorem argumentsStop_bracket {stop offset : Nat} (h : offset < stop) (s : List Char) :
    argumentsStop stop offset ('(' :: s) =
      match PowerShell.closing '(' ')' ⟨offset + 1, s⟩ with
      | .ok close => argumentsStop (max stop (close + 1)) (close + 1) (s.drop (close - offset))
      | .error _ => stop := by
  rw [argumentsStop.eq_def]
  exact (if_pos h).trans (if_pos rfl)

theorem argumentsStop_cons {stop offset : Nat} (h : offset < stop) {c : Char} (hc : c ≠ '(')
    (s : List Char) : argumentsStop stop offset (c :: s) = argumentsStop stop (offset + 1) s := by
  rw [argumentsStop.eq_def]
  exact (if_pos h).trans (if_neg hc)

/-- The arguments of an export reach equally far with blanks in place of comments. -/
theorem argumentsStop_alike (hapart : ExportsApart whole) (hwhole : whole = front ++ s)
    {between : List Char} (hexport : BehindExport front s between) {stop offset : Nat}
    (hline : ∀ u v, s = u ++ v → offset + u.length < stop → '\n' ∉ between ++ u) {base : List Char}
    (h : IsPlace base front s t) : argumentsStop stop offset s = argumentsStop stop offset t := by
  induction hlength : s.length using Nat.strong_induction_on
    generalizing front s t between stop offset base with
  | _ length ih =>
    subst hlength
    by_cases hlt : offset < stop
    · cases s with
      | nil =>
        obtain rfl : t = [] := List.length_eq_zero_iff.1 h.length_eq.symm
        rfl
      | cons c s =>
        by_cases hc : c = '('
        · subst hc
          have hfirst : '\n' ∉ between := by simpa using hline [] ('(' :: s) rfl (by simpa using hlt)
          obtain ⟨t, rfl, hblanking, hlexemes⟩ := bracket_alike hapart hwhole hexport hfirst h
          rw [argumentsStop_bracket hlt, argumentsStop_bracket hlt, ← hblanking.closing_eq]
          cases hfound : PowerShell.closing '(' ')' ⟨offset + 1, s⟩ with
          | error fault => rfl
          | ok close =>
            -- the scan goes on behind the group, on the same line or nowhere
            have hbounds := (closing_eq_iff.1 hfound).bounds
            dsimp only at hbounds ⊢
            have hsplit : '(' :: s =
                ('(' :: s.take (close - offset)) ++ s.drop (close - offset) := by
              rw [List.cons_append, List.take_append_drop]
            have hplace := (InCode.between hlexemes hblanking).isPlace.drop (close - offset)
            rw [List.append_assoc, List.singleton_append] at hplace
            rw [hsplit] at hexport
            refine ih _ ?_ (hwhole.trans ?_) hexport.append (fun u v hu hreach => ?_) hplace rfl
            · rw [List.length_drop, List.length_cons]
              omega
            · rw [List.append_assoc, ← hsplit]
            · rw [List.append_assoc]
              refine hline _ v ?_ ?_
              · rw [hsplit, hu, List.append_assoc]
              · rw [List.length_append, List.length_cons, List.length_take]
                omega
        · obtain ⟨d, t', rfl, hd, htail⟩ := h.tail
          have hd' : d ≠ '(' := by
            rcases hd with rfl | hblank
            · exact hc
            · rintro rfl
              exact absurd hblank.1 (by decide)
          rw [argumentsStop_cons hlt hc, argumentsStop_cons hlt hd']
          have hexport' : BehindExport front ([c] ++ s) between := hexport
          refine ih _ (Nat.lt_succ_self _) (hwhole.trans (List.append_cons ..)) hexport'.append
            (fun u v hu hreach => ?_) htail rfl
          rw [List.append_assoc]
          refine hline (c :: u) v (congrArg (List.cons c) hu) ?_
          rw [List.length_cons]
          omega
    · rw [argumentsStop_of_le (Nat.not_lt.1 hlt), argumentsStop_of_le (Nat.not_lt.1 hlt)]

/-- The arguments of an export are equally long with blanks in place of comments. -/
theorem exists_exportHere_eq_take (hapart : ExportsApart whole) (hwhole : whole = front ++ s)
    (hexport : BehindExport front s []) (h : InCode front s t) :
    ∃ n, exportHere s = s.take n ∧ exportHere t = t.take n := by
  have hstop : argumentsStop (s.takeWhile (· != '\n')).length 0 s =
      argumentsStop (t.takeWhile (· != '\n')).length 0 t := by
    rw [← h.isPlace.length_line]
    refine argumentsStop_alike hapart hwhole hexport (fun u v hs hreach hmem => ?_) h.isPlace
    have hinitial : u <+: s.takeWhile (· != '\n') :=
      List.prefix_of_prefix_length_le ⟨v, hs.symm⟩ (List.takeWhile_prefix _) (by omega)
    simpa using List.mem_takeWhile_imp (hinitial.subset hmem)
  exact ⟨_, rfl, by rw [exportHere, hstop]⟩

/-! ## Names -/

theorem infix_take_iff {part s : List Char} {n : Nat} :
    part <:+: s.take n ↔ ∃ k, part <+: s.drop k ∧ part.length ≤ n - k := by
  constructor
  · intro hinfix
    obtain ⟨suffix, hinitial, hsuffix⟩ := List.infix_iff_prefix_suffix.1 hinfix
    rw [List.suffix_iff_eq_drop.1 hsuffix, List.drop_take, List.prefix_take_iff] at hinitial
    exact ⟨_, hinitial⟩
  · rintro ⟨k, hinitial⟩
    rw [← List.prefix_take_iff, ← List.drop_take] at hinitial
    exact hinitial.isInfix.trans (List.drop_suffix _ _).isInfix

/-- The words that show that the function is exported. -/
def searched (name : String) : List (List Char) :=
  ["*-targetresource".toList, lower name.toList]

theorem mentions_iff {name : String} {arguments : List Char} :
    mentions name arguments = true ↔ ∃ word ∈ searched name, word <:+: lower arguments := by
  simp [mentions, searched, hasInfix_iff]

/-- A word whose spellings hold neither blanks nor marks of comments. -/
def IsSearchable (word : List Char) : Prop :=
  word ≠ [] ∧ ∀ p ∈ word, IsPlainLower p ∧ ∀ c : Char, c.toLower = p → StartsCode c ∧ c ≠ '>'

theorem isSearchable {name : String} (hname : name ∈ targetFunctions) {word : List Char}
    (hword : word ∈ searched name) : IsSearchable word := by
  have hall : (targetFunctions.all fun name => (searched name).all fun word =>
      !word.isEmpty && word.all fun p => decide (p.toNat < 128 ∧ p ∉ ['i', 'k', '>']) &&
        (!isBlank p && !sameInAnyCase p '#' && !sameInAnyCase p '<')) = true := by decide
  have hthis := List.all_eq_true.1 (List.all_eq_true.1 hall name hname) word hword
  rw [Bool.and_eq_true, Bool.not_eq_true', List.isEmpty_eq_false_iff, List.all_eq_true] at hthis
  refine ⟨hthis.1, fun p hp => ?_⟩
  have hmarks := hthis.2 p hp
  rw [Bool.and_eq_true, decide_eq_true_iff] at hmarks
  obtain ⟨⟨hascii, hmem⟩, hspelled⟩ := hmarks
  simp only [List.mem_cons, List.not_mem_nil, or_false, not_or] at hmem
  refine ⟨⟨hascii, by simp [hmem]⟩, fun c hc => ⟨?_, ?_⟩⟩
  · refine startsCode_of_spelling (by simpa using hspelled) p (List.mem_singleton_self p) c ?_
    simp [sameInAnyCase, hc]
  · rintro rfl
    exact hmem.2.2 hc.symm

/-- The arguments of an export name the same functions with blanks in place of comments. -/
theorem mentions_alike (hapart : ExportsApart whole) (hwhole : whole = front ++ s)
    (hexport : BehindExport front s []) (h : InCode front s t) {name : String}
    (hname : name ∈ targetFunctions) :
    mentions name (exportHere s) = mentions name (exportHere t) := by
  obtain ⟨n, hargs, hargs'⟩ := exists_exportHere_eq_take hapart hwhole hexport h
  rw [Bool.eq_iff_iff, mentions_iff, mentions_iff, hargs, hargs']
  refine exists_congr fun word => and_congr_right fun hword => ?_
  obtain ⟨hne, hletters⟩ := isSearchable hname hword
  have hplain : ∀ p ∈ word, IsPlainLower p := fun p hp => (hletters p hp).1
  rw [infix_lower_iff hne hplain, infix_lower_iff hne hplain]
  refine exists_congr fun spelled => and_congr_left fun hlower => ?_
  have hspelled : ∀ c ∈ spelled, StartsCode c ∧ c ≠ '>' := fun c hc =>
    (hletters c.toLower (hlower ▸ List.mem_map_of_mem hc)).2 c rfl
  have hspelled_ne : spelled ≠ [] := by
    rintro rfl
    exact hne hlower.symm
  rw [infix_take_iff, infix_take_iff]
  refine exists_congr fun k => and_congr_left fun hlength => ?_
  obtain ⟨hback, hforth⟩ := (h.isPlace.drop k).prefix_or_comment hspelled_ne hspelled
  refine ⟨fun hs => (hforth hs).resolve_right ?_, hback⟩
  rintro ⟨before, text, behind, ⟨between, rfl⟩, hreach, hcomment, hinfix⟩
  -- a comment that the arguments reach would name the function
  rw [List.append_assoc, List.take_append_drop, ← hwhole] at hcomment
  have hs : s = between ++ (text ++ behind) :=
    List.append_cancel_left (hwhole.symm.trans (hcomment.split.trans (List.append_assoc ..)))
  have hexport' : BehindExport (front ++ between) (text ++ behind) between := by
    rw [hs] at hexport
    exact hexport.append
  have hlonger : between.length < (exportHere (between ++ (text ++ behind))).length := by
    have hbefore := hreach.length_le
    have hspelled_pos := List.length_pos_iff.2 hspelled_ne
    have hwithin := hinfix.length_le
    have hsum := congrArg List.length hs
    rw [← hs, hargs, List.length_take]
    simp only [List.length_append, List.length_take] at hbefore hsum
    omega
  have hnone := hapart.names hcomment hexport' hlonger name hname
  rw [mentions_iff.2 ⟨word, hword, (infix_lower_iff hne hplain).2 ⟨spelled, hinfix, hlower⟩⟩] at hnone
  cases hnone

/-- With blanks in place of its comments, a text exports the same functions, if no comment gets in the
way. -/
theorem exportArguments_alike (hapart : ExportsApart whole) (hwhole : whole = front ++ s)
    (h : IsPlace [] front s t) {name : String} (hname : name ∈ targetFunctions) :
    (exportArguments s).any (mentions name) = (exportArguments t).any (mentions name) := by
  induction hlength : s.length using Nat.strong_induction_on generalizing front s t with
  | _ length ih =>
    subst hlength
    cases s with
    | nil =>
      obtain rfl : t = [] := List.length_eq_zero_iff.1 h.length_eq.symm
      rfl
    | cons c s =>
      have halike : (afterExport? (c :: s) = none ∧ afterExport? t = none) ∨
          ∃ before s' t', c :: s = before ++ s' ∧ afterExport? (c :: s) = some s' ∧
            afterExport? t = some t' ∧ InCode (front ++ before) s' t' := by
        rcases h with ⟨-, hcode⟩ | ⟨before, head, rfl, -, hcomment⟩
        · exact afterExport?_alike hcode
        · exact .inl (afterExport?_comment hapart hwhole hcomment)
      rcases halike with ⟨hs, ht⟩ | ⟨before, s', t', heq, hs, ht, hrest⟩
      · obtain ⟨d, t', rfl, -, htail⟩ := h.tail
        rw [exportArguments_of_none hs, exportArguments_of_none ht]
        exact ih _ (Nat.lt_succ_self _) (hwhole.trans (List.append_cons ..)) htail rfl
      · have hwhole' : whole = front ++ before ++ s' := by rw [hwhole, heq, List.append_assoc]
        have hexport : BehindExport (front ++ before) s' [] := ⟨front, before, rfl, heq ▸ hs⟩
        rw [exportArguments_of_some hs, exportArguments_of_some ht, List.any_cons, List.any_cons,
          mentions_alike hapart hwhole' hexport hrest hname]
        have hshorter : (s'.dropWhile (· != '\n')).length < (c :: s).length :=
          (List.dropWhile_sublist _).length_le.trans_lt (afterExport?_length hs)
        have hline : whole = front ++ before ++ s'.takeWhile (· != '\n') ++ s'.dropWhile (· != '\n') := by
          rw [List.append_assoc, List.takeWhile_append_dropWhile]
          exact hwhole'
        have hplace : IsPlace [] (front ++ before) s' t' := .inl ⟨List.nil_prefix, hrest⟩
        rw [ih _ hshorter hline hplace.nextLine rfl]

end Places

end DscAudit.Resource.Module

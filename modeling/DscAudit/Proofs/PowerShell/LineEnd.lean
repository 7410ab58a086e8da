import DscAudit.Proofs.PowerShell.Fault
import DscAudit.Proofs.Text.Line

/-!
# Scripts with carriage returns

A script and the same script with a carriage return in front of each line feed are scanned alike.
-/

namespace DscAudit.PowerShell

open Text (withReturns moved withReturns_cons withReturns_newline moved_cons moved_newline)

/-! ## Readings that agree -/

/-- Both readings fail, in ways that correspond, or what they find corresponds. -/
def Agree {ε ε' α β : Type} (failed : ε → ε' → Prop) (good : α → β → Prop) :
    Except ε α → Except ε' β → Prop
  | .error fault, .error fault' => failed fault fault'
  | .ok found, .ok found' => good found found'
  | _, _ => False

theorem Agree.bind {ε ε' α α' β β' : Type} {failed : ε → ε' → Prop} {good : α → β → Prop}
    {good' : α' → β' → Prop} {read : Except ε α} {read' : Except ε' β} {further : α → Except ε α'}
    {further' : β → Except ε' β'} (h : Agree failed good read read')
    (hfurther : ∀ found found', read = .ok found → read' = .ok found' → good found found' →
      Agree failed good' (further found) (further' found')) :
    Agree failed good' (read >>= further) (read' >>= further') := by
  cases read with
  | error fault =>
    cases read' with
    | error fault' => exact h
    | ok found' => exact h.elim
  | ok found =>
    cases read' with
    | error fault' => exact h.elim
    | ok found' => exact hfurther found found' rfl rfl h

theorem Agree.map {ε ε' α α' β β' : Type} {failed : ε → ε' → Prop} {good : α → β → Prop}
    {good' : α' → β' → Prop} {read : Except ε α} {read' : Except ε' β} {f : α → α'} {f' : β → β'}
    (h : Agree failed good read read')
    (hgood : ∀ found found', good found found' → good' (f found) (f' found')) :
    Agree failed good' (read.map f) (read'.map f') := by
  cases read with
  | error fault =>
    cases read' with
    | error fault' => exact h
    | ok found' => exact h.elim
  | ok found =>
    cases read' with
    | error fault' => exact h.elim
    | ok found' => exact hgood found found' h

/-! ## Lexemes -/

namespace Lexeme

theorem blockCommentLength?_withReturns (s : List Char) :
    blockCommentLength? (withReturns s) = (blockCommentLength? s).map (moved s) := by
  fun_induction blockCommentLength? s with
  | case1 => rfl
  | case2 rest => rfl
  | case3 c rest hopen ih =>
    by_cases hc : c = '\n'
    · subst hc
      rw [withReturns_newline]
      simp [blockCommentLength?, ih, Function.comp_def]
    · rw [withReturns_cons hc, blockCommentLength?, ih]
      · simp [Function.comp_def, moved_cons hc]
      · intro more hhash hclose
        obtain ⟨rest', rfl, -⟩ := Text.exists_of_withReturns hclose (by decide)
        exact hopen rest' hhash rfl

theorem singleQuotedLength?_withReturns (s : List Char) :
    singleQuotedLength? (withReturns s) = (singleQuotedLength? s).map (moved s) := by
  fun_induction singleQuotedLength? s with
  | case1 => rfl
  | case2 rest ih =>
    rw [withReturns_cons (by decide), withReturns_cons (by decide), singleQuotedLength?, ih]
    simp [Function.comp_def, moved_cons]
  | case3 rest hsingle =>
    rw [withReturns_cons (by decide), singleQuotedLength?]
    · rfl
    · intro more htwice
      obtain ⟨rest', rfl, -⟩ := Text.exists_of_withReturns htwice (by decide)
      exact hsingle rest' rfl
  | case4 c rest htwice hquote ih =>
    by_cases hc : c = '\n'
    · subst hc
      rw [withReturns_newline]
      simp [singleQuotedLength?, ih, Function.comp_def]
    · rw [withReturns_cons hc, singleQuotedLength?, ih]
      · simp [Function.comp_def, moved_cons hc]
      · intro more hquoted htwo
        exact hquote hquoted
      · exact hquote

theorem doubleQuotedLength?_withReturns (s : List Char) :
    doubleQuotedLength? (withReturns s) = (doubleQuotedLength? s).map (moved s) := by
  fun_induction doubleQuotedLength? s with
  | case1 => rfl
  | case2 c rest ih =>
    -- the carriage return is escaped, and the line feed behind it stands for itself
    by_cases hc : c = '\n'
    · subst hc
      rw [withReturns_cons (by decide), withReturns_newline, doubleQuotedLength?,
        doubleQuotedLength?, ih]
      · simp [Function.comp_def, moved_cons]
      · simp
      · simp
      · simp
    · rw [withReturns_cons (by decide), withReturns_cons hc, doubleQuotedLength?, ih]
      simp [Function.comp_def, moved_cons, hc]
  | case3 rest ih =>
    rw [withReturns_cons (by decide), withReturns_cons (by decide), doubleQuotedLength?, ih]
    simp [Function.comp_def, moved_cons]
  | case4 rest hsingle =>
    rw [withReturns_cons (by decide), doubleQuotedLength?]
    · rfl
    · intro more htwice
      obtain ⟨rest', rfl, -⟩ := Text.exists_of_withReturns htwice (by decide)
      exact hsingle rest' rfl
  | case5 c rest hescape htwice hquote ih =>
    by_cases hc : c = '\n'
    · subst hc
      rw [withReturns_newline]
      simp [doubleQuotedLength?, ih, Function.comp_def]
    · rw [withReturns_cons hc, doubleQuotedLength?, ih]
      · simp [Function.comp_def, moved_cons hc]
      · intro d more hbacktick hmore
        cases rest with
        | nil => cases hmore
        | cons e rest => exact hescape e rest hbacktick rfl
      · intro more hquoted htwo
        exact hquote hquoted
      · exact hquote

theorem opensHereString_withReturns (s : List Char) :
    opensHereString (withReturns s) = opensHereString s := by
  rw [opensHereString, opensHereString, Text.dropWhile_withReturns rfl]
  cases s.dropWhile isIndent with
  | nil => rfl
  | cons c s =>
    by_cases hc : c = '\n'
    · subst hc
      rfl
    · rw [withReturns_cons hc]

section HereStrings

variable {quote : Char}

theorem closesHereString_withReturns (hquote : quote = '\x27' ∨ quote = '"') (s : List Char) :
    closesHereString quote (withReturns s) = closesHereString quote s := by
  rw [closesHereString, closesHereString, Text.dropWhile_withReturns rfl,
    Text.isPrefixOf_withReturns]
  rcases hquote with rfl | rfl <;> simp

theorem hereStringLength?_withReturns (hquote : quote = '\x27' ∨ quote = '"') (s : List Char) :
    hereStringLength? quote (withReturns s) = (hereStringLength? quote s).map (moved s) := by
  have hindented : isIndent quote = false := by rcases hquote with rfl | rfl <;> decide
  have hfeed : quote ≠ '\n' := by rcases hquote with rfl | rfl <;> decide
  fun_induction hereStringLength? quote s with
  | case1 => rfl
  | case2 c rest hcloses =>
    rw [Bool.and_eq_true, beq_iff_eq] at hcloses
    obtain ⟨rfl, hcloses⟩ := hcloses
    have hcloses' := (closesHereString_withReturns hquote rest).trans hcloses
    obtain ⟨indent, behind, heq, hindent⟩ := (closesHereString_iff hindented).1 hcloses
    obtain ⟨-, rfl⟩ := List.cons.inj heq
    have hplain : '\n' ∉ indent := fun hmem => absurd (hindent _ hmem) (by decide)
    have htake : (indent ++ quote :: '@' :: behind).takeWhile isIndent = indent := by
      rw [List.takeWhile_append_of_pos hindent]
      simp [hindented]
    have hmark : '\n' ∉ indent ++ [quote, '@'] := by simp [hplain, Ne.symm hfeed]
    have hmoved := Text.moved_of_not_mem hmark behind
    rw [List.append_assoc, List.length_append] at hmoved
    simp only [List.cons_append, List.nil_append, List.length_cons, List.length_nil, Nat.zero_add]
      at hmoved
    rw [withReturns_newline, hereStringLength?, if_neg (by simp), hereStringLength?,
      if_pos (by rw [hcloses']; rfl), Text.takeWhile_withReturns rfl, htake,
      Text.withReturns_of_not_mem hplain, Option.map_some, Option.map_some, moved_newline, hmoved]
  | case3 c rest hopen ih =>
    by_cases hc : c = '\n'
    · subst hc
      rw [withReturns_newline, hereStringLength?, if_neg (by simp), hereStringLength?,
        if_neg (by rw [closesHereString_withReturns hquote]; exact hopen), ih]
      simp [Function.comp_def]
    · rw [withReturns_cons hc, hereStringLength?, if_neg (by simp [hc]), ih]
      simp [Function.comp_def, moved_cons hc]

end HereStrings

/-- The lexeme that a text starts with, and the one that the text with carriage returns starts with.  Both
end at the same place, but for a comment, which takes the carriage return in front of its line feed, and for
an escaped line feed, of which it is the carriage return that is escaped. -/
structure Follows {c : Char} {rest rest' : List Char} (lexeme : Lexeme (c :: rest))
    (lexeme' : Lexeme (c :: rest')) : Prop where
  kind : lexeme'.kind = lexeme.kind
  length : lexeme'.length = moved (c :: rest) lexeme.length ∨
    (lexeme.kind = .lineComment ∧ (∃ more, (c :: rest).drop lexeme.length = '\n' :: more) ∧
      lexeme'.length = moved (c :: rest) lexeme.length + 1) ∨
    c = '\x60' ∧ (∃ more, rest = '\n' :: more) ∧ lexeme.length = 2 ∧ lexeme'.length = 2

theorem ofLength?_withReturns {c : Char} {rest rest' s : List Char} {kind : LexemeKind}
    {cause : Cause} {n? n?' : Option Nat} (front : List Char) (pos : 0 < front.length)
    {le : ∀ n, n? = some n → front.length + n ≤ (c :: rest).length}
    {le' : ∀ n, n?' = some n → front.length + n ≤ (c :: rest').length}
    (hsplit : c :: rest = front ++ s) (hfront : '\n' ∉ front) (h : n?' = n?.map (moved s)) :
    Agree (fun _ _ => True) Follows (ofLength? kind cause (c :: rest) front.length n? pos le)
      (ofLength? kind cause (c :: rest') front.length n?' pos le') := by
  subst h
  cases n? with
  | none => trivial
  | some n =>
    refine ⟨rfl, .inl ?_⟩
    have hdrop : (c :: rest).drop front.length = s := by rw [hsplit, List.drop_left]
    have hmoved := Text.moved_of_not_mem hfront s
    rw [← hsplit] at hmoved
    rw [Text.moved_add hdrop, hmoved]

/-- A line goes on to the line feed, and takes the carriage return in front of it. -/
theorem exists_line (s : List Char) : ∃ line behind, s = line ++ behind ∧ '\n' ∉ line ∧
    s.takeWhile (· != '\n') = line ∧
    (behind = [] ∧ (withReturns s).takeWhile (· != '\n') = line ∨
      (∃ more, behind = '\n' :: more) ∧ (withReturns s).takeWhile (· != '\n') = line ++ ['\r']) := by
  have hsplit := List.takeWhile_append_dropWhile (p := (· != '\n')) (l := s)
  have hline : ∀ c ∈ s.takeWhile (· != '\n'), (c != '\n') = true := fun c => List.mem_takeWhile_imp
  have hfeed : '\n' ∉ s.takeWhile (· != '\n') := fun hmem => by simpa using hline _ hmem
  have hbehind := List.head?_dropWhile_not (· != '\n') s
  have hwhole := congrArg withReturns hsplit
  rw [Text.withReturns_append, Text.withReturns_of_not_mem hfeed] at hwhole
  refine ⟨_, _, hsplit.symm, hfeed, rfl, ?_⟩
  rw [← hwhole, List.takeWhile_append_of_pos hline]
  cases hrest : s.dropWhile (· != '\n') with
  | nil => exact .inl ⟨rfl, List.append_nil _⟩
  | cons c more =>
    rw [hrest] at hbehind
    obtain rfl : c = '\n' := by simpa using hbehind
    exact .inr ⟨⟨more, rfl⟩, rfl⟩

/-- A character that starts no longer lexeme is one of its own. -/
theorem scan_alone {c : Char} {rest : List Char} (hc : c ∉ ['#', '\x60', '\x27', '"'])
    (hless : ∀ more, c = '<' → rest ≠ '#' :: more) (hat : c = '@' → rest = []) :
    scan c rest = .ok ⟨.plain, 1, Nat.one_pos, by simp⟩ := by
  simp only [List.mem_cons, List.not_mem_nil, or_false, not_or] at hc
  rw [scan.eq_def]
  split
  · exact absurd rfl (hless _ rfl)
  · exact absurd rfl hc.1
  · exact absurd rfl hc.2.1
  · cases hat rfl
  · exact absurd rfl hc.2.2.1
  · exact absurd rfl hc.2.2.2
  · rfl

theorem scan_lineComment_withReturns (rest : List Char) :
    Agree (fun _ _ => True) Follows (scan '#' rest) (scan '#' (withReturns rest)) := by
  refine ⟨rfl, ?_⟩
  dsimp only
  obtain ⟨line, behind, rfl, hfeed, hline, hbehind⟩ := exists_line rest
  have hmoved : moved ('#' :: (line ++ behind)) (1 + line.length) = 1 + line.length := by
    have hfront : '\n' ∉ '#' :: line := by simp [hfeed]
    have hlength := Text.moved_of_not_mem hfront behind
    rw [List.length_cons, Nat.add_comm] at hlength
    exact hlength
  rw [hline, hmoved]
  rcases hbehind with ⟨rfl, hreturned⟩ | ⟨⟨more, rfl⟩, hreturned⟩
  · exact .inl (by rw [hreturned])
  · refine .inr (.inl ⟨rfl, ⟨more, ?_⟩, ?_⟩)
    · rw [Nat.add_comm, List.drop_succ_cons, List.drop_left]
    · rw [hreturned, List.length_append, Nat.add_assoc]
      rfl

theorem scan_escape_withReturns (rest : List Char) :
    Agree (fun _ _ => True) Follows (scan '\x60' rest) (scan '\x60' (withReturns rest)) := by
  refine ⟨rfl, ?_⟩
  dsimp only
  cases rest with
  | nil => exact .inl rfl
  | cons d more =>
    have hlength : min 2 ((d :: more).length + 1) = 2 := by simp
    rw [hlength]
    by_cases hd : d = '\n'
    · subst hd
      exact .inr (.inr ⟨rfl, ⟨more, rfl⟩, rfl, by simp⟩)
    · rw [withReturns_cons hd]
      exact .inl (by simp [moved_cons, hd])

theorem scan_atSign_withReturns (quote : Char) (rest : List Char) :
    Agree (fun _ _ => True) Follows (scan '@' (quote :: rest))
      (scan '@' (withReturns (quote :: rest))) := by
  by_cases hquote : quote = '\n'
  · subst hquote
    exact ⟨rfl, .inl rfl⟩
  rw [withReturns_cons hquote, scan.eq_def '@' (quote :: rest),
    scan.eq_def '@' (quote :: withReturns rest)]
  simp only [opensHereString_withReturns]
  by_cases hopens : ((quote == '\x27' || quote == '"') && opensHereString rest) = true
  · rw [if_pos hopens, if_pos hopens]
    rw [Bool.and_eq_true, Bool.or_eq_true, beq_iff_eq, beq_iff_eq] at hopens
    exact ofLength?_withReturns ['@', quote] Nat.two_pos rfl (by simp [Ne.symm hquote])
      (hereStringLength?_withReturns hopens.1 rest)
  · rw [if_neg hopens, if_neg hopens]
    exact ⟨rfl, .inl rfl⟩

theorem scan_withReturns {c : Char} (hc : c ≠ '\n') (rest : List Char) :
    Agree (fun _ _ => True) Follows (scan c rest) (scan c (withReturns rest)) := by
  rw [scan.eq_def c rest]
  split
  · next rest =>
    exact ofLength?_withReturns ['<', '#'] Nat.two_pos rfl (by decide)
      (blockCommentLength?_withReturns rest)
  · exact scan_lineComment_withReturns _
  · exact scan_escape_withReturns _
  · exact scan_atSign_withReturns _ _
  · exact ofLength?_withReturns ['\x27'] Nat.one_pos rfl (by decide)
      (singleQuotedLength?_withReturns _)
  · exact ofLength?_withReturns ['"'] Nat.one_pos rfl (by decide)
      (doubleQuotedLength?_withReturns _)
  · next hline hescape hsingle hdouble hcomment hstring =>
    rw [scan_alone]
    · exact ⟨rfl, .inl (moved_cons hc rest 0).symm⟩
    · simp only [List.mem_cons, List.not_mem_nil, or_false, not_or]
      exact ⟨hline, hescape, hsingle, hdouble⟩
    · intro more hless hrest
      obtain ⟨rest', rfl, -⟩ := Text.exists_of_withReturns hrest (by decide)
      exact hcomment rest' hless rfl
    · intro hat
      cases rest with
      | nil => rfl
      | cons quote more => exact (hstring quote more hat rfl).elim

end Lexeme

/-! ## Places -/

/-- The place of the text with carriage returns where a place of the text moves to. -/
def Cursor.relocated (text : List Char) (cursor : Cursor) : Cursor :=
  ⟨Text.moved text cursor.offset, withReturns cursor.rest⟩

theorem Cursor.relocated_cons (text : List Char) (offset : Nat) {c : Char} (hc : c ≠ '\n')
    (rest : List Char) :
    Cursor.relocated text ⟨offset, c :: rest⟩ = ⟨Text.moved text offset, c :: withReturns rest⟩ := by
  rw [← withReturns_cons hc]
  rfl

/-- The second fault lies where the first one moves to. -/
def FaultMoves (text : List Char) (fault fault' : Fault) : Prop :=
  fault'.offset = moved text fault.offset

/-- Where the scanners of the two texts stand after a lexeme: at the same place, or around a carriage return
that only one of them has read, before its line feed or behind it. -/
inductive Lands (text : List Char) : Cursor → Cursor → Prop
  | same {place : Cursor} (hat : place.At text) : Lands text place (place.relocated text)
  | before {offset : Nat} {more : List Char} (hat : Cursor.At text ⟨offset, '\n' :: more⟩) :
      Lands text ⟨offset, '\n' :: more⟩ ⟨moved text offset + 1, '\n' :: withReturns more⟩
  | behind {offset : Nat} {more : List Char} (hat : Cursor.At text ⟨offset, '\n' :: more⟩) :
      Lands text ⟨offset + 1, more⟩ ⟨moved text offset + 1, '\n' :: withReturns more⟩

section

variable {text s rest : List Char} {offset : Nat} {c : Char}

theorem Cursor.At.moved_succ (hat : Cursor.At text ⟨offset, c :: rest⟩) (hc : c ≠ '\n') :
    moved text (offset + 1) = moved text offset + 1 := Text.moved_succ hat.symm hc

theorem Cursor.At.moved_line (hat : Cursor.At text ⟨offset, '\n' :: rest⟩) :
    moved text (offset + 1) = moved text offset + 2 := Text.moved_succ_newline hat.symm

theorem Lexeme.Follows.lands {lexeme : Lexeme (c :: rest)} {lexeme' : Lexeme (c :: withReturns rest)}
    (h : lexeme.Follows lexeme') (hat : Cursor.At text ⟨offset, c :: rest⟩) (hc : c ≠ '\n') :
    Lands text ⟨offset + lexeme.length, (c :: rest).drop lexeme.length⟩
      ⟨moved text offset + lexeme'.length, (c :: withReturns rest).drop lexeme'.length⟩ := by
  have hbehind := hat.drop lexeme.length
  have hmoved := Text.moved_add hat.symm lexeme.length
  have hdrop := Text.drop_moved (c :: rest) lexeme.length
  rw [withReturns_cons hc] at hdrop
  rcases h.length with hlength | ⟨-, ⟨more, hmore⟩, hlength⟩ | ⟨rfl, ⟨more, rfl⟩, hlength, hlength'⟩
  · rw [hlength, ← hmoved, hdrop]
    exact .same hbehind
  · rw [hmore] at hbehind hdrop ⊢
    rw [hlength, ← Nat.add_assoc, ← hmoved, ← List.drop_drop, hdrop]
    exact .before hbehind
  · rw [hlength, hlength']
    have hnext := hat.cons.2.2
    have hsucc := hat.moved_succ hc
    rw [show moved text offset + 2 = moved text (offset + 1) + 1 by rw [hsucc]]
    exact .behind hnext

theorem scanAt_moved (text : List Char) (offset : Nat) (hc : c ≠ '\n') :
    Agree (FaultMoves text) Lexeme.Follows (Lexeme.scanAt offset c rest)
      (Lexeme.scanAt (moved text offset) c (withReturns rest)) := by
  have hscan := Lexeme.scan_withReturns hc rest
  rw [Lexeme.scanAt, Lexeme.scanAt]
  cases hleft : Lexeme.scan c rest with
  | error cause =>
    rw [hleft] at hscan
    cases hright : Lexeme.scan c (withReturns rest) with
    | error cause' => exact rfl
    | ok lexeme' =>
      rw [hright] at hscan
      exact hscan.elim
  | ok lexeme =>
    rw [hleft] at hscan
    cases hright : Lexeme.scan c (withReturns rest) with
    | error cause' =>
      rw [hright] at hscan
      exact hscan.elim
    | ok lexeme' =>
      rw [hright] at hscan
      exact hscan

/-- A reader that passes over line ends reads the same from both places. -/
theorem Lands.read_eq {α : Type} {place place' : Cursor} (h : Lands text place place')
    {read : Nat → List Char → α}
    (hread : ∀ offset c s, isLineEnd c = true → read offset (c :: s) = read (offset + 1) s) :
    read place'.offset place'.rest =
      read (moved text place.offset) (withReturns place.rest) := by
  cases h with
  | same hat => rfl
  | before =>
    rw [withReturns_newline, hread _ '\r' _ rfl]
  | @behind offset more hat =>
    rw [hat.moved_line, hread _ '\n' _ rfl]

theorem plain_of_isLineEnd (h : isLineEnd c = true) :
    c ∉ ['<', '#', '\x60', '@', '\x27', '"'] ∧ isBracket c = false ∧ Text.isBlank c = true := by
  rw [isLineEnd, Bool.or_eq_true, beq_iff_eq, beq_iff_eq] at h
  rcases h with rfl | rfl <;> decide

end

/-! ## Brackets -/

section

variable {text s : List Char} {offset : Nat} {expected : Char} {outer : List Char}

theorem closingFrom_lineEnd (offset : Nat) (c : Char) (s : List Char) (h : isLineEnd c = true) :
    closingFrom expected outer offset (c :: s) = closingFrom expected outer (offset + 1) s := by
  obtain ⟨hplain, hbracket, -⟩ := plain_of_isLineEnd h
  exact closingFrom_lexeme (scan_plain hplain s) fun _ => hbracket

theorem closingFrom_moved (hat : Cursor.At text ⟨offset, s⟩) :
    Agree (FaultMoves text) (fun found found' => found' = found.map (moved text))
      (closingFrom expected outer offset s)
      (closingFrom expected outer (moved text offset) (withReturns s)) := by
  induction expected, outer, offset, s using closingFrom.induct with
  | case1 expected outer offset => 
    rw [closingFrom, Text.withReturns_nil, closingFrom]
    rfl
  | case2 expected outer offset c rest ihOpener ihCloser ihPlain ihLexeme =>
    obtain ⟨-, hlt, hnext⟩ := hat.cons
    by_cases hc : c = '\n'
    · subst hc
      rw [closingFrom_lineEnd offset _ rest rfl, withReturns_newline, closingFrom_lineEnd _ _ _ rfl,
        closingFrom_lineEnd _ _ _ rfl, Nat.add_assoc, ← hat.moved_line]
      exact ihPlain ⟨.plain, 1, Nat.one_pos, by simp⟩ hnext
    rw [withReturns_cons hc, closingFrom.eq_def, closingFrom.eq_def expected outer (moved text offset)]
    refine (scanAt_moved text offset hc).bind fun lexeme lexeme' _ _ hfollows => ?_
    rw [← hat.moved_succ hc]
    dsimp only
    rw [hfollows.kind]
    by_cases hkind : lexeme.kind = .plain
    · rw [if_pos hkind, if_pos hkind]
      cases hopener : closer? c with
      | some inner => exact ihOpener lexeme inner hnext
      | none =>
        dsimp only
        cases isCloser c with
        | false => exact ihPlain lexeme hnext
        | true =>
          by_cases hexpected : c = expected
          · simp only [if_pos hexpected, if_true]
            cases outer with
            | nil => exact rfl
            | cons next outer => exact ihCloser lexeme next outer hnext
          · simp only [if_neg hexpected, if_true]
            exact rfl
    · rw [if_neg hkind, if_neg hkind, (hfollows.lands hat hc).read_eq closingFrom_lineEnd]
      exact ihLexeme lexeme (hat.drop _)

variable {opening : Char} {inside : List Char} {close stop : Nat}

theorem closing_moved (opening expected : Char) (hat : Cursor.At text ⟨offset + 1, inside⟩)
    (hsucc : moved text (offset + 1) = moved text offset + 1) :
    Agree (FaultMoves text) (fun close close' => close' = moved text close)
      (closing opening expected ⟨offset + 1, inside⟩)
      (closing opening expected ⟨moved text offset + 1, withReturns inside⟩) := by
  have hfrom := @closingFrom_moved text inside (offset + 1) expected [] hat
  rw [hsucc] at hfrom
  refine hfrom.bind fun found found' _ _ hfound => ?_
  subst hfound
  cases found with
  | none => exact rfl
  | some close => exact rfl

/-- Behind the closing bracket both texts go on from the same place. -/
theorem Cursor.At.behind_moved (hat : Cursor.At text ⟨offset + 1, inside⟩)
    (hsucc : moved text (offset + 1) = moved text offset + 1) (hexpected : expected ≠ '\n')
    (hclose : closing opening expected ⟨offset + 1, inside⟩ = .ok close) :
    Cursor.At text ⟨close + 1, inside.drop (close - offset)⟩ ∧ close < text.length ∧
      moved text (close + 1) = moved text close + 1 ∧
      (withReturns inside).drop (moved text close - moved text offset) =
        withReturns (inside.drop (close - offset)) := by
  have hcloses : Closes expected [] (offset + 1) inside close := closing_eq_iff.1 hclose
  have hle := hcloses.bounds.1
  obtain ⟨behind, hrest⟩ := List.head?_eq_some_iff.1 hcloses.head?
  have hbehind : inside.drop (close - (offset + 1)) = expected :: behind := hrest
  have hplace : Cursor.At text ⟨close, expected :: behind⟩ := by
    rw [← hbehind]
    exact hat.walk hcloses.walk
  obtain ⟨-, hlt, hnext⟩ := hplace.cons
  have hmoved := hplace.moved_succ hexpected
  have hcount : close - offset = close + 1 - (offset + 1) := by omega
  have hcount' : moved text close - moved text offset =
      moved text (close + 1) - moved text (offset + 1) := by omega
  have hdrop : inside.drop (close - offset) = behind := by
    have hone : close - offset = close - (offset + 1) + 1 := by omega
    rw [hone, ← List.drop_drop, hbehind]
    rfl
  refine ⟨by rw [hdrop]; exact hnext, hlt, hmoved, ?_⟩
  rw [hcount', Text.moved_sub hat.symm (Nat.succ_le_succ (by omega)), Text.drop_moved, ← hcount]

theorem findArguments_lineEnd (offset : Nat) (c : Char) (s : List Char) (h : isLineEnd c = true) :
    findArguments stop offset (c :: s) = findArguments stop (offset + 1) s := by
  by_cases hlt : offset < stop
  · refine findArguments_other ?_ ?_ hlt
    · rintro rfl
      cases h
    · rintro rfl
      cases h
  · rw [findArguments_past (Nat.not_lt.1 hlt), findArguments_past (by omega)]

theorem findArguments_moved (hstop : stop ≤ text.length) (hat : Cursor.At text ⟨offset, s⟩) :
    Agree (FaultMoves text)
      (fun found found' => found' = found.map (·.relocated text) ∧
        ∀ opening ∈ found, opening.At text ∧ ∃ inside, opening.rest = '(' :: inside)
      (findArguments stop offset s)
      (findArguments (moved text stop) (moved text offset) (withReturns s)) := by
  induction offset, s using findArguments.induct stop with
  | case1 offset =>
    rw [findArguments, Text.withReturns_nil, findArguments]
    exact ⟨rfl, by simp⟩
  | case2 offset rest hlt =>
    rw [withReturns_cons (by decide), findArguments_paren hlt,
      findArguments_paren ((Text.moved_lt_iff hstop).2 hlt)]
    refine ⟨congrArg some (Cursor.relocated_cons text offset (by decide) rest).symm, ?_⟩
    rintro opening ⟨⟩
    exact ⟨hat, rest, rfl⟩
  | case3 offset rest hlt _ ih =>
    have hsucc := hat.moved_succ (by decide)
    rw [withReturns_cons (by decide), findArguments_square hlt,
      findArguments_square ((Text.moved_lt_iff hstop).2 hlt)]
    refine (closing_moved _ _ hat.cons.2.2 hsucc).bind fun close close' hclose _ hmoved => ?_
    obtain ⟨hbehind, -, hplace, hdrop⟩ := hat.cons.2.2.behind_moved hsucc (by decide) hclose
    rw [hmoved, hdrop, ← hplace]
    exact ih close hbehind
  | case4 offset c rest hlt hround hsquare ih =>
    have hnext := hat.cons.2.2
    rw [findArguments_other hround hsquare hlt]
    by_cases hc : c = '\n'
    · subst hc
      rw [withReturns_newline, findArguments_lineEnd _ _ _ rfl, findArguments_lineEnd _ _ _ rfl,
        Nat.add_assoc, ← hat.moved_line]
      exact ih hnext
    · rw [withReturns_cons hc, findArguments_other hround hsquare ((Text.moved_lt_iff hstop).2 hlt),
        ← hat.moved_succ hc]
      exact ih hnext
  | case5 offset c rest hnot =>
    rw [findArguments_past (Nat.not_lt.1 hnot),
      findArguments_past (Text.moved_mono text (Nat.not_lt.1 hnot))]
    exact ⟨rfl, by simp⟩

/-- The part of the text with carriage returns where a part of the text moves to. -/
def Part.relocated (text : List Char) (part : Part) : Part :=
  ⟨part.start.relocated text, moved text part.stop⟩

/-- The part starts and ends in the text. -/
def Part.In (text : List Char) (part : Part) : Prop := part.start.At text ∧ part.stop ≤ text.length

theorem splitFrom_lineEnd {part : Cursor} (offset : Nat) (c : Char) (s : List Char)
    (h : isLineEnd c = true) :
    splitFrom stop part offset (c :: s) = splitFrom stop part (offset + 1) s := by
  obtain ⟨hplain, hbracket, -⟩ := plain_of_isLineEnd h
  by_cases hlt : offset < stop
  · refine splitFrom_lexeme (scan_plain hplain s) (fun _ => hbracket) ?_ hlt
    rintro - rfl
    cases h
  · rw [splitFrom_past (Nat.not_lt.1 hlt), splitFrom_past (by omega)]

theorem splitFrom_moved (hstop : stop ≤ text.length) {part : Cursor} (hpart : part.At text)
    (hat : Cursor.At text ⟨offset, s⟩) :
    Agree (FaultMoves text)
      (fun parts parts' => parts' = parts.map (·.relocated text) ∧ ∀ part ∈ parts, part.In text)
      (splitFrom stop part offset s)
      (splitFrom (moved text stop) (part.relocated text) (moved text offset) (withReturns s)) := by
  have hlast : ∀ part : Cursor, part.At text → ∀ last ∈ [(⟨part, stop⟩ : Part)], last.In text :=
    fun part hpart => List.forall_mem_singleton.2 ⟨hpart, hstop⟩
  induction part, offset, s using splitFrom.induct stop with
  | case1 part offset =>
    rw [splitFrom, Text.withReturns_nil, splitFrom]
    exact ⟨rfl, hlast part hpart⟩
  | case2 part offset c rest hlt ihGroup ihComma ihPlain ihLexeme =>
    obtain ⟨-, hlength, hnext⟩ := hat.cons
    by_cases hc : c = '\n'
    · subst hc
      rw [splitFrom_lineEnd offset _ rest rfl, withReturns_newline, splitFrom_lineEnd _ _ _ rfl,
        splitFrom_lineEnd _ _ _ rfl, Nat.add_assoc, ← hat.moved_line]
      exact ihPlain ⟨.plain, 1, Nat.one_pos, by simp⟩ hpart hnext
    have hsucc := hat.moved_succ hc
    rw [withReturns_cons hc, splitFrom.eq_def, splitFrom.eq_def (moved text stop)]
    dsimp only
    rw [if_pos hlt, if_pos ((Text.moved_lt_iff hstop).2 hlt)]
    refine (scanAt_moved text offset hc).bind fun lexeme lexeme' _ _ hfollows => ?_
    rw [hfollows.kind]
    by_cases hkind : lexeme.kind = .plain
    · rw [if_pos hkind, if_pos hkind]
      cases hopener : closer? c with
      | some expected =>
        refine (closing_moved _ _ hnext hsucc).bind fun close close' hclose _ hmoved => ?_
        have hexpected : expected ≠ '\n' := by
          rintro rfl
          cases isCloser_of_closer? hopener
        obtain ⟨hbehind, -, hplace, hdrop⟩ := hnext.behind_moved hsucc hexpected hclose
        rw [hmoved, hdrop, ← hplace]
        exact ihGroup lexeme close hpart hbehind
      | none =>
        dsimp only
        rw [← hsucc]
        by_cases hcomma : c = ','
        · rw [if_pos hcomma, if_pos hcomma]
          refine (ihComma lexeme hnext hnext).bind fun parts parts' _ _ hparts => ?_
          obtain ⟨rfl, hparts⟩ := hparts
          exact ⟨rfl, List.forall_mem_cons.2 ⟨⟨hpart, hlength.le⟩, hparts⟩⟩
        · rw [if_neg hcomma, if_neg hcomma]
          exact ihPlain lexeme hpart hnext
    · rw [if_neg hkind, if_neg hkind, (hfollows.lands hat hc).read_eq splitFrom_lineEnd]
      exact ihLexeme lexeme hpart (hat.drop _)
  | case3 part offset c rest hnot =>
    rw [splitFrom_past (Nat.not_lt.1 hnot), splitFrom_past (Text.moved_mono text (Nat.not_lt.1 hnot))]
    exact ⟨rfl, hlast part hpart⟩

end

/-! ## Code -/

section

variable {text s : List Char} {offset stop last : Nat}

theorem continuesLine_withReturns (s : List Char) : continuesLine (withReturns s) = continuesLine s := by
  cases s with
  | nil => rfl
  | cons c s =>
    by_cases hc : c = '\x60'
    · subst hc
      cases s with
      | nil => rfl
      | cons d s =>
        by_cases hd : d = '\n'
        · subst hd
          rfl
        · rw [withReturns_cons (by decide), withReturns_cons hd]
          rfl
    · have hnot : ∀ d t, d ≠ '\x60' → continuesLine (d :: t) = false := by
        intro d t hd
        by_contra hcontra
        obtain ⟨e, rest, heq, -⟩ := exists_of_continuesLine (Bool.of_not_eq_false hcontra)
        exact hd (List.cons.inj heq).1
      rw [hnot c s hc]
      by_cases hfeed : c = '\n'
      · subst hfeed
        exact hnot '\r' _ (by decide)
      · rw [withReturns_cons hfeed]
        exact hnot c _ hc

theorem codeEndFrom_lineEnd (offset : Nat) (c : Char) (s : List Char) (h : isLineEnd c = true) :
    codeEndFrom stop last offset (c :: s) = codeEndFrom stop last (offset + 1) s := by
  obtain ⟨hplain, -, hblank⟩ := plain_of_isLineEnd h
  by_cases hlt : offset < stop
  · have hnot : ¬ continuesLine (c :: s) = true := by
      intro hcontinues
      obtain ⟨d, rest, heq, -⟩ := exists_of_continuesLine hcontinues
      rw [(List.cons.inj heq).1] at hplain
      simp at hplain
    rw [codeEndFrom, if_pos hlt, if_neg hnot]
    simp only [scanAt_eq_ok_iff.2 (scan_plain hplain s), bind, Except.bind, hblank, LexemeKind.isComment]
    rfl
  · rw [codeEndFrom_past (Nat.not_lt.1 hlt), codeEndFrom_past (by omega)]

theorem codeEndFrom_continued {c : Char} (h : isLineEnd c = true) (hlt : offset < stop) (s : List Char) :
    codeEndFrom stop last offset ('\x60' :: c :: s) = codeEndFrom stop last (offset + 2) s := by
  have hcontinues : continuesLine ('\x60' :: c :: s) = true := h
  rw [codeEndFrom, if_pos hlt, if_pos hcontinues]
  rfl

theorem min_moved (text : List Char) (offset stop : Nat) :
    min (moved text offset) (moved text stop) = moved text (min offset stop) := by
  rcases Nat.le_total offset stop with hle | hle
  · rw [Nat.min_eq_left hle, Nat.min_eq_left (Text.moved_mono text hle)]
  · rw [Nat.min_eq_right hle, Nat.min_eq_right (Text.moved_mono text hle)]

/-- A lexeme that counts as code ends at the same place in both texts. -/
theorem Lexeme.Follows.length_eq {c : Char} {rest : List Char} {lexeme : Lexeme (c :: rest)}
    {lexeme' : Lexeme (c :: withReturns rest)} (h : lexeme.Follows lexeme')
    (hcomment : lexeme.kind.isComment = false) (hcontinues : continuesLine (c :: rest) = false) :
    lexeme'.length = moved (c :: rest) lexeme.length := by
  rcases h.length with hlength | ⟨hkind, -⟩ | ⟨rfl, ⟨more, rfl⟩, -⟩
  · exact hlength
  · rw [hkind] at hcomment
    cases hcomment
  · cases hcontinues

theorem codeEndFrom_moved (hstop : stop ≤ text.length) (hat : Cursor.At text ⟨offset, s⟩) :
    Agree (FaultMoves text) (fun found found' => found' = moved text found)
      (codeEndFrom stop last offset s)
      (codeEndFrom (moved text stop) (moved text last) (moved text offset) (withReturns s)) := by
  induction hlength : s.length using Nat.strong_induction_on generalizing last offset s with
  | _ length ih =>
  have hread {last offset : Nat} {s : List Char} (hat : Cursor.At text ⟨offset, s⟩)
      (hlt : s.length < length) := @ih s.length hlt s offset last hat rfl
  subst hlength
  by_cases hlt : offset < stop
  swap
  · rw [codeEndFrom_past (Nat.not_lt.1 hlt), codeEndFrom_past (Text.moved_mono text (Nat.not_lt.1 hlt))]
    exact rfl
  have hlt' := (Text.moved_lt_iff hstop).2 hlt
  cases s with
  | nil =>
    rw [codeEndFrom, Text.withReturns_nil, codeEndFrom]
    exact rfl
  | cons c rest =>
  have hnext := hat.cons.2.2
  by_cases hcontinues : continuesLine (c :: rest) = true
  · obtain ⟨d, more, heq, hend⟩ := exists_of_continuesLine hcontinues
    cases heq
    have hsucc := hat.moved_succ (by decide)
    have hbehind := @hread last _ _ hnext.cons.2.2 (by simp)
    rw [codeEndFrom_continued hend hlt, withReturns_cons (by decide)]
    by_cases hd : d = '\n'
    · subst hd
      rw [withReturns_newline, codeEndFrom_continued rfl hlt', codeEndFrom_lineEnd _ _ _ rfl,
        Nat.add_right_comm, ← hsucc, ← hnext.moved_line]
      exact hbehind
    · have hboth : moved text offset + 2 = moved text (offset + 2) := by
        rw [hnext.moved_succ hd, hsucc]
      rw [withReturns_cons hd, codeEndFrom_continued hend hlt', hboth]
      exact hbehind
  by_cases hc : c = '\n'
  · subst hc
    rw [codeEndFrom_lineEnd offset _ rest rfl, withReturns_newline, codeEndFrom_lineEnd _ _ _ rfl,
      codeEndFrom_lineEnd _ _ _ rfl, Nat.add_assoc, ← hat.moved_line]
    exact hread hnext (Nat.lt_succ_self _)
  have hcontinues' : ¬ continuesLine (c :: withReturns rest) = true := by
    rw [← withReturns_cons hc, continuesLine_withReturns]
    exact hcontinues
  rw [withReturns_cons hc, codeEndFrom, codeEndFrom, if_pos hlt, if_pos hlt', if_neg hcontinues,
    if_neg hcontinues']
  refine (scanAt_moved text offset hc).bind fun lexeme lexeme' _ _ hfollows => ?_
  -- what counts as code ends at the same place in both texts
  have hlast : (if (lexeme'.kind.isComment || decide (lexeme'.kind = .plain) && Text.isBlank c) = true
        then moved text last else min (moved text offset + lexeme'.length) (moved text stop)) =
      moved text (if (lexeme.kind.isComment || decide (lexeme.kind = .plain) && Text.isBlank c) = true
        then last else min (offset + lexeme.length) stop) := by
    rw [hfollows.kind]
    by_cases htrivia :
        (lexeme.kind.isComment || decide (lexeme.kind = .plain) && Text.isBlank c) = true
    · rw [if_pos htrivia, if_pos htrivia]
    · rw [if_neg htrivia, if_neg htrivia]
      rw [Bool.not_eq_true, Bool.or_eq_false_iff] at htrivia
      rw [hfollows.length_eq htrivia.1 (Bool.eq_false_iff.2 hcontinues), ← Text.moved_add hat.symm,
        min_moved]
  dsimp only
  rw [hlast, (hfollows.lands hat hc).read_eq codeEndFrom_lineEnd]
  exact hread (hat.drop _) lexeme.length_drop_lt

theorem except_map_map {ε α β γ : Type} (f : α → β) (g : β → γ) (read : Except ε α) :
    (read.map f).map g = read.map fun found => g (f found) := by
  cases read <;> rfl

/-- What is shown of a lexeme up to a place. -/
def Lexeme.shown {s : List Char} (lexeme : Lexeme s) (count : Nat) : List Char :=
  if lexeme.kind.isComment then [' '] else s.take (min lexeme.length count)

theorem codeTextFrom_lexeme {c : Char} {rest : List Char} {lexeme : Lexeme (c :: rest)}
    (hscan : Lexeme.scan c rest = .ok lexeme) (hlt : offset < stop) :
    codeTextFrom stop offset (c :: rest) =
      (codeTextFrom stop (offset + lexeme.length) ((c :: rest).drop lexeme.length)).map
        (lexeme.shown (stop - offset) ++ ·) := by
  rw [codeTextFrom, if_pos hlt]
  simp only [scanAt_eq_ok_iff.2 hscan, bind, Except.bind]
  rw [Lexeme.shown]
  cases codeTextFrom stop (offset + lexeme.length) ((c :: rest).drop lexeme.length) <;> rfl

theorem codeTextFrom_lineEnd {c : Char} (h : isLineEnd c = true) (hlt : offset < stop)
    (s : List Char) :
    codeTextFrom stop offset (c :: s) = (codeTextFrom stop (offset + 1) s).map (c :: ·) := by
  obtain ⟨hplain, -, -⟩ := plain_of_isLineEnd h
  rw [codeTextFrom_lexeme (scan_plain hplain s) hlt, Lexeme.shown]
  have hone : min 1 (stop - offset) = 1 := by omega
  dsimp only
  rw [hone]
  rfl

theorem codeTextFrom_escape {c : Char} (hlt : offset < stop) (s : List Char) :
    codeTextFrom stop offset ('\x60' :: c :: s) =
      (codeTextFrom stop (offset + 2) s).map (['\x60', c].take (stop - offset) ++ ·) := by
  have hscan : Lexeme.scan '\x60' (c :: s) = .ok ⟨.escape, 2, Nat.two_pos, by simp⟩ := by
    rw [Lexeme.scan]
    simp
  rw [codeTextFrom_lexeme hscan hlt]
  have hshown : ('\x60' :: c :: s).take (min 2 (stop - offset)) = ['\x60', c].take (stop - offset) := by
    rw [Nat.min_comm, ← List.take_take]
    rfl
  rw [← hshown]
  rfl

/-- A lexeme that ends at the same place in both texts shows the same in both, carriage returns apart. -/
theorem Lexeme.Follows.shown {c : Char} {rest : List Char} {lexeme : Lexeme (c :: rest)}
    {lexeme' : Lexeme (c :: withReturns rest)} (h : lexeme.Follows lexeme')
    (hlength : lexeme'.length = moved (c :: rest) lexeme.length) (hc : c ≠ '\n') (count : Nat) :
    Text.Returned (lexeme.shown count) (lexeme'.shown (moved (c :: rest) count)) := by
  rw [Lexeme.shown, Lexeme.shown, h.kind]
  cases lexeme.kind.isComment with
  | true => exact .char ' ' .nil
  | false =>
    rw [if_neg Bool.false_ne_true, if_neg Bool.false_ne_true, hlength, min_moved,
      ← withReturns_cons hc, Text.take_moved]
    exact Text.returned_withReturns _

/-- From a place on both texts show the same, carriage returns apart. -/
def ShowsAlike (text : List Char) (stop : Nat) (place : Cursor) : Prop :=
  Agree (FaultMoves text) Text.Returned (codeTextFrom stop place.offset place.rest)
    (codeTextFrom (moved text stop) (moved text place.offset) (withReturns place.rest))

/-- The carriage return is escaped, and the line feed behind it stands for itself. -/
theorem showsAlike_escape {more : List Char} (hat : Cursor.At text ⟨offset, '\x60' :: '\n' :: more⟩)
    (hstop : stop ≤ text.length) (hlt : offset < stop)
    (hread : ShowsAlike text stop ⟨offset + 2, more⟩) :
    ShowsAlike text stop ⟨offset, '\x60' :: '\n' :: more⟩ := by
  have hlt' := (Text.moved_lt_iff hstop).2 hlt
  have hsucc : moved text (offset + 1) = moved text offset + 1 := hat.moved_succ (by decide)
  have hline : moved text (offset + 2) = moved text (offset + 1) + 2 := hat.cons.2.2.moved_line
  rw [ShowsAlike]
  dsimp only
  rw [codeTextFrom_escape hlt, withReturns_cons (by decide), withReturns_newline, codeTextFrom_escape hlt']
  by_cases hfeed : offset + 1 < stop
  · have hle := Text.moved_mono text (show offset + 2 ≤ stop from hfeed)
    have hboth : moved text offset + 2 + 1 = moved text (offset + 2) := by omega
    have htake : ['\x60', '\n'].take (stop - offset) = ['\x60', '\n'] :=
      List.take_of_length_le (by simp; omega)
    have htake' : ['\x60', '\r'].take (moved text stop - moved text offset) = ['\x60', '\r'] :=
      List.take_of_length_le (by simp; omega)
    rw [codeTextFrom_lineEnd rfl (by omega), except_map_map, hboth, htake, htake']
    exact hread.map fun found found' h => .char '\x60' (.line h)
  · obtain rfl : stop = offset + 1 := by omega
    have hcount : moved text (offset + 1) - moved text offset = 1 := by omega
    rw [Nat.add_sub_cancel_left, hcount, codeTextFrom_past (by omega), codeTextFrom_past (by omega)]
    exact .char '\x60' .nil

/-- A comment has taken the carriage return, and the line feed is shown in both texts. -/
theorem showsAlike_before {more : List Char} (hat : Cursor.At text ⟨offset, '\n' :: more⟩)
    (hread : ShowsAlike text stop ⟨offset + 1, more⟩) :
    Agree (FaultMoves text) Text.Returned (codeTextFrom stop offset ('\n' :: more))
      (codeTextFrom (moved text stop) (moved text offset + 1) ('\n' :: withReturns more)) := by
  by_cases hlt : offset < stop
  · have hle := Text.moved_mono text (show offset + 1 ≤ stop from hlt)
    rw [hat.moved_line] at hle
    rw [codeTextFrom_lineEnd rfl hlt, codeTextFrom_lineEnd rfl (by omega), Nat.add_assoc,
      ← hat.moved_line]
    exact hread.map fun found found' h => .char '\n' h
  · have hle := Text.moved_mono text (Nat.not_lt.1 hlt)
    rw [codeTextFrom_past (Nat.not_lt.1 hlt), codeTextFrom_past (by omega)]
    exact .nil

/-- The induction is on the length of the text at the cursor. -/
theorem codeTextFrom_moved (hstop : stop ≤ text.length) {place : Cursor} (hat : place.At text) :
    ShowsAlike text stop place := by
  induction hlength : place.rest.length using Nat.strong_induction_on generalizing place with
  | _ length ih =>
  have hread (place : Cursor) (hat : place.At text) (hlt : place.rest.length < length) :
      ShowsAlike text stop place := ih place.rest.length hlt hat rfl
  subst hlength
  obtain ⟨offset, s⟩ := place
  by_cases hlt : offset < stop
  swap
  · rw [ShowsAlike, codeTextFrom_past (Nat.not_lt.1 hlt),
      codeTextFrom_past (Text.moved_mono text (Nat.not_lt.1 hlt))]
    exact .nil
  have hlt' := (Text.moved_lt_iff hstop).2 hlt
  cases s with
  | nil =>
    rw [ShowsAlike, codeTextFrom, Text.withReturns_nil, codeTextFrom]
    exact .nil
  | cons c rest =>
  have hnext := hat.cons.2.2
  by_cases hescape : ∃ more, c :: rest = '\x60' :: '\n' :: more
  · obtain ⟨more, heq⟩ := hescape
    cases heq
    exact showsAlike_escape hat hstop hlt (hread _ hnext.cons.2.2 (by simp))
  rw [ShowsAlike]
  dsimp only
  by_cases hc : c = '\n'
  · subst hc
    have hle := Text.moved_mono text (show offset + 1 ≤ stop from hlt)
    rw [hat.moved_line] at hle
    rw [codeTextFrom_lineEnd rfl hlt, withReturns_newline, codeTextFrom_lineEnd rfl hlt',
      codeTextFrom_lineEnd rfl (by omega), Nat.add_assoc, ← hat.moved_line, except_map_map]
    exact (hread _ hnext (Nat.lt_succ_self _)).map fun found found' h => .line h
  rw [withReturns_cons hc, codeTextFrom, codeTextFrom, if_pos hlt, if_pos hlt']
  refine (scanAt_moved text offset hc).bind fun lexeme lexeme' _ _ hfollows => ?_
  have hshorter := lexeme.length_drop_lt
  have hbehind := hat.drop lexeme.length
  have hmoved : moved text (offset + lexeme.length) =
      moved text offset + moved (c :: rest) lexeme.length := Text.moved_add hat.symm lexeme.length
  have hdrop := Text.drop_moved (c :: rest) lexeme.length
  rw [withReturns_cons hc] at hdrop
  rcases hfollows.length with hlength | ⟨hkind, ⟨more, hmore⟩, hlength⟩ | ⟨rfl, ⟨more, rfl⟩, -⟩
  · have hshown := hfollows.shown hlength hc (stop - offset)
    rw [← Text.moved_sub hat.symm hlt.le] at hshown
    refine Agree.bind ?_ fun found found' _ _ (h : Text.Returned found found') => hshown.append h
    rw [hlength, ← hmoved, hdrop]
    exact hread _ hbehind hshorter
  · have hcomment : lexeme.kind.isComment = true := by
      rw [hkind]
      rfl
    refine Agree.bind ?_ fun found found' _ _ (h : Text.Returned found found') => ?_
    · rw [hmore] at hbehind hdrop hshorter
      have hone : (c :: withReturns rest).drop (moved (c :: rest) lexeme.length + 1) =
          '\n' :: withReturns more := by
        rw [← List.drop_drop, hdrop]
        rfl
      rw [hlength, hone, ← Nat.add_assoc, ← hmoved, hmore]
      exact showsAlike_before hbehind (hread _ hbehind.cons.2.2 (Nat.lt_of_succ_lt hshorter))
    · rw [hfollows.kind, if_pos hcomment, if_pos hcomment]
      exact .char ' ' h
  · exact absurd ⟨more, rfl⟩ hescape

/-- The places of both texts correspond, or they are where a reader has to stop. -/
def Meets (text : List Char) (stop : Nat) (place place' : Cursor) : Prop :=
  (place.At text ∧ place' = place.relocated text) ∨
    (place.offset = stop ∧ place'.offset = moved text stop)

theorem skipTriviaFrom_blank {c : Char} (h : Text.isBlank c = true) (hlt : offset < stop)
    (s : List Char) : skipTriviaFrom stop offset (c :: s) = skipTriviaFrom stop (offset + 1) s := by
  rw [skipTriviaFrom, if_pos hlt, if_pos h]

theorem skipTriviaFrom_continued {c : Char} (h : isLineEnd c = true) (hlt : offset + 1 < stop)
    (s : List Char) :
    skipTriviaFrom stop offset ('\x60' :: c :: s) = skipTriviaFrom stop (offset + 2) s := by
  have hblank : Text.isBlank '\x60' = false := by decide
  have hboth : (continuesLine ('\x60' :: c :: s) && decide (offset + 1 < stop)) = true := by
    rw [Bool.and_eq_true, decide_eq_true_eq]
    exact ⟨h, hlt⟩
  rw [skipTriviaFrom, if_pos (by omega), hblank, if_neg Bool.false_ne_true,
    if_neg (by simp [startsComment]), if_pos hboth]
  rfl

theorem startsComment_withReturns {c : Char} (hc : c ≠ '\n') (rest : List Char) :
    startsComment (c :: withReturns rest) = startsComment (c :: rest) := by
  by_cases hless : c = '<'
  · subst hless
    cases rest with
    | nil => rfl
    | cons d rest =>
      by_cases hd : d = '\n'
      · subst hd
        rfl
      · rw [withReturns_cons hd]
        unfold startsComment
        split <;> simp_all
  · unfold startsComment
    split <;> simp_all

/-- From a place on the same is skipped in both texts. -/
def TriviaAgrees (text : List Char) (stop : Nat) (place : Cursor) : Prop :=
  Agree (FaultMoves text) (Meets text stop) (skipTriviaFrom stop place.offset place.rest)
    (skipTriviaFrom (moved text stop) (moved text place.offset) (withReturns place.rest))

/-- From places of texts that are shorter than a bound the same is skipped. -/
def TriviaAgreesBelow (text : List Char) (stop bound : Nat) : Prop :=
  ∀ place : Cursor, place.At text → place.rest.length < bound → TriviaAgrees text stop place

theorem Lands.skipTrivia {bound : Nat} {place place' : Cursor} (h : Lands text place place')
    (hread : TriviaAgreesBelow text stop bound) (hshorter : place.rest.length < bound) :
    Agree (FaultMoves text) (Meets text stop) (skipTriviaFrom stop place.offset place.rest)
      (skipTriviaFrom (moved text stop) place'.offset place'.rest) := by
  cases h with
  | same hat => exact hread _ hat hshorter
  | @before start more hat =>
    dsimp only at hshorter ⊢
    by_cases hfeed : start < stop
    · have hle := Text.moved_mono text (show start + 1 ≤ stop from hfeed)
      have hline := hat.moved_line
      rw [skipTriviaFrom_blank (by decide) hfeed, skipTriviaFrom_blank (by decide) (by omega),
        Nat.add_assoc, ← hline]
      exact hread _ hat.cons.2.2 (Nat.lt_of_succ_lt hshorter)
    · have hle := Text.moved_mono text (Nat.not_lt.1 hfeed)
      rw [skipTriviaFrom_past (Nat.not_lt.1 hfeed), skipTriviaFrom_past (by omega)]
      exact .inr ⟨rfl, rfl⟩
  | @behind start more hat =>
    dsimp only at hshorter ⊢
    by_cases hfeed : start < stop
    · have hle := Text.moved_mono text (show start + 1 ≤ stop from hfeed)
      have hline := hat.moved_line
      have hblank : Text.isBlank '\n' = true := by decide
      rw [skipTriviaFrom_blank hblank (by omega), Nat.add_assoc, ← hline]
      exact hread _ hat.cons.2.2 hshorter
    · have hle := Text.moved_mono text (Nat.not_lt.1 hfeed)
      rw [skipTriviaFrom_past (by omega), skipTriviaFrom_past (by omega)]
      exact .inr ⟨rfl, rfl⟩

/-- Of an escaped line feed it is the carriage return that is escaped. -/
theorem triviaAgrees_continued {c : Char} {more : List Char}
    (hat : Cursor.At text ⟨offset, '\x60' :: c :: more⟩) (hend : isLineEnd c = true)
    (hfeed : offset + 1 < stop) (hread : TriviaAgrees text stop ⟨offset + 2, more⟩) :
    TriviaAgrees text stop ⟨offset, '\x60' :: c :: more⟩ := by
  have hnext := hat.cons.2.2
  have hsucc : moved text (offset + 1) = moved text offset + 1 := hat.moved_succ (by decide)
  have hle := Text.moved_mono text (show offset + 2 ≤ stop from hfeed)
  rw [TriviaAgrees]
  dsimp only
  rw [skipTriviaFrom_continued hend hfeed, withReturns_cons (by decide)]
  by_cases hc : c = '\n'
  · subst hc
    have hline : moved text (offset + 2) = moved text (offset + 1) + 2 := hnext.moved_line
    have hboth : moved text offset + 2 + 1 = moved text (offset + 2) := by omega
    rw [withReturns_newline, skipTriviaFrom_continued rfl (by omega),
      skipTriviaFrom_blank (by decide) (by omega), hboth]
    exact hread
  · have hsecond : moved text (offset + 2) = moved text (offset + 1) + 1 := hnext.moved_succ hc
    have hboth : moved text offset + 2 = moved text (offset + 2) := by omega
    rw [withReturns_cons hc, skipTriviaFrom_continued hend (by omega), hboth]
    exact hread

/-- The induction is on the length of the text at the cursor. -/
theorem skipTriviaFrom_moved (hstop : stop ≤ text.length) {place : Cursor} (hat : place.At text) :
    TriviaAgrees text stop place := by
  induction hlength : place.rest.length using Nat.strong_induction_on generalizing place with
  | _ length ih =>
  have hread : TriviaAgreesBelow text stop length := fun place hat hlt =>
    ih place.rest.length hlt hat rfl
  subst hlength
  obtain ⟨offset, s⟩ := place
  by_cases hlt : offset < stop
  swap
  · rw [TriviaAgrees, skipTriviaFrom_past (Nat.not_lt.1 hlt),
      skipTriviaFrom_past (Text.moved_mono text (Nat.not_lt.1 hlt))]
    exact .inr ⟨rfl, rfl⟩
  have hlt' := (Text.moved_lt_iff hstop).2 hlt
  cases s with
  | nil =>
    have hle : text.length ≤ offset := List.drop_eq_nil_iff.1 hat.symm
    omega
  | cons c rest =>
  have hnext := hat.cons.2.2
  by_cases hcontinues : continuesLine (c :: rest) = true ∧ offset + 1 < stop
  · obtain ⟨hcontinues, hfeed⟩ := hcontinues
    obtain ⟨d, more, heq, hend⟩ := exists_of_continuesLine hcontinues
    cases heq
    exact triviaAgrees_continued hat hend hfeed (hread _ hnext.cons.2.2 (by simp))
  rw [TriviaAgrees]
  dsimp only
  by_cases hc : c = '\n'
  · subst hc
    have hle := Text.moved_mono text (show offset + 1 ≤ stop from hlt)
    rw [hat.moved_line] at hle
    rw [skipTriviaFrom_blank (by decide) hlt, withReturns_newline,
      skipTriviaFrom_blank (by decide) hlt', skipTriviaFrom_blank (by decide) (by omega), Nat.add_assoc,
      ← hat.moved_line]
    exact hread _ hnext (Nat.lt_succ_self _)
  have hsucc := hat.moved_succ hc
  rw [withReturns_cons hc]
  by_cases hblank : Text.isBlank c = true
  · rw [skipTriviaFrom_blank hblank hlt, skipTriviaFrom_blank hblank hlt', ← hsucc]
    exact hread _ hnext (Nat.lt_succ_self _)
  rw [skipTriviaFrom, skipTriviaFrom, if_pos hlt, if_pos hlt', if_neg hblank, if_neg hblank,
    startsComment_withReturns hc]
  by_cases hcomment : startsComment (c :: rest) = true
  · rw [if_pos hcomment, if_pos hcomment]
    exact (scanAt_moved text offset hc).bind fun lexeme lexeme' _ _ hfollows =>
      (hfollows.lands hat hc).skipTrivia hread lexeme.length_drop_lt
  · have hcontinues' : ¬ (continuesLine (c :: withReturns rest) &&
        decide (moved text offset + 1 < moved text stop)) = true := by
      rw [← withReturns_cons hc, continuesLine_withReturns, ← hsucc, Bool.and_eq_true,
        decide_eq_true_eq, Text.moved_lt_iff hstop]
      exact hcontinues
    rw [if_neg hcomment, if_neg hcomment, if_neg hcontinues', if_neg (by simpa using hcontinues)]
    exact .inl ⟨hat, (Cursor.relocated_cons text offset hc rest).symm⟩

end

end DscAudit.PowerShell

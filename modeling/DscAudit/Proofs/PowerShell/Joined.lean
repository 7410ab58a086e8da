import DscAudit.Proofs.PowerShell.Embedding
import DscAudit.Proofs.Rule.Location

/-!
# Scripts one behind the other

The blocks of two scripts with a line end between them are those of the first script and behind them those of
the second one, farther down.  Nothing that the first script ends with leads into the second one: a comment
ends with its line, an escape takes the line end, and the keyword of a block takes no bracket of the second
script unless that one starts with it.
-/

namespace DscAudit.PowerShell

/-! ## Declarations farther on -/

/-- The same characters in a longer text, where more characters stand in front of them. -/
def Span.shifted (count : Nat) (span : Span) : Span := ⟨span.start + count, span.stop + count⟩

def Argument.shifted (count : Nat) : Argument → Argument
  | named argument => .named (argument.map (Span.shifted count))
  | positional text => .positional text

section

variable {behind s rest : List Char} {stop offset close : Nat} {c : Char}

/-! ## Arguments -/

theorem ofText_shifted (text : List Char) (span : Span) (count : Nat) :
    Argument.ofText text (span.shifted count) = (Argument.ofText text span).shifted count := by
  unfold Argument.ofText
  split
  · rfl
  · split <;> rfl

theorem readArgument_embedded (hbehind : StartsLine behind) (count : Nat) {part : Part}
    (hguard : part.Guarded) :
    CarriesOver (fun found found' => found' = found.map (Argument.shifted count)) (readArgument part)
      (readArgument (part.embedded behind count)) := by
  refine (skipTriviaFrom_embedded hbehind count hguard).bind fun start start' hstart hplace => ?_
  have hiff := hplace.lt_iff
  obtain ⟨rfl, hguard⟩ := hplace
  refine (codeEndFrom_embedded hbehind count hguard).bind fun last last' hlast heq => ?_
  subst heq
  have hle : last ≤ part.stop := codeEnd_le hlast (skipTrivia_bounds hstart).2
  by_cases hlt : start.offset < last
  · rw [if_pos hlt, if_pos ((hiff last).2 hlt)]
    refine (codeTextFrom_embedded hbehind count (hguard.mono hle)).bind fun text _ _ heq => ?_
    subst heq
    exact .ok (congrArg some (ofText_shifted _ ⟨start.offset, last⟩ count))
  · rw [if_neg hlt, if_neg ((hiff last).not.2 hlt)]
    exact .ok rfl

theorem readArguments_embedded (hbehind : StartsLine behind) (count : Nat) {parts : List Part}
    (hguard : ∀ part ∈ parts, part.Guarded) :
    CarriesOver (fun found found' => found' = found.map (Option.map (Argument.shifted count)))
      (parts.mapM readArgument) ((parts.map (Part.embedded behind count)).mapM readArgument) := by
  induction parts with
  | nil => exact .ok rfl
  | cons part parts ih =>
    obtain ⟨hpart, hparts⟩ := List.forall_mem_cons.1 hguard
    rw [List.map_cons, List.mapM_cons, List.mapM_cons]
    refine (readArgument_embedded hbehind count hpart).bind fun first first' _ heq => ?_
    subst heq
    refine (ih hparts).bind fun found found' _ heq => ?_
    subst heq
    exact .ok rfl

/-! ## Attributes -/

theorem filterMap_named_shifted (count : Nat) (found : List Argument) :
    (found.map (Argument.shifted count)).filterMap Argument.named? =
      (found.filterMap Argument.named?).map (NamedArgument.map (Span.shifted count)) := by
  rw [List.filterMap_map, List.map_filterMap]
  refine List.filterMap_congr fun argument _ => ?_
  cases argument <;> rfl

theorem filterMap_positional_shifted (count : Nat) (found : List Argument) :
    (found.map (Argument.shifted count)).filterMap Argument.positional? =
      found.filterMap Argument.positional? := by
  rw [List.filterMap_map]
  refine List.filterMap_congr fun argument _ => ?_
  cases argument <;> rfl

theorem advance_group_embedded {opening expected : Char} (c : Char) (hcloser : isCloser expected = true)
    (hclose : closing opening expected ⟨offset + 1, rest⟩ = .ok close) (behind : List Char)
    (count : Nat) :
    Cursor.advance ⟨offset, c :: rest⟩ (1 + (close - offset)) =
        ⟨close + 1, rest.drop (close - offset)⟩ ∧
      Cursor.advance ⟨offset + count, c :: (rest ++ behind)⟩
          (1 + (close + count - (offset + count))) =
        Cursor.embedded behind count ⟨close + 1, rest.drop (close - offset)⟩ := by
  have hlt : offset < close := (closing_eq_iff.1 hclose).bounds.1
  refine ⟨advance_group rfl hlt, ?_⟩
  rw [Cursor.embedded, Nat.add_right_comm, ← drop_behind_embedded hcloser hclose behind count]
  exact advance_group rfl (Nat.add_lt_add_right hlt count)

theorem readCall_embedded (hbehind : StartsLine behind) (count : Nat) {name name' : String}
    (hname : name' = name) (span : Span) (hguard : Cursor.Guarded close ⟨offset, '(' :: rest⟩) :
    CarriesOver (fun owner owner' => owner' = owner.map (Span.shifted count))
      (readCall name span ⟨offset, '(' :: rest⟩ close)
      (readCall name' (span.shifted count) (Cursor.embedded behind count ⟨offset, '(' :: rest⟩)
        (close + count)) := by
  subst hname
  rw [readCall, readCall, advance_one rfl, advance_one (List.cons_append ..)]
  dsimp only [Cursor.embedded]
  rw [Nat.add_right_comm]
  refine (closing_embedded rfl behind count).bind fun last last' hlast heq => ?_
  subst heq
  obtain ⟨hgroup, hgroup'⟩ := advance_group_embedded '(' rfl hlast behind count
  rw [List.cons_append, hgroup, hgroup']
  refine (skipTriviaFrom_embedded hbehind count (hguard.group hlast)).bind fun tail tail' _ htail => ?_
  by_cases hall : tail.offset = close
  swap
  · rw [if_pos hall]
    exact .error _
  have hall' : tail'.offset = close + count := by rw [htail.1, Cursor.embedded, hall]
  rw [if_neg (not_not.2 hall), if_neg (not_not.2 hall')]
  have hinside : Cursor.Guarded last ⟨offset + 1, rest⟩ := .of_closing rfl hlast
  refine (splitFrom_embedded hbehind count hinside hinside).bind fun parts parts' _ hparts => ?_
  obtain ⟨rfl, hparts⟩ := hparts
  refine (readArguments_embedded hbehind count hparts).bind fun found found' _ heq => ?_
  subst heq
  have harguments : (found.map (Option.map (Argument.shifted count))).filterMap id =
      (found.filterMap id).map (Argument.shifted count) := by
    rw [List.filterMap_map, List.map_filterMap]
    rfl
  refine .ok ?_
  rw [harguments, filterMap_named_shifted, filterMap_positional_shifted]
  rfl

theorem readAttribute_embedded (hbehind : StartsLine behind) (count : Nat)
    (hguard : Cursor.Guarded close ⟨offset + 1, rest⟩) :
    CarriesOver (fun owner owner' => owner' = owner.map (Span.shifted count))
      (readAttribute ⟨offset, '[' :: rest⟩ close)
      (readAttribute (Cursor.embedded behind count ⟨offset, '[' :: rest⟩) (close + count)) := by
  have hspan : (⟨offset + count, close + count + 1⟩ : Span) =
      Span.shifted count ⟨offset, close + 1⟩ := by
    rw [Span.shifted, Nat.add_right_comm]
  rw [readAttribute, readAttribute, advance_one rfl, advance_one (List.cons_append ..)]
  dsimp only [Cursor.embedded]
  rw [Nat.add_right_comm, hspan]
  refine (skipTriviaFrom_embedded hbehind count hguard).bind fun inner inner' _ hplace => ?_
  obtain ⟨rfl, hinner⟩ := hplace
  refine (findArguments_embedded count hinner).bind fun found found' hfound hopening => ?_
  obtain ⟨rfl, hopening⟩ := hopening
  cases found with
  | none =>
    rw [Option.map_none]
    dsimp only
    rw [hinner.textTo_embedded]
    exact .ok rfl
  | some paren =>
    obtain ⟨hlt, hparen, inside, hinside⟩ := hopening paren rfl
    obtain ⟨place, s⟩ := paren
    dsimp only at hlt hinside
    subst hinside
    rw [Option.map_some]
    dsimp only
    have hname := (hinner.mono hlt.le).textTo_embedded behind count
    exact readCall_embedded hbehind count
      (congrArg (fun text => String.ofList (Text.trimEnd text)) hname) ⟨offset, close + 1⟩ hparen

/-- The induction is on the length of the text at the cursor. -/
theorem readAttributes_embedded (hbehind : StartsLine behind) (count : Nat) {start : Cursor}
    (hguard : start.Guarded stop) :
    CarriesOver (fun found found' => found'.1 = found.1.map (Attribute.map (Span.shifted count)) ∧
        Corresponds behind count stop found.2 found'.2)
      (readAttributes stop start) (readAttributes (stop + count) (start.embedded behind count)) := by
  induction hlength : start.rest.length using Nat.strong_induction_on generalizing start with
  | _ length ih =>
  subst hlength
  obtain ⟨place, s⟩ := start
  have hother (hno : place < stop → ∀ rest, s ≠ '[' :: rest)
      (hno' : place + count < stop + count → ∀ rest, s ++ behind ≠ '[' :: rest) :
      CarriesOver (fun found found' => found'.1 = found.1.map (Attribute.map (Span.shifted count)) ∧
          Corresponds behind count stop found.2 found'.2)
        (readAttributes stop ⟨place, s⟩)
        (readAttributes (stop + count) (Cursor.embedded behind count ⟨place, s⟩)) := by
    rw [readAttributes_other hno, readAttributes_other hno']
    exact .ok ⟨rfl, rfl, hguard⟩
  by_cases hsquare : place < stop ∧ ∃ rest, s = '[' :: rest
  swap
  · refine hother (fun hlt rest hrest => hsquare ⟨hlt, rest, hrest⟩) fun hlt rest hrest => ?_
    have hhead : (s ++ behind).head? = some '[' := congrArg List.head? hrest
    obtain ⟨more, hmore⟩ := List.head?_eq_some_iff.1 ((hbehind.head?_append s (by decide)).1 hhead)
    exact hsquare ⟨Nat.lt_of_add_lt_add_right hlt, more, hmore⟩
  obtain ⟨hlt, rest, rfl⟩ := hsquare
  rw [readAttributes_square rfl hlt,
    readAttributes_square (List.cons_append ..) (Nat.add_lt_add_right hlt count)]
  dsimp only [Cursor.embedded]
  rw [Nat.add_right_comm]
  refine (closing_embedded rfl behind count).bind fun close close' hclose heq => ?_
  subst heq
  refine (readAttribute_embedded hbehind count (.of_closing rfl hclose)).bind
    fun first first' _ hfirst => ?_
  subst hfirst
  obtain ⟨hgroup, hgroup'⟩ := advance_group_embedded '[' rfl hclose behind count
  rw [List.cons_append, hgroup, hgroup']
  refine (skipTriviaFrom_embedded hbehind count (hguard.group hclose)).bind
    fun next next' hskip hnext => ?_
  obtain ⟨rfl, hnext⟩ := hnext
  have hshorter : next.rest.length < ('[' :: rest).length := by
    have hle := skipTriviaFrom_length_le hskip
    rw [List.length_drop] at hle
    rw [List.length_cons]
    omega
  refine (ih _ hshorter hnext rfl).bind fun found found' _ hfound => ?_
  exact .ok ⟨congrArg (first.map (Span.shifted count) :: ·) hfound.1, hfound.2⟩

/-! ## Parameters -/

theorem advance_embedded {place : Cursor} {length : Nat} (hle : length ≤ place.rest.length)
    (behind : List Char) (count : Nat) : (place.embedded behind count).advance length =
      (place.advance length).embedded behind count := by
  rw [Cursor.embedded, Cursor.advance, Cursor.embedded, Cursor.advance, Nat.add_right_comm,
    List.drop_append_of_le_length hle]

theorem readDefault_embedded (hbehind : StartsLine behind) (count : Nat) (name : String)
    {place : Cursor} (hguard : place.Guarded stop) :
    CarriesOver (fun found found' => found' = (found.1, found.2 + count)) (readDefault name place stop)
      (readDefault name (place.embedded behind count) (stop + count)) := by
  refine (skipTriviaFrom_embedded hbehind count hguard).bind fun next next' _ hnext => ?_
  have hiff := hnext.lt_iff
  obtain ⟨rfl, hnext⟩ := hnext
  by_cases hlt : next.offset < stop
  swap
  · rw [if_neg hlt, if_neg ((hiff stop).not.2 hlt)]
    exact .ok rfl
  rw [if_pos hlt, if_pos ((hiff stop).2 hlt)]
  obtain ⟨offset, s⟩ := next
  cases s with
  | nil => exact absurd hnext.past_of_nil (Nat.not_le.2 hlt)
  | cons c rest =>
  by_cases hequals : c = '='
  swap
  · split
    · next heq => exact absurd (List.cons.inj heq).1 hequals
    · exact .error _
    · next heq => cases heq
  subst hequals
  dsimp only [Cursor.embedded]
  rw [advance_one rfl, advance_one (List.cons_append ..)]
  dsimp only
  rw [Nat.add_right_comm]
  refine (skipTriviaFrom_embedded hbehind count hnext.tail).bind fun value value' hvalue hplace => ?_
  have hiff := hplace.lt_iff
  obtain ⟨rfl, hplace⟩ := hplace
  refine (codeEndFrom_embedded hbehind count hplace).bind fun last last' hlast heq => ?_
  subst heq
  have hle : last ≤ stop := codeEnd_le hlast (skipTrivia_bounds hvalue).2
  by_cases hnone : last ≤ value.offset
  · rw [if_pos hnone]
    exact .error _
  rw [if_neg hnone, if_neg (Nat.not_le.2 ((hiff last).2 (Nat.not_le.1 hnone)))]
  refine (codeTextFrom_embedded hbehind count (hplace.mono hle)).bind fun text _ _ heq => ?_
  subst heq
  exact .ok rfl

theorem readParameter_embedded (hbehind : StartsLine behind) (count : Nat) {start : Cursor}
    (hguard : start.Guarded stop) :
    CarriesOver (fun found found' => found' = found.map (Span.shifted count))
      (readParameter start stop)
      (readParameter (start.embedded behind count) (stop + count)) := by
  refine (readAttributes_embedded hbehind count hguard).bind fun found found' _ hfound => ?_
  obtain ⟨owners, place⟩ := found
  obtain ⟨owners', place'⟩ := found'
  obtain ⟨rfl, rfl, hplace⟩ := hfound
  dsimp only at hplace ⊢
  rw [hplace.textTo_embedded]
  cases hname : variableName? (place.textTo stop) with
  | none => exact .error _
  | some found =>
    obtain ⟨name, length⟩ := found
    obtain ⟨hpos, hle⟩ := variableName?_length hname
    rw [Cursor.textTo, List.length_take] at hle
    dsimp only
    rw [advance_embedded (hle.trans (Nat.min_le_right _ _))]
    refine (readDefault_embedded hbehind count name (hplace.drop length)).bind
      fun found found' _ hdefault => ?_
    subst hdefault
    exact .ok rfl

theorem readParameters_embedded (hbehind : StartsLine behind) (count : Nat) (found : Bool)
    {parts : List Part} (hguard : ∀ part ∈ parts, part.Guarded) :
    CarriesOver (fun found found' => found' = found.map (Parameter.map (Span.shifted count)))
      (readParameters found parts)
      (readParameters found (parts.map (Part.embedded behind count))) := by
  induction parts generalizing found with
  | nil => exact .ok rfl
  | cons part parts ih =>
    obtain ⟨hpart, hparts⟩ := List.forall_mem_cons.1 hguard
    rw [List.map_cons, readParameters, readParameters]
    refine (skipTriviaFrom_embedded hbehind count hpart).bind fun start start' _ hstart => ?_
    have hiff : start'.offset < (part.embedded behind count).stop ↔ start.offset < part.stop :=
      hstart.lt_iff part.stop
    obtain ⟨rfl, hstart⟩ := hstart
    by_cases hlt : start.offset < part.stop
    · rw [if_pos hlt, if_pos (hiff.2 hlt)]
      refine (readParameter_embedded hbehind count hstart).bind fun first first' _ hfirst => ?_
      subst hfirst
      refine (ih true hparts).bind fun more more' _ hmore => ?_
      subst hmore
      exact .ok rfl
    · have hempty : (parts.map (Part.embedded behind count)).isEmpty = parts.isEmpty := by
        cases parts <;> rfl
      rw [if_neg hlt, if_neg (hiff.not.2 hlt), hempty]
      by_cases hmore : (found || !parts.isEmpty) = true
      · rw [if_pos hmore]
        exact .error _
      · rw [if_neg hmore, if_neg hmore]
        exact ih found hparts

theorem readBlock_embedded (hbehind : StartsLine behind) (count keyword : Nat) {inside : Cursor}
    (hguard : inside.Guarded close) :
    CarriesOver (fun block block' => block' = block.map (Span.shifted count))
      (readBlock keyword inside close)
      (readBlock (keyword + count) (inside.embedded behind count) (close + count)) := by
  refine (splitFrom_embedded hbehind count hguard hguard).bind fun parts parts' _ hparts => ?_
  obtain ⟨rfl, hparts⟩ := hparts
  refine (readParameters_embedded hbehind count false hparts).bind fun found found' _ heq => ?_
  subst heq
  refine .ok ?_
  rw [Nat.add_right_comm]
  rfl

/-! ## Blocks -/

theorem blocksFrom_eq_of_leadsAlike {previous previous' : Option Char} (h : LeadsAlike previous previous')
    (offset : Nat) (s : List Char) : blocksFrom previous' offset s = blocksFrom previous offset s := by
  rw [blocksFrom.eq_def, blocksFrom.eq_def previous, h]

theorem exists_scan_of_blocksFrom {previous : Option Char} {blocks : List (ParameterBlock Span)}
    (h : blocksFrom previous offset (c :: rest) = .ok blocks) :
    ∃ lexeme, Lexeme.scan c rest = .ok lexeme := by
  cases hscan : Lexeme.scan c rest with
  | ok lexeme => exact ⟨lexeme, rfl⟩
  | error cause =>
    rw [blocksFrom] at h
    simp only [Lexeme.scanAt, hscan] at h
    cases h

/-- The quote in the mark of a here-string opens a string if the line does not end, and that string does not end
either. -/
theorem blocksFrom_ne_ok_of_hereString {quote : Char} {indent : List Char}
    (hquote : quote = '\x27' ∨ quote = '"') (hindent : ∀ c ∈ indent, Lexeme.isIndent c = true)
    (previous : Option Char) (blocks : List (ParameterBlock Span)) :
    blocksFrom previous offset ('@' :: quote :: indent) ≠ .ok blocks := by
  intro h
  have hscans : Scans .plain ['@'] (quote :: indent) := by
    refine (IsLexeme.plain (by decide)).scans ⟨by simp, fun _ mark more heq _ => ?_⟩
    cases heq
    rw [Lexeme.opensHereString, List.dropWhile_eq_nil_iff.2 hindent]
  have hquoted := (blocksFrom_scans hscans (by
    rintro - c hc
    cases List.mem_singleton.1 hc
    rfl) offset).symm.trans h
  obtain ⟨lexeme, hscan⟩ := exists_scan_of_blocksFrom hquoted
  obtain ⟨count, hcount⟩ := Nat.exists_eq_add_of_lt lexeme.length_pos
  have hstring := scans_of_scan hscan
  rw [hcount, Nat.zero_add, List.take_succ_cons, List.drop_succ_cons] at hstring
  obtain ⟨hlexeme | ⟨-, heq, -⟩, -⟩ := hstring.isLexeme
  · obtain ⟨body, hbody⟩ := exists_quoted hlexeme hquote
    have hmem : quote ∈ indent := List.mem_of_mem_take (hbody ▸ List.mem_append_right _ (.head _))
    have hcontra := hindent quote hmem
    rcases hquote with rfl | rfl <;> cases hcontra
  · rcases hquote with rfl | rfl <;> cases heq

/-- The text at a place starts with a line end or is empty, has these blocks, whatever stands in front of it, and
does not start with a bracket, trivia apart. -/
structure Continues (behind : List Char) (place : Nat) (more : List (ParameterBlock Span)) : Prop where
  startsLine : StartsLine behind
  blocks : ∀ previous, blocksFrom previous place behind = .ok more
  skips : ∃ next, skipTriviaFrom (place + behind.length) place behind = .ok next ∧
    next.rest.head? ≠ some '('

variable {count : Nat} {more : List (ParameterBlock Span)}

/-- An escape at the end of the text takes the line end behind it, which changes nothing. -/
theorem Continues.escape (h : Continues behind (offset + 1) more) :
    (∀ previous, blocksFrom previous offset ('\x60' :: behind) = .ok more) ∧
      ∃ next, skipTriviaFrom (offset + 1 + behind.length) offset ('\x60' :: behind) = .ok next ∧
        next.rest.head? ≠ some '(' := by
  obtain ⟨hstarts, hblocks, hskips⟩ := h
  cases behind with
  | nil =>
    have hscans : Scans .escape ['\x60'] [] := ⟨'\x60', [], _, rfl, rfl, rfl, rfl⟩
    refine ⟨fun previous => ?_, ⟨offset, ['\x60']⟩, ?_, by simp⟩
    · exact (blocksFrom_scans hscans (by simp) offset).trans (hblocks _)
    · rw [skipTriviaFrom, if_pos (by simp)]
      rfl
  | cons c behind =>
    cases hstarts c rfl
    have hscans : Scans .escape ['\x60', '\n'] behind :=
      ⟨'\x60', '\n' :: behind, _, rfl, rfl, rfl, by simp⟩
    refine ⟨fun previous => ?_, ?_⟩
    · have hline := hblocks none
      rw [blocksFrom_lineEnd none _ rfl] at hline
      exact (blocksFrom_scans hscans (by simp) offset).trans hline
    · rw [skipTriviaFrom_blank rfl (by simp)] at hskips
      rw [skipTriviaFrom_continued rfl (by simp)]
      exact hskips

theorem skipTriviaFrom_append {next : Cursor} (h : skipTriviaFrom stop offset s = .ok next)
    (hstop : offset + s.length = stop) (hmore : Continues behind (stop + count) more) :
    ∃ next', skipTriviaFrom (stop + count + behind.length) (offset + count) (s ++ behind) = .ok next' ∧
      (next' = next.embedded behind count ∨
        next.rest.head? ≠ some '(' ∧ next'.rest.head? ≠ some '(') := by
  fun_induction skipTriviaFrom stop offset s with
  | case1 offset =>
    cases h
    obtain rfl : offset = stop := hstop
    obtain ⟨next', hnext', hround⟩ := hmore.skips
    exact ⟨next', hnext', .inr ⟨by simp [Cursor.clip], hround⟩⟩
  | case2 offset c rest hlt hblank ih =>
    rw [List.length_cons] at hstop
    rw [List.cons_append, skipTriviaFrom_blank hblank (by omega), Nat.add_right_comm offset]
    exact ih h (by omega)
  | case3 offset c rest hlt hblank hcomment ih =>
    obtain ⟨lexeme, hscan, hskipped⟩ := bind_eq_ok.1 h
    rw [scanAt_eq_ok_iff] at hscan
    have hle := lexeme.length_le
    rw [List.length_cons] at hstop hle
    have hscan' := scan_within hscan (not_unfinished_of_startsComment hcomment) hmore.startsLine
    rw [List.cons_append, skipTriviaFrom, if_pos (by omega), if_neg hblank,
      startsComment_within hmore.startsLine, if_pos hcomment, scanAt_eq_ok_iff.2 hscan']
    dsimp only [bind, Except.bind]
    rw [Lexeme.within_length, lexeme.drop_within, Nat.add_right_comm offset]
    exact ih lexeme hskipped (by rw [List.length_drop, List.length_cons]; omega)
  | case4 offset c rest hlt hblank hcomment hcontinues ih =>
    rw [Bool.and_eq_true, decide_eq_true_eq] at hcontinues
    obtain ⟨d, more, heq, hend⟩ := exists_of_continuesLine hcontinues.1
    cases heq
    rw [List.length_cons, List.length_cons] at hstop
    rw [List.cons_append, List.cons_append, skipTriviaFrom_continued hend (by omega),
      Nat.add_right_comm offset]
    exact ih h (by simp; omega)
  | case5 offset c rest hlt hblank hcomment hcontinues =>
    cases h
    by_cases hescape : c :: rest = ['\x60']
    · cases hescape
      obtain rfl : offset + 1 = stop := hstop
      rw [Nat.add_right_comm offset] at hmore ⊢
      obtain ⟨next', hnext', hround⟩ := hmore.escape.2
      exact ⟨next', hnext', .inr ⟨by simp, hround⟩⟩
    -- no line is continued here, since the text goes on behind an escape
    have hcontinues' : continuesLine (c :: rest) = false := by
      by_contra hcontra
      obtain ⟨d, more, heq, -⟩ := exists_of_continuesLine (Bool.of_not_eq_false hcontra)
      cases heq
      rw [List.length_cons, List.length_cons] at hstop
      refine hcontinues ?_
      rw [Bool.of_not_eq_false hcontra, Bool.true_and, decide_eq_true_eq]
      omega
    refine ⟨_, ?_, .inl rfl⟩
    rw [List.cons_append, skipTriviaFrom, if_pos (by omega), if_neg hblank,
      startsComment_within hmore.startsLine, if_neg hcomment, continuesLine_within hescape, hcontinues',
      Bool.false_and, if_neg Bool.false_ne_true]
    rfl
  | case6 offset c rest hlt =>
    rw [List.length_cons] at hstop
    omega

theorem takeWhile_within {p : Char → Bool} (hp : p '\n' = false) (hbehind : StartsLine behind)
    (s : List Char) : (s ++ behind).takeWhile p = s.takeWhile p := by
  induction s with
  | nil =>
    cases behind with
    | nil => rfl
    | cons c behind =>
      cases hbehind c rfl
      exact List.takeWhile_cons_of_neg (Bool.not_eq_true _ ▸ hp)
  | cons c s ih => rw [List.cons_append, List.takeWhile_cons, List.takeWhile_cons, ih]

/-- Texts that are shorter than a bound have the same blocks in the longer text, and those of the text behind
after them. -/
def ReadsOnBelow (behind : List Char) (count stop : Nat) (more : List (ParameterBlock Span))
    (bound : Nat) : Prop :=
  ∀ (previous : Option Char) (offset : Nat) (s : List Char) (blocks : List (ParameterBlock Span)),
    s.length < bound → offset + s.length = stop → blocksFrom previous offset s = .ok blocks →
    blocksFrom previous (offset + count) (s ++ behind) =
      .ok (blocks.map (ParameterBlock.map (Span.shifted count)) ++ more)

/-- Behind a keyword both texts have a block, or neither has. -/
theorem keyword_append (keyword : Nat) {previous : Option Char} {place : Cursor}
    {blocks : List (ParameterBlock Span)} (hmore : Continues behind (stop + count) more)
    (hstop : place.offset + place.rest.length = stop)
    (hread : ReadsOnBelow behind count stop more (place.rest.length + 1))
    (h : (do
      let next ← skipTrivia place stop
      match next.rest with
      | '(' :: inside => do
        let close ← closing '(' ')' ⟨next.offset + 1, inside⟩
        let block ← readBlock keyword ⟨next.offset + 1, inside⟩ close
        let blocks ← blocksFrom (some ')') (close + 1) (inside.drop (close - next.offset))
        return block :: blocks
      | _ => blocksFrom previous place.offset place.rest) = Except.ok blocks) :
    (do
      let next ← skipTrivia (place.embedded behind count) (stop + count + behind.length)
      match next.rest with
      | '(' :: inside => do
        let close ← closing '(' ')' ⟨next.offset + 1, inside⟩
        let block ← readBlock (keyword + count) ⟨next.offset + 1, inside⟩ close
        let blocks ← blocksFrom (some ')') (close + 1) (inside.drop (close - next.offset))
        return block :: blocks
      | _ => blocksFrom previous (place.offset + count) (place.rest ++ behind)) =
      Except.ok (blocks.map (ParameterBlock.map (Span.shifted count)) ++ more) := by
  obtain ⟨next, hnext, h⟩ := bind_eq_ok.1 h
  obtain ⟨next', hnext', heq⟩ := skipTriviaFrom_append hnext hstop hmore
  refine bind_eq_ok.2 ⟨next', hnext', ?_⟩
  by_cases hround : next.rest.head? = some '('
  swap
  · -- no bracket follows in either text, so the word is no keyword
    have hround' : next'.rest.head? ≠ some '(' := by
      rcases heq with rfl | ⟨-, hround'⟩
      · exact (hmore.startsLine.head?_append _ (by decide)).not.2 hround
      · exact hround'
    have hpass : blocksFrom previous place.offset place.rest = .ok blocks := by
      rw [← h]
      split
      · next heq => exact absurd (congrArg List.head? heq) hround
      · rfl
    split
    · next heq => exact absurd (congrArg List.head? heq) hround'
    · exact hread _ _ _ _ (Nat.lt_succ_self _) hstop hpass
  obtain rfl := heq.resolve_right fun hother => hother.1 hround
  obtain ⟨opening, s⟩ := next
  obtain ⟨inside, rfl⟩ := List.head?_eq_some_iff.1 hround
  obtain ⟨trivia, htrivia, -, hopening⟩ := exists_isTrivia hnext hstop.le
  obtain ⟨close, hclose, h⟩ := bind_eq_ok.1 h
  obtain ⟨block, hblock, h⟩ := bind_eq_ok.1 h
  obtain ⟨others, hothers, h⟩ := bind_eq_ok.1 h
  cases h
  obtain ⟨_, hclose', rfl⟩ := closing_embedded rfl behind count close hclose
  obtain ⟨_, hblock', rfl⟩ := readBlock_embedded hmore.startsLine count keyword
    (.of_closing rfl hclose) block hblock
  -- what follows behind the block is shorter, and ends where the text ends
  obtain ⟨inner, -, last, hinside, hlast, -, -⟩ := (closing_eq_ok_iff rfl).1 hclose
  have hlengths := congrArg List.length hinside
  have hplaceLength := congrArg List.length htrivia
  rw [List.length_append, List.length_cons] at hlengths hplaceLength
  dsimp only at hlast
  have hbehind := hread (some ')') (close + 1) (inside.drop (close - opening)) others
    (by rw [List.length_drop]; omega) (by rw [List.length_drop]; omega) hothers
  have hdrop := drop_behind_embedded rfl hclose behind count
  dsimp only [Cursor.embedded] at hclose' hblock' hdrop ⊢
  rw [List.cons_append, Nat.add_right_comm opening]
  refine bind_eq_ok.2 ⟨_, hclose', bind_eq_ok.2 ⟨_, hblock', bind_eq_ok.2 ⟨_, ?_, rfl⟩⟩⟩
  rw [hdrop, Nat.add_right_comm]
  exact hbehind

theorem word_append {previous : Option Char} {blocks : List (ParameterBlock Span)}
    (hmore : Continues behind (stop + count) more) (hletter : Text.isLetter c = true)
    (hfollow : keywordMayFollow previous = true) (hstop : offset + (c :: rest).length = stop)
    (hread : ReadsOnBelow behind count stop more (c :: rest).length)
    (h : blocksFrom previous offset (c :: rest) = .ok blocks) :
    blocksFrom previous (offset + count) (c :: (rest ++ behind)) =
      .ok (blocks.map (ParameterBlock.map (Span.shifted count)) ++ more) := by
  have hword := congrArg (c :: ·) (takeWhile_within (p := isNamePart) rfl hmore.startsLine rest)
  have hle := (List.takeWhile_sublist isNamePart (l := rest)).length_le
  generalize hwordEq : c :: rest.takeWhile isNamePart = word at hword
  have hlength : word.length = (rest.takeWhile isNamePart).length + 1 := by rw [← hwordEq]; rfl
  generalize hplace : (⟨offset + word.length, rest.drop (word.length - 1)⟩ : Cursor) = place
  have hplace' : (⟨offset + count + word.length, (rest ++ behind).drop (word.length - 1)⟩ : Cursor) =
      place.embedded behind count := by
    rw [← hplace, Cursor.embedded, Nat.add_right_comm, List.drop_append_of_le_length (by omega)]
  rw [List.length_cons] at hstop
  have hshorter : place.rest.length < (c :: rest).length := by
    rw [← hplace, List.length_drop, List.length_cons]
    omega
  have hplaceStop : place.offset + place.rest.length = stop := by
    rw [← hplace, List.length_drop]
    dsimp only
    omega
  by_cases hkeyword : Text.lower word = "param".toList
  swap
  · rw [blocksFrom_word hletter hfollow hwordEq hplace hkeyword] at h
    rw [blocksFrom_word hletter hfollow hword hplace' hkeyword]
    exact hread _ _ _ _ hshorter hplaceStop h
  have hend : offset + count + (rest ++ behind).length + 1 = stop + count + behind.length := by
    rw [List.length_append]
    omega
  rw [blocksFrom_keyword hletter hfollow hwordEq hplace hkeyword, Nat.add_assoc, hstop] at h
  rw [blocksFrom_keyword hletter hfollow hword hplace' hkeyword, hend]
  exact keyword_append offset hmore hplaceStop
    (fun _ _ _ _ hlt => hread _ _ _ _ (Nat.lt_of_lt_of_le hlt hshorter)) h

/-- The induction is on the length of the text. -/
theorem blocksFrom_append {previous : Option Char} {blocks : List (ParameterBlock Span)}
    (hmore : Continues behind (stop + count) more) (hstop : offset + s.length = stop)
    (h : blocksFrom previous offset s = .ok blocks) :
    blocksFrom previous (offset + count) (s ++ behind) =
      .ok (blocks.map (ParameterBlock.map (Span.shifted count)) ++ more) := by
  induction hlength : s.length using Nat.strong_induction_on generalizing previous offset s blocks with
  | _ length ih =>
  have hread : ReadsOnBelow behind count stop more length := fun _ _ s _ hlt hstop h =>
    ih s.length hlt hstop h rfl
  subst hlength
  cases s with
  | nil =>
    rw [blocksFrom] at h
    cases h
    obtain rfl : offset = stop := hstop
    exact hmore.blocks _
  | cons c rest =>
  rw [List.cons_append]
  by_cases hstarts : (Text.isLetter c && keywordMayFollow previous) = true
  · obtain ⟨hletter, hfollow⟩ := Bool.and_eq_true_iff.1 hstarts
    exact word_append hmore hletter hfollow hstop hread h
  obtain ⟨lexeme, hscan⟩ := exists_scan_of_blocksFrom h
  by_cases hunfinished : Unfinished (c :: rest)
  · cases hunfinished with
    | hereString hquote hindent => exact absurd h (blocksFrom_ne_ok_of_hereString hquote hindent _ _)
    | escape =>
      have hscans : Scans .escape ['\x60'] [] := ⟨'\x60', [], _, rfl, rfl, rfl, rfl⟩
      have hnone := (blocksFrom_scans hscans (by simp) offset).symm.trans h
      rw [blocksFrom] at hnone
      cases hnone
      obtain rfl : offset + 1 = stop := hstop
      rw [Nat.add_right_comm] at hmore
      exact hmore.escape.1 previous
  have hscans := scans_of_scan hscan
  have hsplit := List.take_append_drop lexeme.length (c :: rest)
  have hshorter := lexeme.length_drop_lt
  have hkind : lexeme.kind = .plain → ∀ d ∈ (c :: rest).take lexeme.length,
      (Text.isLetter d && keywordMayFollow previous) = false := by
    intro hplain d hd
    rw [length_of_plain hscan hplain] at hd
    cases List.mem_singleton.1 hd
    exact Bool.eq_false_iff.2 hstarts
  rw [← hsplit] at hunfinished h hstop
  have hscans' := hscans.append hunfinished hmore.startsLine
  rw [blocksFrom_scans hscans hkind] at h
  rw [List.length_append, ← Nat.add_assoc] at hstop
  rw [← List.cons_append, ← hsplit, List.append_assoc, blocksFrom_scans hscans' hkind,
    Nat.add_right_comm]
  exact hread _ _ _ _ hshorter hstop h

/-! ## The second script -/

theorem Continues.nil (place : Nat) : Continues [] place [] where
  startsLine := by simp [StartsLine]
  blocks previous := by rw [blocksFrom]
  skips := ⟨Cursor.clip ⟨place, []⟩ place, by rw [skipTriviaFrom]; rfl, by simp [Cursor.clip]⟩

/-- The blocks of a text are found behind any number of characters. -/
theorem blocksFrom_shifted {previous : Option Char} {blocks : List (ParameterBlock Span)}
    (h : blocksFrom previous offset s = .ok blocks) (count : Nat) :
    blocksFrom previous (offset + count) s =
      .ok (blocks.map (ParameterBlock.map (Span.shifted count))) := by
  have happend := blocksFrom_append (.nil (offset + s.length + count)) rfl h
  rwa [List.append_nil, List.append_nil] at happend

/-- Where blocks are read nothing keeps trivia from being skipped. -/
theorem exists_skipTrivia {previous : Option Char} {blocks : List (ParameterBlock Span)}
    (h : blocksFrom previous offset s = .ok blocks) (stop : Nat) :
    ∃ next, skipTriviaFrom stop offset s = .ok next := by
  fun_induction skipTriviaFrom stop offset s generalizing previous with
  | case1 => exact ⟨_, rfl⟩
  | case2 offset c rest hlt hblank ih =>
    have hscans : Scans .plain [c] rest :=
      ⟨c, rest, _, rfl, scan_plain (plain_of_isBlank hblank).1 rest, rfl, rfl⟩
    refine ih ((blocksFrom_scans hscans (fun _ d hd => ?_) offset).symm.trans h)
    cases List.mem_singleton.1 hd
    by_contra hcontra
    rw [Text.isBlank_of_isLetter (Bool.and_eq_true_iff.1 (Bool.of_not_eq_false hcontra)).1] at hblank
    cases hblank
  | case3 offset c rest hlt hblank hcomment ih =>
    obtain ⟨lexeme, hscan⟩ := exists_scan_of_blocksFrom h
    have hkind := isComment_of_startsComment hscan hcomment
    have hlength : ((c :: rest).take lexeme.length).length = lexeme.length :=
      List.length_take_of_le lexeme.length_le
    rw [← List.take_append_drop lexeme.length (c :: rest), blocksFrom_scans (scans_of_scan hscan)
      (fun hplain => by rw [hplain] at hkind; cases hkind), hlength] at h
    obtain ⟨next, hnext⟩ := ih lexeme h
    exact ⟨next, bind_eq_ok.2 ⟨lexeme, scanAt_eq_ok_iff.2 hscan, hnext⟩⟩
  | case4 offset c rest hlt hblank hcomment hcontinues ih =>
    rw [Bool.and_eq_true] at hcontinues
    obtain ⟨d, more, heq, -⟩ := exists_of_continuesLine hcontinues.1
    cases heq
    have hscans : Scans .escape ['\x60', d] more :=
      ⟨'\x60', d :: more, _, rfl, rfl, rfl, by simp⟩
    exact ih ((blocksFrom_scans hscans (by simp) offset).symm.trans h)
  | case5 => exact ⟨_, rfl⟩
  | case6 => exact ⟨_, rfl⟩

/-- A script behind a line end. -/
theorem continues_newline {script : List Char} {blocks : List (ParameterBlock Span)}
    (h : parameterBlocks script = .ok blocks)
    (hround : ∀ trivia inside, script = trivia ++ '(' :: inside → ¬ IsTrivia trivia inside)
    (place : Nat) : Continues ('\n' :: script) place
      (blocks.map (ParameterBlock.map (Span.shifted (place + 1)))) := by
  have hshifted := blocksFrom_shifted h (place + 1)
  rw [Nat.zero_add] at hshifted
  refine ⟨startsLine_newline script, fun previous => ?_, ?_⟩
  · rw [blocksFrom_lineEnd previous place rfl, @blocksFrom_eq_of_leadsAlike none (some '\n') rfl]
    exact hshifted
  · obtain ⟨next, hnext⟩ := exists_skipTrivia hshifted (place + ('\n' :: script).length)
    refine ⟨next, ?_, fun hhead => ?_⟩
    · rw [skipTriviaFrom_blank rfl (by simp)]
      exact hnext
    · obtain ⟨offset, s⟩ := next
      obtain ⟨inside, rfl⟩ := List.head?_eq_some_iff.1 hhead
      obtain ⟨trivia, heq, htrivia, -⟩ := exists_isTrivia hnext (by simp; omega)
      exact hround trivia inside heq htrivia

end

/-! ## Lines and columns -/

end DscAudit.PowerShell

namespace DscAudit

/-- The same column, farther down. -/
def Text.Position.down (lines : Nat) (position : Text.Position) : Text.Position :=
  ⟨position.line + lines, position.column⟩

theorem Text.positionAt_append {text : List Char} {offset : Nat} (h : offset ≤ text.length)
    (behind : List Char) : positionAt (text ++ behind) offset = positionAt text offset := by
  rw [positionAt, positionAt, List.take_append_of_le_length h]

theorem Text.positionAt_newline (text behind : List Char) (offset : Nat) :
    positionAt (text ++ '\n' :: behind) (offset + (text.length + 1)) =
      (positionAt behind offset).down (1 + text.count '\n') := by
  have htake : (text ++ '\n' :: behind).take (offset + (text.length + 1)) =
      text ++ '\n' :: behind.take offset := by
    rw [Nat.add_comm, Nat.add_assoc, Nat.add_comm 1, List.take_length_add_append, List.take_succ_cons]
  have hline : (List.count '\n' (text ++ '\n' :: behind.take offset)) =
      (behind.take offset).count '\n' + (1 + text.count '\n') := by
    rw [List.count_append, List.count_cons_self]
    omega
  have hcolumn : (text ++ '\n' :: behind.take offset).reverse.takeWhile (· != '\n') =
      (behind.take offset).reverse.takeWhile (· != '\n') := by
    rw [List.reverse_append, List.reverse_cons, List.append_assoc]
    exact PowerShell.takeWhile_within rfl (PowerShell.startsLine_newline _) _
  rw [positionAt, positionAt, htake, Position.down]
  dsimp only
  rw [hline, hcolumn, Nat.add_assoc]

namespace PowerShell

def Extent.down (lines : Nat) (extent : Extent) : Extent :=
  ⟨extent.first.down lines, extent.last.down lines, extent.text⟩

theorem Span.Fits.extent_append {text : List Char} {span : Span} (h : span.Fits text)
    (behind : List Char) : span.extent (text ++ behind) = span.extent text := by
  have hslice : span.slice (text ++ behind) = span.slice text := by
    rw [slice, slice, List.drop_append_of_le_length (h.1.trans h.2),
      List.take_append_of_le_length (by rw [List.length_drop]; exact Nat.sub_le_sub_right h.2 _)]
  rw [Span.extent, Span.extent, Text.positionAt_append (h.1.trans h.2), Text.positionAt_append h.2, hslice]

theorem Span.extent_newline (text behind : List Char) (span : Span) :
    (span.shifted (text.length + 1)).extent (text ++ '\n' :: behind) =
      (span.extent behind).down (1 + text.count '\n') := by
  have hslice : (span.shifted (text.length + 1)).slice (text ++ '\n' :: behind) =
      span.slice behind := by
    rw [slice, slice, shifted, Nat.add_sub_add_right, Nat.add_comm, Nat.add_assoc, Nat.add_comm 1,
      List.drop_length_add_append, List.drop_succ_cons]
  rw [extent, extent, hslice, shifted, Text.positionAt_newline, Text.positionAt_newline]
  rfl

theorem ParameterBlock.map_map {ρ σ τ : Type} (f : ρ → σ) (g : σ → τ) (block : ParameterBlock ρ) :
    (block.map f).map g = block.map (g ∘ f) := by
  simp only [ParameterBlock.map, Parameter.map, Attribute.map, NamedArgument.map, List.map_map,
    Function.comp_def]

theorem ParameterBlock.map_congr {ρ σ : Type} {f g : ρ → σ} {block : ParameterBlock ρ}
    (h : ∀ location ∈ block.locations, f location = g location) : block.map f = block.map g := by
  simp only [locations, List.forall_mem_cons, List.forall_mem_flatMap, List.forall_mem_map] at h
  obtain ⟨hblock, hparameters⟩ := h
  rw [ParameterBlock.map, ParameterBlock.map, hblock]
  congr 1
  refine List.map_congr_left fun parameter hparameter => ?_
  obtain ⟨hlocation, howners⟩ := hparameters parameter hparameter
  rw [Parameter.map, Parameter.map, hlocation]
  congr 1
  refine List.map_congr_left fun owner howner => ?_
  obtain ⟨hlocation, harguments⟩ := howners owner howner
  rw [Attribute.map, Attribute.map, hlocation]
  congr 1
  exact List.map_congr_left fun argument hargument => by
    rw [NamedArgument.map, NamedArgument.map, harguments argument hargument]

/-- The blocks of two scripts with a line end between them are those of the first one, where they are, and
those of the second one in the same columns, but as many lines farther down as the first script and the line
end take. -/
theorem parameterBlocks_joined {script behind : List Char} {blocks more : List (ParameterBlock Span)}
    (h : parameterBlocks script = .ok blocks) (hmore : parameterBlocks behind = .ok more)
    (hround : ∀ trivia inside, behind = trivia ++ '(' :: inside → ¬ IsTrivia trivia inside) :
    ∃ joined, parameterBlocks (script ++ '\n' :: behind) = .ok joined ∧
      joined.map (·.map (Span.extent (script ++ '\n' :: behind))) =
        blocks.map (·.map (Span.extent script)) ++
          more.map (·.map fun span => (span.extent behind).down (1 + script.count '\n')) := by
  have hcontinues := continues_newline hmore hround script.length
  have hjoined := @blocksFrom_append ('\n' :: behind) script script.length 0 0 _ none blocks
    hcontinues (Nat.zero_add _) h
  refine ⟨_, hjoined, ?_⟩
  rw [List.map_append, List.map_map, List.map_map]
  congr 1
  · refine List.map_congr_left fun block hblock => ?_
    rw [Function.comp_apply, ParameterBlock.map_map]
    exact ParameterBlock.map_congr fun span hspan =>
      (fits_of_mem_locations h hblock hspan).extent_append _
  · refine List.map_congr_left fun block _ => ?_
    rw [Function.comp_apply, ParameterBlock.map_map]
    exact ParameterBlock.map_congr fun span _ => span.extent_newline script behind

/-- A script that ends with a keyword without a bracket and an escape. -/
def openScript : List Char := "param($a)\nparam \x60".toList

/-- A script that starts with a string. -/
def quotedScript : List Char := "\x27(\x27 # (\n  param($b)".toList

theorem parameterBlocks_joined_openScript :
    ∃ joined, parameterBlocks (openScript ++ '\n' :: quotedScript) = .ok joined ∧
      joined.map (fun block => (block.location.extent (openScript ++ '\n' :: quotedScript)).first) =
        [⟨1, 1⟩, ⟨4, 3⟩] := by
  have h : parameterBlocks openScript = .ok [⟨[⟨"a", [], none, ⟨6, 8⟩⟩], ⟨0, 9⟩⟩] := by
    with_unfolding_all rfl
  have hmore : parameterBlocks quotedScript = .ok [⟨[⟨"b", [], none, ⟨16, 18⟩⟩], ⟨10, 19⟩⟩] := by
    with_unfolding_all rfl
  have hround : ∀ trivia inside, quotedScript = trivia ++ '(' :: inside → ¬ IsTrivia trivia inside := by
    intro trivia inside heq htrivia
    have hlength := congrArg List.length heq
    rw [List.length_append, List.length_cons] at hlength
    have hskip := skipTriviaFrom_isTrivia htrivia 0 quotedScript.length (by omega)
    have hquote : skipTriviaFrom quotedScript.length 0 quotedScript = .ok ⟨0, quotedScript⟩ := by
      with_unfolding_all rfl
    rw [← heq, hquote] at hskip
    cases (Cursor.mk.inj (Except.ok.inj hskip)).2
  obtain ⟨joined, hjoined, hextents⟩ := parameterBlocks_joined h hmore hround
  refine ⟨joined, hjoined, ?_⟩
  have hfirst := congrArg (List.map fun block => block.location.first) hextents
  rw [List.map_map] at hfirst
  exact hfirst

end PowerShell

end DscAudit

import DscAudit.Proofs.PowerShell.LineEnd
import DscAudit.Proofs.PowerShell.TwinBlock

/-!
# Declarations with carriage returns

A script and the same script with a carriage return in front of each line feed declare the same blocks,
parameters, attributes and arguments, each where the place of the one moves to.  What is written in them is the
same but for carriage returns.
-/

namespace DscAudit.PowerShell

open Text (withReturns moved withReturns_cons withReturns_newline)

/-! ## Declarations that correspond -/

/-- The second word is the first one with carriage returns in front of some of its line feeds. -/
def Respelled (word word' : String) : Prop := Text.Returned word.toList word'.toList

theorem respelled_ofList {s t : List Char} (h : Text.Returned s t) :
    Respelled (String.ofList s) (String.ofList t) := by
  rw [Respelled, String.toList_ofList, String.toList_ofList]
  exact h

/-- Both words have a property that none with a line feed has, or neither. -/
theorem Respelled.iff_of_not_mem {word word' : String} (h : Respelled word word')
    {good : String → Prop} (hgood : ∀ u, good u → '\n' ∉ u.toList) : good word' ↔ good word := by
  rcases h.eq_or_mem with heq | ⟨hmem, hmem'⟩
  · rw [String.toList_inj.1 heq]
  · exact iff_of_false (fun hword => hgood word' hword hmem') fun hword => hgood word hword hmem

/-- Where a span of the text moves to. -/
def Span.relocated (text : List Char) (span : Span) : Span :=
  ⟨moved text span.start, moved text span.stop⟩

section

variable (text : List Char)

structure NamedArgument.Alike (argument argument' : NamedArgument Span) : Prop where
  name : argument'.name = argument.name
  value : Respelled argument.value argument'.value
  valueOmitted : argument'.valueOmitted = argument.valueOmitted
  location : argument'.location = argument.location.relocated text

inductive Argument.Alike : Argument → Argument → Prop
  | named {argument argument' : NamedArgument Span} (h : argument.Alike text argument') :
      Alike (.named argument) (.named argument')
  | positional {word word' : String} (h : Respelled word word') :
      Alike (.positional word) (.positional word')

structure Attribute.Alike (owner owner' : Attribute Span) : Prop where
  name : Respelled owner.name owner'.name
  named : List.Forall₂ (NamedArgument.Alike text) owner.named owner'.named
  positional : List.Forall₂ Respelled owner.positional owner'.positional
  isTypeConstraint : owner'.isTypeConstraint = owner.isTypeConstraint
  location : owner'.location = owner.location.relocated text

structure Parameter.Alike (parameter parameter' : Parameter Span) : Prop where
  name : Respelled parameter.name parameter'.name
  attributes : List.Forall₂ (Attribute.Alike text) parameter.attributes parameter'.attributes
  default : Option.Rel Respelled parameter.default parameter'.default
  location : parameter'.location = parameter.location.relocated text

structure ParameterBlock.Alike (block block' : ParameterBlock Span) : Prop where
  parameters : List.Forall₂ (Parameter.Alike text) block.parameters block'.parameters
  location : block'.location = block.location.relocated text

end

variable {text s t rest : List Char} {offset stop close : Nat} {c : Char}

/-! ## Places that correspond -/

theorem textTo_relocated {place : Cursor} (hat : place.At text) (stop : Nat) :
    (place.relocated text).textTo (moved text stop) = withReturns (place.textTo stop) := by
  rw [Cursor.textTo, Cursor.textTo, Cursor.relocated]
  dsimp only
  by_cases hle : place.offset ≤ stop
  · rw [Text.moved_sub hat.symm hle, Text.take_moved]
  · have hlt := Nat.le_of_lt (Nat.lt_of_not_le hle)
    rw [Nat.sub_eq_zero_of_le hlt, Nat.sub_eq_zero_of_le (Text.moved_mono text hlt)]
    rfl

theorem advance_relocated {place : Cursor} (hat : place.At text) (count : Nat) :
    (place.relocated text).advance (moved place.rest count) =
      (place.advance count).relocated text := by
  rw [Cursor.advance, Cursor.relocated, Cursor.relocated, Cursor.advance]
  dsimp only
  rw [Text.moved_add hat.symm, Text.drop_moved]

theorem advance_one_relocated (hat : Cursor.At text ⟨offset, c :: rest⟩) (hc : c ≠ '\n') :
    (Cursor.relocated text ⟨offset, c :: rest⟩).advance 1 =
      Cursor.relocated text ⟨offset + 1, rest⟩ := by
  have hone : moved (c :: rest) 1 = 1 := Text.moved_cons hc rest 0
  have hadvance := advance_relocated hat 1
  rw [hone] at hadvance
  exact hadvance

/-- Behind brackets of which the first one stands at the place. -/
theorem advance_group_relocated {opening expected : Char} (hat : Cursor.At text ⟨offset, c :: rest⟩)
    (hc : c ≠ '\n') (hexpected : expected ≠ '\n')
    (hclose : closing opening expected ⟨offset + 1, rest⟩ = .ok close) :
    (Cursor.relocated text ⟨offset, c :: rest⟩).advance (1 + (moved text close - moved text offset)) =
      Cursor.relocated text ⟨close + 1, rest.drop (close - offset)⟩ := by
  have hnext := hat.cons.2.2
  have hlt : offset < close := (closing_eq_iff.1 hclose).bounds.1
  obtain ⟨-, hlength, hsucc, hdrop⟩ := hnext.behind_moved (hat.moved_succ hc) hexpected hclose
  rw [Cursor.relocated_cons text offset hc,
    advance_group rfl ((Text.moved_lt_iff hlength.le).2 hlt), Cursor.relocated]
  dsimp only
  rw [hdrop, hsucc]

namespace Meets

variable {place place' : Cursor}

theorem offset_eq (h : Meets text stop place place') : place'.offset = moved text place.offset := by
  rcases h with ⟨-, rfl⟩ | ⟨hplace, hplace'⟩
  · rfl
  · rw [hplace, hplace']

theorem of_lt (h : Meets text stop place place') (hlt : place.offset < stop) :
    place.At text ∧ place' = place.relocated text := by
  rcases h with hsame | ⟨hplace, -⟩
  · exact hsame
  · exact absurd hplace hlt.ne

theorem lt_iff (h : Meets text stop place place') (hstop : stop ≤ text.length) :
    place'.offset < moved text stop ↔ place.offset < stop := by
  rw [h.offset_eq, Text.moved_lt_iff hstop]

theorem textTo (h : Meets text stop place place') :
    place'.textTo (moved text stop) = withReturns (place.textTo stop) := by
  rcases h with ⟨hat, rfl⟩ | ⟨hplace, hplace'⟩
  · exact textTo_relocated hat stop
  · rw [Cursor.textTo, Cursor.textTo, hplace, hplace', Nat.sub_self, Nat.sub_self]
    rfl

theorem skipTrivia {start : Cursor} (hat : start.At text) (hstop : stop ≤ text.length) :
    Agree (FaultMoves text) (Meets text stop) (PowerShell.skipTrivia start stop)
      (PowerShell.skipTrivia (start.relocated text) (moved text stop)) :=
  skipTriviaFrom_moved hstop hat

theorem codeEnd (h : Meets text stop place place') (hstop : stop ≤ text.length) :
    Agree (FaultMoves text) (fun found found' => found' = moved text found)
      (PowerShell.codeEnd place stop) (PowerShell.codeEnd place' (moved text stop)) := by
  rcases h with ⟨hat, rfl⟩ | ⟨hplace, hplace'⟩
  · exact codeEndFrom_moved hstop hat
  · rw [PowerShell.codeEnd, PowerShell.codeEnd, codeEndFrom_past hplace.ge,
      codeEndFrom_past hplace'.ge]
    exact hplace'.trans (congrArg (moved text) hplace.symm)

theorem codeText (h : Meets text stop place place') {last : Nat} (hlt : place.offset < last)
    (hlast : last ≤ stop) (hstop : stop ≤ text.length) :
    Agree (FaultMoves text) Text.Returned (PowerShell.codeText place last)
      (PowerShell.codeText place' (moved text last)) := by
  obtain ⟨hat, rfl⟩ := h.of_lt (hlt.trans_le hlast)
  exact codeTextFrom_moved (hlast.trans hstop) hat

theorem findArguments (h : Meets text stop place place') (hstop : stop ≤ text.length) :
    Agree (FaultMoves text)
      (fun found found' => found' = found.map (·.relocated text) ∧
        ∀ opening ∈ found, opening.At text ∧ ∃ inside, opening.rest = '(' :: inside)
      (PowerShell.findArguments stop place.offset place.rest)
      (PowerShell.findArguments (moved text stop) place'.offset place'.rest) := by
  rcases h with ⟨hat, rfl⟩ | ⟨hplace, hplace'⟩
  · exact findArguments_moved hstop hat
  · rw [findArguments_past hplace.ge, findArguments_past hplace'.ge]
    exact ⟨rfl, by simp⟩

end Meets

/-! ## Arguments -/

/-- No character of a name ends a line, so names are the same in both texts. -/
theorem takeWhile_returned {p : Char → Bool} (h : Text.Returned s t) (hreturn : p '\r' = false)
    (hfeed : p '\n' = false) : t.takeWhile p = s.takeWhile p := by
  rcases (h.takeWhile (hreturn.trans hfeed.symm)).eq_or_mem with heq | ⟨hmem, -⟩
  · exact heq.symm
  · have hcontra := List.mem_takeWhile_imp hmem
    rw [hfeed] at hcontra
    cases hcontra

theorem assignment?_returned (h : Text.Returned s t) :
    Option.Rel (fun found found' => found'.1 = found.1 ∧ Text.Returned found.2 found'.2)
      (assignment? s) (assignment? t) := by
  cases h with
  | nil => exact .none
  | line h => exact .none
  | @char c s t h =>
    rw [assignment?, assignment?]
    by_cases hstart : isIdentifierStart c = true
    swap
    · rw [if_neg hstart, if_neg hstart]
      exact .none
    have hname := takeWhile_returned (p := isIdentifierPart) h (by decide) (by decide)
    have hvalue := (h.dropWhile (p := isIdentifierPart) (by decide)).dropWhile (p := Text.isBlank)
      (by decide)
    rw [if_pos hstart, if_pos hstart, hname, Text.trimStart, Text.trimStart]
    have hassigns {value value' : List Char} (h : Text.Returned value value') :
        Option.Rel (fun found found' => found'.1 = found.1 ∧ Text.Returned found.2 found'.2)
          (some (c :: s.takeWhile isIdentifierPart, Text.trim value))
          (some (c :: s.takeWhile isIdentifierPart, Text.trim value')) :=
      .some ⟨rfl, h.trimWhile (by decide)⟩
    generalize (s.dropWhile isIdentifierPart).dropWhile Text.isBlank = value at hvalue ⊢
    generalize (t.dropWhile isIdentifierPart).dropWhile Text.isBlank = value' at hvalue ⊢
    cases hvalue with
    | nil => exact .none
    | line h => exact .none
    | @char d value value' h =>
      by_cases hequals : d = '='
      swap
      · simp [hequals]
      subst hequals
      cases h with
      | nil => exact hassigns .nil
      | line h => exact hassigns (.line h)
      | @char e value value' h =>
        by_cases htwice : e = '='
        · subst htwice
          exact .none
        · simpa [htwice] using hassigns (.char e h)

theorem not_isIdentifier (h : '\n' ∈ s) : isIdentifier s = false := by
  cases s with
  | nil => rfl
  | cons c s =>
    rw [isIdentifier, Bool.and_eq_false_iff]
    rcases List.mem_cons.1 h with rfl | hmem
    · exact .inl (by decide)
    · exact .inr (List.all_eq_false.2 ⟨'\n', hmem, by decide⟩)

theorem ofText_alike (h : Text.Returned s t) (span : Span) :
    Argument.Alike text (.ofText s span) (.ofText t (span.relocated text)) := by
  rw [Argument.ofText, Argument.ofText]
  have hassignment := assignment?_returned h
  cases hfound : assignment? s with
  | some found =>
    cases hfound' : assignment? t with
    | none =>
      rw [hfound, hfound'] at hassignment
      cases hassignment
    | some found' =>
      rw [hfound, hfound'] at hassignment
      cases hassignment with
      | some h =>
        refine .named ⟨?_, respelled_ofList h.2, rfl, rfl⟩
        rw [h.1]
  | none =>
    cases hfound' : assignment? t with
    | some found' =>
      rw [hfound, hfound'] at hassignment
      cases hassignment
    | none =>
      dsimp only
      rcases h.eq_or_mem with rfl | ⟨hmem, hmem'⟩
      · by_cases hidentifier : isIdentifier s = true
        · rw [if_pos hidentifier, if_pos hidentifier]
          exact .named ⟨rfl, respelled_ofList .nil, rfl, rfl⟩
        · rw [if_neg hidentifier, if_neg hidentifier]
          exact .positional (respelled_ofList h)
      · rw [not_isIdentifier hmem, not_isIdentifier hmem']
        exact .positional (respelled_ofList h)

theorem readArgument_moved {part : Part} (hpart : part.In text) :
    Agree (FaultMoves text) (Option.Rel (Argument.Alike text)) (readArgument part)
      (readArgument (part.relocated text)) := by
  refine (Meets.skipTrivia hpart.1 hpart.2).bind fun start start' hstart _ hmeets => ?_
  refine (hmeets.codeEnd hpart.2).bind fun last last' hlast _ hmoved => ?_
  subst hmoved
  have hle : last ≤ part.stop := codeEnd_le hlast (skipTrivia_bounds hstart).2
  have hiff : moved text start.offset < moved text last ↔ start.offset < last :=
    Text.moved_lt_iff (hle.trans hpart.2)
  rw [hmeets.offset_eq]
  by_cases hlt : start.offset < last
  · rw [if_pos hlt, if_pos (hiff.2 hlt)]
    exact (hmeets.codeText hlt hle hpart.2).bind fun found found' _ _ h =>
      .some (ofText_alike h ⟨start.offset, last⟩)
  · rw [if_neg hlt, if_neg (hiff.not.2 hlt)]
    exact .none

theorem readArguments_moved {parts : List Part} (h : ∀ part ∈ parts, part.In text) :
    Agree (FaultMoves text) (List.Forall₂ (Option.Rel (Argument.Alike text)))
      (parts.mapM readArgument) ((parts.map (·.relocated text)).mapM readArgument) := by
  induction parts with
  | nil => exact .nil
  | cons part parts ih =>
    obtain ⟨hpart, hparts⟩ := List.forall_mem_cons.1 h
    rw [List.map_cons, List.mapM_cons, List.mapM_cons]
    exact (readArgument_moved hpart).bind fun _ _ _ _ hfirst =>
      (ih hparts).bind fun _ _ _ _ hmore => .cons hfirst hmore

/-! ## Attributes -/

theorem filterMap_named {found found' : List Argument}
    (h : List.Forall₂ (Argument.Alike text) found found') :
    List.Forall₂ (NamedArgument.Alike text) (found.filterMap Argument.named?)
      (found'.filterMap Argument.named?) :=
  List.rel_filterMap (fun _ _ halike => by
    cases halike with
    | named h => exact .some h
    | positional h => exact .none) h

theorem filterMap_positional {found found' : List Argument}
    (h : List.Forall₂ (Argument.Alike text) found found') :
    List.Forall₂ Respelled (found.filterMap Argument.positional?)
      (found'.filterMap Argument.positional?) :=
  List.rel_filterMap (fun _ _ halike => by
    cases halike with
    | named h => exact .none
    | positional h => exact .some h) h

/-- The attribute of a name with arguments, from the bracket that opens them on. -/
def readCall (name : String) (span : Span) (paren : Cursor) (close : Nat) :
    Except Fault (Attribute Span) := do
  let argumentsClose ← closing '(' ')' (paren.advance 1)
  let tail ← skipTrivia (paren.advance (1 + (argumentsClose - paren.offset))) close
  if tail.offset ≠ close then throw ⟨.unexpectedAfterArguments name, tail.offset⟩
  let parts ← splitTopLevel (paren.advance 1) argumentsClose
  let found ← parts.mapM readArgument
  let arguments := found.filterMap id
  return ⟨name, arguments.filterMap Argument.named?, arguments.filterMap Argument.positional?, false, span⟩

theorem readCall_moved {name name' : String} (hname : Respelled name name') (span : Span)
    (hat : Cursor.At text ⟨offset, '(' :: rest⟩) (hclose : close ≤ text.length) :
    Agree (FaultMoves text) (Attribute.Alike text) (readCall name span ⟨offset, '(' :: rest⟩ close)
      (readCall name' (span.relocated text) (Cursor.relocated text ⟨offset, '(' :: rest⟩)
        (moved text close)) := by
  have hnext := hat.cons.2.2
  have hround := hat.moved_succ (by decide)
  rw [readCall, readCall, advance_one_relocated hat (by decide)]
  have hclosing := closing_moved '(' ')' hnext hround
  rw [← hround] at hclosing
  refine hclosing.bind fun last last' hlast _ hmoved => ?_
  subst hmoved
  obtain ⟨hbehind, hlength, -, -⟩ := hnext.behind_moved hround (by decide) hlast
  have hadvance := advance_group_relocated hat (by decide) (by decide) hlast
  have hgroup := @advance_group ⟨offset, '(' :: rest⟩ '(' rest last rfl
    (closing_eq_iff.1 hlast).bounds.1
  dsimp only [Cursor.relocated] at hadvance hgroup ⊢
  rw [hadvance, hgroup]
  refine (Meets.skipTrivia hbehind hclose).bind fun tail tail' htail _ htails => ?_
  have hle := (skipTrivia_bounds htail).2
  have htailIff := htails.lt_iff hclose
  by_cases hall : tail.offset = close
  swap
  · have hall' : tail'.offset ≠ moved text close := (htailIff.2 (hle.lt_of_ne hall)).ne
    rw [if_pos hall, if_pos hall']
    exact htails.offset_eq
  have hall' : tail'.offset = moved text close := by rw [htails.offset_eq, hall]
  rw [if_neg (not_not.2 hall), if_neg (not_not.2 hall')]
  refine (splitFrom_moved hlength.le hnext hnext).bind fun parts parts' _ _ hparts => ?_
  obtain ⟨rfl, hparts⟩ := hparts
  refine (readArguments_moved hparts).bind fun found found' _ _ hfound => ?_
  have harguments : List.Forall₂ (Argument.Alike text) (found.filterMap id) (found'.filterMap id) :=
    List.rel_filterMap (fun _ _ h => h) hfound
  exact ⟨hname, filterMap_named harguments, filterMap_positional harguments, rfl, rfl⟩

theorem readAttribute_moved (hat : Cursor.At text ⟨offset, '[' :: rest⟩) (hclose : close < text.length)
    (hsucc : moved text (close + 1) = moved text close + 1) :
    Agree (FaultMoves text) (Attribute.Alike text) (readAttribute ⟨offset, '[' :: rest⟩ close)
      (readAttribute (Cursor.relocated text ⟨offset, '[' :: rest⟩) (moved text close)) := by
  have hspan : (⟨moved text offset, moved text close + 1⟩ : Span) =
      Span.relocated text ⟨offset, close + 1⟩ := by
    rw [Span.relocated, hsucc]
  rw [readAttribute, readAttribute, advance_one_relocated hat (by decide)]
  refine (Meets.skipTrivia hat.cons.2.2 hclose.le).bind fun inner inner' hinner _ hmeets => ?_
  refine (hmeets.findArguments hclose.le).bind fun found found' hfound _ hopening => ?_
  obtain ⟨rfl, hopening⟩ := hopening
  cases found with
  | none =>
    refine ⟨respelled_ofList ?_, .nil, .nil, rfl, hspan⟩
    rw [hmeets.textTo]
    exact (Text.returned_withReturns _).trimEndWhile (by decide)
  | some paren =>
    obtain ⟨hparen, inside, hinside⟩ := hopening paren rfl
    obtain ⟨place, s⟩ := paren
    dsimp only at hinside
    subst hinside
    have hlt : inner.offset < close := by
      by_contra hpast
      rw [findArguments_past (Nat.not_lt.1 hpast)] at hfound
      cases hfound
    obtain ⟨hinnerAt, rfl⟩ := hmeets.of_lt hlt
    have hname : Text.Returned (Text.trimEnd (inner.textTo place))
        (Text.trimEnd ((inner.relocated text).textTo (moved text place))) := by
      rw [textTo_relocated hinnerAt]
      exact (Text.returned_withReturns _).trimEndWhile (by decide)
    have hcall := readCall_moved (respelled_ofList hname) ⟨offset, close + 1⟩ hparen hclose.le
    rw [← hspan] at hcall
    exact hcall

/-- The induction is on the length of the text at the cursor. -/
theorem readAttributes_moved {start start' : Cursor} (hstop : stop ≤ text.length)
    (h : Meets text stop start start') :
    Agree (FaultMoves text)
      (fun found found' => List.Forall₂ (Attribute.Alike text) found.1 found'.1 ∧
        Meets text stop found.2 found'.2)
      (readAttributes stop start) (readAttributes (moved text stop) start') := by
  induction hlength : start.rest.length using Nat.strong_induction_on generalizing start start' with
  | _ length ih =>
  subst hlength
  by_cases hsquare : start.offset < stop ∧ ∃ rest, start.rest = '[' :: rest
  swap
  · rw [readAttributes_other fun hlt rest hrest => hsquare ⟨hlt, rest, hrest⟩, readAttributes_other]
    · exact ⟨.nil, h⟩
    · intro hlt' rest' hrest'
      have hlt := (h.lt_iff hstop).1 hlt'
      obtain ⟨-, rfl⟩ := h.of_lt hlt
      obtain ⟨rest, hrest, -⟩ := Text.exists_of_withReturns hrest' (by decide)
      exact hsquare ⟨hlt, rest, hrest⟩
  obtain ⟨hlt, rest, hrest⟩ := hsquare
  have hlt' := (h.lt_iff hstop).2 hlt
  obtain ⟨hat, rfl⟩ := h.of_lt hlt
  obtain ⟨place, s⟩ := start
  dsimp only at hrest
  subst hrest
  have hnext := hat.cons.2.2
  have hsquare := hat.moved_succ (by decide)
  rw [readAttributes_square rfl hlt, readAttributes_square (withReturns_cons (by decide) rest) hlt']
  refine (closing_moved _ _ hnext hsquare).bind fun close close' hclose _ hmoved => ?_
  subst hmoved
  obtain ⟨hbehind, hlength, hsucc, -⟩ := hnext.behind_moved hsquare (by decide) hclose
  refine (readAttribute_moved hat hlength hsucc).bind fun first first' _ _ hfirst => ?_
  have hadvance := advance_group_relocated hat (by decide) (by decide) hclose
  have hgroup := @advance_group ⟨place, '[' :: rest⟩ '[' rest close rfl
    (closing_eq_iff.1 hclose).bounds.1
  dsimp only [Cursor.relocated] at hadvance hgroup ⊢
  rw [hadvance, hgroup]
  refine (Meets.skipTrivia hbehind hstop).bind fun next next' hskip _ hmeets => ?_
  have hshorter : next.rest.length < ('[' :: rest).length := by
    have hle := skipTrivia_length_le hskip
    rw [List.length_drop] at hle
    rw [List.length_cons]
    omega
  exact (ih _ hshorter hmeets rfl).bind fun found found' _ _ hmore =>
    ⟨.cons hfirst hmore.1, hmore.2⟩

/-! ## Parameters -/

theorem variableName?_other (h : s.head? ≠ some '$') : variableName? s = none := by
  unfold variableName?
  split
  · exact absurd rfl h
  · exact absurd rfl h
  · rfl

theorem head?_withReturns (hc : c ≠ '\r') (hfeed : c ≠ '\n') (s : List Char) :
    (withReturns s).head? = some c ↔ s.head? = some c := by
  constructor
  · intro hhead
    obtain ⟨rest', hrest'⟩ := List.head?_eq_some_iff.1 hhead
    obtain ⟨rest, rfl, -⟩ := Text.exists_of_withReturns hrest' hc
    rfl
  · intro hhead
    obtain ⟨rest, rfl⟩ := List.head?_eq_some_iff.1 hhead
    rw [withReturns_cons hfeed]
    rfl

/-- A name in braces may go over line ends, and one without braces does not. -/
theorem variableName?_withReturns (s : List Char) :
    Option.Rel (fun found found' => Respelled found.1 found'.1 ∧ found'.2 = moved s found.2)
      (variableName? s) (variableName? (withReturns s)) := by
  by_cases hdollar : s.head? = some '$'
  swap
  · rw [variableName?_other hdollar,
      variableName?_other ((head?_withReturns (by decide) (by decide) s).not.2 hdollar)]
    exact .none
  obtain ⟨rest, rfl⟩ := List.head?_eq_some_iff.1 hdollar
  rw [withReturns_cons (by decide)]
  by_cases hbrace : rest.head? = some '\x7b'
  · obtain ⟨rest, rfl⟩ := List.head?_eq_some_iff.1 hbrace
    have hinside := Text.moved_length_takeWhile (p := (· != '\x7d')) rfl rest
    rw [withReturns_cons (by decide), variableName?_opened, variableName?_opened, ← hinside,
      Text.dropWhile_withReturns rfl, Text.takeWhile_withReturns rfl]
    cases hbehind : rest.dropWhile (· != '\x7d') with
    | nil => exact .none
    | cons d more =>
      have hd : d = '\x7d' := by
        have hhead := List.head?_dropWhile_not (· != '\x7d') rest
        rw [hbehind] at hhead
        simpa using hhead
      subst hd
      have hsplit := List.takeWhile_append_dropWhile (p := (· != '\x7d')) (l := rest)
      have hdrop : rest.drop (rest.takeWhile (· != '\x7d')).length = '\x7d' :: more := by
        rw [hbehind] at hsplit
        exact (congrArg (List.drop _) hsplit).symm.trans List.drop_left
      rw [if_neg (List.cons_ne_nil _ _), withReturns_cons (by decide), if_neg (List.cons_ne_nil _ _)]
      refine .some ⟨respelled_ofList ((Text.returned_withReturns _).trimWhile (by decide)), ?_⟩
      rw [Text.moved_cons (by decide), Text.moved_cons (by decide), Text.moved_succ hdrop (by decide)]
  · have hlength := Text.moved_length_takeWhile (p := isVariablePart) (by decide) rest
    have hname := takeWhile_returned (p := isVariablePart) (Text.returned_withReturns rest) (by decide)
      (by decide)
    rw [variableName?_bare hbrace,
      variableName?_bare ((head?_withReturns (by decide) (by decide) rest).not.2 hbrace), hname]
    by_cases hnone : rest.takeWhile isVariablePart = []
    · rw [if_pos hnone]
      exact .none
    · rw [if_neg hnone]
      refine .some ⟨respelled_ofList (.refl _), ?_⟩
      rw [Text.moved_cons (by decide), hlength, hname]

theorem readDefault_moved {name name' : String} {behind : Cursor} (hat : behind.At text)
    (hstop : stop ≤ text.length) :
    Agree (FaultMoves text)
      (fun found found' => Option.Rel Respelled found.1 found'.1 ∧ found'.2 = moved text found.2)
      (readDefault name behind stop)
      (readDefault name' (behind.relocated text) (moved text stop)) := by
  refine (Meets.skipTrivia hat hstop).bind fun place place' _ _ hmeets => ?_
  by_cases hlt : place.offset < stop
  swap
  · rw [if_neg hlt, if_neg ((hmeets.lt_iff hstop).not.2 hlt)]
    exact ⟨.none, rfl⟩
  rw [if_pos hlt, if_pos ((hmeets.lt_iff hstop).2 hlt)]
  obtain ⟨hplace, rfl⟩ := hmeets.of_lt hlt
  obtain ⟨offset, s⟩ := place
  cases s with
  | nil => exact ⟨.none, rfl⟩
  | cons c rest =>
  by_cases hequals : c = '='
  swap
  · by_cases hc : c = '\n'
    · subst hc
      exact rfl
    rw [Cursor.relocated_cons text offset hc]
    dsimp only
    split
    · next heq => exact absurd (List.cons.inj heq).1 hequals
    · exact rfl
    · next heq => cases heq
  subst hequals
  have hnext := hplace.cons.2.2
  have hadvance := advance_one_relocated hplace (by decide)
  rw [Cursor.relocated_cons text offset (by decide)] at hadvance ⊢
  dsimp only
  rw [hadvance]
  refine (Meets.skipTrivia hnext hstop).bind fun value value' hvalue _ hmeets => ?_
  refine (hmeets.codeEnd hstop).bind fun last last' hlast _ hmoved => ?_
  subst hmoved
  have hle : last ≤ stop := codeEnd_le hlast (skipTrivia_bounds hvalue).2
  have hiff : moved text value.offset < moved text last ↔ value.offset < last :=
    Text.moved_lt_iff (hle.trans hstop)
  rw [← Nat.not_le, ← Nat.not_le, not_iff_not] at hiff
  rw [hmeets.offset_eq]
  by_cases hnone : last ≤ value.offset
  · rw [if_pos hnone, if_pos (hiff.2 hnone)]
    exact rfl
  · rw [if_neg hnone, if_neg (hiff.not.2 hnone)]
    exact (hmeets.codeText (Nat.lt_of_not_le hnone) hle hstop).bind fun found found' _ _ h =>
      ⟨.some (respelled_ofList h), rfl⟩

theorem readParameter_moved {start start' : Cursor} (hstop : stop ≤ text.length)
    (h : Meets text stop start start') :
    Agree (FaultMoves text) (Parameter.Alike text) (readParameter start stop)
      (readParameter start' (moved text stop)) := by
  refine (readAttributes_moved hstop h).bind fun found found' _ _ hfound => ?_
  obtain ⟨owners, place⟩ := found
  obtain ⟨owners', place'⟩ := found'
  obtain ⟨howners, hmeets⟩ := hfound
  dsimp only at howners hmeets ⊢
  have hname := variableName?_withReturns (place.textTo stop)
  rw [← hmeets.textTo] at hname
  cases hfound : variableName? (place.textTo stop) with
  | none =>
    rw [hfound] at hname
    generalize variableName? (place'.textTo (moved text stop)) = found' at hname ⊢
    cases hname
    exact hmeets.offset_eq
  | some found =>
    rw [hfound] at hname
    generalize variableName? (place'.textTo (moved text stop)) = found' at hname ⊢
    cases hname with
    | @some _ found' hname =>
    obtain ⟨name, length⟩ := found
    obtain ⟨name', length'⟩ := found'
    obtain ⟨hname, hlength⟩ := hname
    dsimp only at hname hlength ⊢
    obtain ⟨hpos, hle⟩ := variableName?_length hfound
    rw [Cursor.textTo, List.length_take] at hle
    have hlt : place.offset < stop := by omega
    obtain ⟨hat, rfl⟩ := hmeets.of_lt hlt
    have hmoved : moved (place.textTo stop) length = moved place.rest length := by
      rw [moved, moved, Cursor.textTo, List.take_take, Nat.min_eq_left (by omega)]
    rw [hlength, hmoved, advance_relocated hat]
    refine (readDefault_moved (hat.drop length) hstop).bind fun found found' _ _ hdefault => ?_
    refine ⟨hname, howners, hdefault.1, ?_⟩
    rw [h.offset_eq, hdefault.2]
    rfl

theorem readParameters_moved (found : Bool) {parts : List Part}
    (h : ∀ part ∈ parts, part.In text) :
    Agree (FaultMoves text) (List.Forall₂ (Parameter.Alike text)) (readParameters found parts)
      (readParameters found (parts.map (·.relocated text))) := by
  induction parts generalizing found with
  | nil => exact .nil
  | cons part parts ih =>
    obtain ⟨hpart, hparts⟩ := List.forall_mem_cons.1 h
    rw [List.map_cons, readParameters, readParameters]
    refine (Meets.skipTrivia hpart.1 hpart.2).bind fun start start' _ _ hmeets => ?_
    have hiff : start'.offset < (part.relocated text).stop ↔ start.offset < part.stop :=
      hmeets.lt_iff hpart.2
    by_cases hlt : start.offset < part.stop
    · rw [if_pos hlt, if_pos (hiff.2 hlt)]
      exact (readParameter_moved hpart.2 hmeets).bind fun _ _ _ _ hfirst =>
        (ih true hparts).bind fun _ _ _ _ hmore => .cons hfirst hmore
    · have hempty : (parts.map (·.relocated text)).isEmpty = parts.isEmpty := by
        cases parts <;> rfl
      rw [if_neg hlt, if_neg (hiff.not.2 hlt), hempty]
      by_cases hmore : (found || !parts.isEmpty) = true
      · rw [if_pos hmore, if_pos hmore]
        exact rfl
      · rw [if_neg hmore, if_neg hmore]
        exact ih found hparts

/-! ## Blocks -/

theorem readBlock_moved (keyword : Nat) {inside : Cursor} (hat : inside.At text)
    (hclose : close < text.length) (hsucc : moved text (close + 1) = moved text close + 1) :
    Agree (FaultMoves text) (ParameterBlock.Alike text) (readBlock keyword inside close)
      (readBlock (moved text keyword) (inside.relocated text) (moved text close)) := by
  refine (splitFrom_moved hclose.le hat hat).bind fun parts parts' _ _ hparts => ?_
  obtain ⟨rfl, hparts⟩ := hparts
  refine (readParameters_moved false hparts).bind fun found found' _ _ hfound => ⟨hfound, ?_⟩
  rw [← hsucc]
  rfl

theorem blocksFrom_lineEnd (previous : Option Char) (offset : Nat) (h : isLineEnd c = true)
    (s : List Char) : blocksFrom previous offset (c :: s) = blocksFrom (some c) (offset + 1) s := by
  obtain ⟨hplain, -, hblank⟩ := plain_of_isLineEnd h
  have hletter : Text.isLetter c = false := by
    by_contra hcontra
    rw [Text.isBlank_of_isLetter (Bool.of_not_eq_false hcontra)] at hblank
    cases hblank
  rw [blocksFrom]
  simp only [scanAt_eq_ok_iff.2 (scan_plain hplain s), bind, Except.bind, if_true, hletter,
    Bool.false_and, Bool.false_eq_true, if_false]

/-- Behind both characters a keyword may start, or behind none. -/
def LeadsAlike (previous previous' : Option Char) : Prop :=
  keywordMayFollow previous' = keywordMayFollow previous

theorem leadsAlike_withReturns (s : List Char) :
    LeadsAlike s.getLast? (withReturns s).getLast? := by
  rcases List.eq_nil_or_concat' s with rfl | ⟨front, last, rfl⟩
  · exact rfl
  rw [Text.withReturns_append]
  by_cases hlast : last = '\n'
  · subst hlast
    rw [LeadsAlike, withReturns_newline, List.getLast?_append, List.getLast?_append]
    rfl
  · rw [LeadsAlike, withReturns_cons hlast, List.getLast?_append, List.getLast?_append]
    rfl

theorem relocated_at {place : Cursor} (hat : place.At text) :
    (place.relocated text).At (withReturns text) := by
  have hdrop : place.rest = text.drop place.offset := hat
  rw [Cursor.At, Cursor.relocated, Text.drop_moved, ← hdrop]

/-- Up to the end of the text nothing is skipped beyond the places that correspond. -/
theorem Meets.of_skipTrivia {start next next' : Cursor} (hat : start.At text)
    (hle : start.offset ≤ text.length) (h : PowerShell.skipTrivia start text.length = .ok next)
    (h' : PowerShell.skipTrivia (start.relocated text) (moved text text.length) = .ok next')
    (hmeets : Meets text text.length next next') :
    next.At text ∧ next' = next.relocated text := by
  rcases hmeets with hsame | ⟨hend, hend'⟩
  · exact hsame
  have hnext : next.At text := hat.skipTrivia (hat.length hle).le h
  have hbound : (start.relocated text).offset ≤ (withReturns text).length := by
    rw [← Text.moved_length]
    exact Text.moved_mono text hle
  have hlength := (relocated_at hat).length hbound
  rw [← Text.moved_length text] at hlength
  have hnext' : next'.At (withReturns text) := (relocated_at hat).skipTrivia hlength.le h'
  obtain ⟨offset, s⟩ := next
  obtain ⟨offset', s'⟩ := next'
  dsimp only at hend hend'
  subst hend hend'
  obtain rfl : s = [] := hnext.trans List.drop_length
  obtain rfl : s' = [] := by
    rw [Cursor.At, Text.moved_length, List.drop_length] at hnext'
    exact hnext'
  exact ⟨hnext, rfl⟩

/-- The readings of two texts from a place on. -/
def BlocksAgree (text : List Char) (previous previous' : Option Char) (place : Cursor) : Prop :=
  Agree (FaultMoves text) (List.Forall₂ (ParameterBlock.Alike text))
    (blocksFrom previous place.offset place.rest)
    (blocksFrom previous' (moved text place.offset) (withReturns place.rest))

/-- Texts that are shorter than a bound are read alike, whatever stands before them. -/
def BlocksAgreeBelow (text : List Char) (bound : Nat) : Prop :=
  ∀ (previous previous' : Option Char) (place : Cursor), place.At text → place.offset ≤ text.length →
    LeadsAlike previous previous' → place.rest.length < bound → BlocksAgree text previous previous' place

/-- Behind a keyword both texts have a block, or neither has. -/
theorem blocksAgree_keyword {previous previous' : Option Char} {behind : Cursor} (keyword : Nat)
    (hat : behind.At text) (hle : behind.offset ≤ text.length)
    (hother : BlocksAgree text previous previous' behind)
    (hread : BlocksAgreeBelow text behind.rest.length) :
    Agree (FaultMoves text) (List.Forall₂ (ParameterBlock.Alike text))
      (do
        let next ← skipTrivia behind text.length
        match next.rest with
        | '(' :: inside => do
          let close ← closing '(' ')' ⟨next.offset + 1, inside⟩
          let block ← readBlock keyword ⟨next.offset + 1, inside⟩ close
          let blocks ← blocksFrom (some ')') (close + 1) (inside.drop (close - next.offset))
          return block :: blocks
        | _ => blocksFrom previous behind.offset behind.rest)
      (do
        let next ← skipTrivia (behind.relocated text) (moved text text.length)
        match next.rest with
        | '(' :: inside => do
          let close ← closing '(' ')' ⟨next.offset + 1, inside⟩
          let block ← readBlock (moved text keyword) ⟨next.offset + 1, inside⟩ close
          let blocks ← blocksFrom (some ')') (close + 1) (inside.drop (close - next.offset))
          return block :: blocks
        | _ => blocksFrom previous' (moved text behind.offset) (withReturns behind.rest)) := by
  refine (Meets.skipTrivia hat (Nat.le_refl _)).bind fun next next' hskip hskip' hmeets => ?_
  obtain ⟨hnext, rfl⟩ := hmeets.of_skipTrivia hat hle hskip hskip'
  obtain ⟨place, s⟩ := next
  by_cases hround : s.head? = some '('
  swap
  · split
    · next heq => exact absurd (congrArg List.head? heq) hround
    · split
      · next heq =>
        refine absurd ((head?_withReturns (by decide) (by decide) s).1 ?_) hround
        exact congrArg List.head? heq
      · exact hother
  obtain ⟨inside, rfl⟩ := List.head?_eq_some_iff.1 hround
  have hinside := hnext.cons.2.2
  have hsucc := hnext.moved_succ (by decide)
  rw [Cursor.relocated_cons text place (by decide)]
  dsimp only
  have hclosing := closing_moved '(' ')' hinside hsucc
  rw [← hsucc] at hclosing ⊢
  refine hclosing.bind fun close close' hclose _ hmoved => ?_
  subst hmoved
  obtain ⟨hbehind, hlength, hclosed, hdrop⟩ := hinside.behind_moved hsucc (by decide) hclose
  refine (readBlock_moved keyword hinside hlength hclosed).bind
    fun block block' _ _ hblock => ?_
  have hshorter : (inside.drop (close - place)).length < behind.rest.length := by
    have hle := skipTrivia_length_le hskip
    rw [List.length_cons] at hle
    rw [List.length_drop]
    omega
  rw [hdrop, ← hclosed]
  exact (hread _ _ _ hbehind hlength rfl hshorter).bind fun _ _ _ _ hblocks => .cons hblock hblocks

/-- Behind a lexeme both texts go on in the same way. -/
theorem blocksAgree_lexeme {lexeme : Lexeme (c :: rest)} {lexeme' : Lexeme (c :: withReturns rest)}
    (hfollows : lexeme.Follows lexeme') (hat : Cursor.At text ⟨offset, c :: rest⟩) (hc : c ≠ '\n')
    (hread : BlocksAgreeBelow text (c :: rest).length) :
    Agree (FaultMoves text) (List.Forall₂ (ParameterBlock.Alike text))
      (blocksFrom ((c :: rest).take lexeme.length).getLast? (offset + lexeme.length)
        ((c :: rest).drop lexeme.length))
      (blocksFrom ((c :: withReturns rest).take lexeme'.length).getLast?
        (moved text offset + lexeme'.length) ((c :: withReturns rest).drop lexeme'.length)) := by
  have hbehind := hat.drop lexeme.length
  have hend : offset + lexeme.length ≤ text.length := by
    have hlength := hat.length hat.cons.2.1.le
    have hle := lexeme.length_le
    omega
  have hshorter := lexeme.length_drop_lt
  have hmoved : moved text (offset + lexeme.length) =
      moved text offset + moved (c :: rest) lexeme.length := Text.moved_add hat.symm lexeme.length
  have hdrop := Text.drop_moved (c :: rest) lexeme.length
  have htake := Text.take_moved (c :: rest) lexeme.length
  rw [withReturns_cons hc] at hdrop htake
  rcases hfollows.length with hlength | ⟨-, ⟨more, hmore⟩, hlength⟩ | ⟨rfl, ⟨more, rfl⟩, hlength, hlength'⟩
  · rw [hlength, ← hmoved, hdrop, htake]
    exact hread _ _ _ hbehind hend (leadsAlike_withReturns _) hshorter
  · -- the line feed behind the comment is still to come in both texts
    rw [hmore] at hbehind hdrop hshorter ⊢
    have hone : (c :: withReturns rest).drop (moved (c :: rest) lexeme.length + 1) =
        '\n' :: withReturns more := by
      rw [← List.drop_drop, hdrop]
      rfl
    rw [hlength, hone, ← Nat.add_assoc, ← hmoved, blocksFrom_lineEnd _ _ rfl,
      blocksFrom_lineEnd _ _ rfl, Nat.add_assoc (moved text _), ← hbehind.moved_line]
    obtain ⟨-, hlt, hnext⟩ := hbehind.cons
    exact hread _ _ _ hnext hlt rfl (Nat.lt_of_succ_lt hshorter)
  · -- the carriage return is escaped, and the line feed behind it stands for itself
    have hnext := hat.cons.2.2
    have hline : moved text (offset + 2) = moved text (offset + 1) + 2 := hnext.moved_line
    have hplace : moved text offset + 2 + 1 = moved text (offset + 2) := by
      rw [hline, hat.moved_succ hc]
    rw [hlength] at hbehind hend hshorter ⊢
    rw [hlength', withReturns_newline]
    have hrest : ('\x60' :: '\r' :: '\n' :: withReturns more).drop 2 = '\n' :: withReturns more := rfl
    rw [hrest, blocksFrom_lineEnd _ _ rfl, hplace]
    exact hread _ _ _ hbehind hend rfl hshorter

/-- Both texts have the same word, and a block behind it if it is the keyword. -/
theorem blocksAgree_word {previous previous' : Option Char} (hat : Cursor.At text ⟨offset, c :: rest⟩)
    (hc : c ≠ '\n') (hletter : Text.isLetter c = true) (hfollow : keywordMayFollow previous = true)
    (hleads : LeadsAlike previous previous') (hread : BlocksAgreeBelow text (c :: rest).length) :
    Agree (FaultMoves text) (List.Forall₂ (ParameterBlock.Alike text))
      (blocksFrom previous offset (c :: rest))
      (blocksFrom previous' (moved text offset) (c :: withReturns rest)) := by
  have hfollow' : keywordMayFollow previous' = true := hleads.trans hfollow
  have hlength := hat.length hat.cons.2.1.le
  have hname := takeWhile_returned (p := isNamePart) (Text.returned_withReturns rest) (by decide)
    (by decide)
  have hcount := Text.moved_length_takeWhile (p := isNamePart) (by decide) rest
  rw [hname] at hcount
  have hle := (List.takeWhile_sublist isNamePart (l := rest)).length_le
  generalize hcountEq : (rest.takeWhile isNamePart).length = count at hcount hle
  have hbehind : Cursor.At text ⟨offset + (count + 1), rest.drop count⟩ := hat.drop _
  have hend : offset + (count + 1) ≤ text.length := by
    rw [List.length_cons] at hlength
    omega
  have hshorter : (rest.drop count).length < (c :: rest).length := by
    rw [List.length_drop, List.length_cons]
    omega
  have hwordLength : (c :: rest.takeWhile isNamePart).length = count + 1 := by
    rw [List.length_cons, hcountEq]
  have hplace : (⟨offset + (c :: rest.takeWhile isNamePart).length,
      rest.drop ((c :: rest.takeWhile isNamePart).length - 1)⟩ : Cursor) =
        ⟨offset + (count + 1), rest.drop count⟩ := by
    rw [hwordLength, Nat.add_sub_cancel]
  have hplace' : (⟨moved text offset + (c :: rest.takeWhile isNamePart).length,
      (withReturns rest).drop ((c :: rest.takeWhile isNamePart).length - 1)⟩ : Cursor) =
        Cursor.relocated text ⟨offset + (count + 1), rest.drop count⟩ := by
    rw [hwordLength, Nat.add_sub_cancel, Cursor.relocated]
    dsimp only
    rw [Text.moved_add hat.symm, Text.moved_cons hc, ← Text.drop_moved, hcount]
  have hother : BlocksAgree text (c :: rest.takeWhile isNamePart).getLast?
      (c :: rest.takeWhile isNamePart).getLast? ⟨offset + (count + 1), rest.drop count⟩ :=
    hread _ _ _ hbehind hend rfl hshorter
  by_cases hkeyword : Text.lower (c :: rest.takeWhile isNamePart) = "param".toList
  · have hstop : offset + rest.length + 1 = text.length := hlength
    have hstop' : moved text offset + (withReturns rest).length + 1 = moved text text.length := by
      rw [← hstop, Nat.add_assoc offset, Text.moved_add hat.symm, Text.moved_cons hc,
        Text.moved_length, Nat.add_assoc]
    rw [blocksFrom_keyword hletter hfollow rfl hplace hkeyword,
      blocksFrom_keyword hletter hfollow' (congrArg (c :: ·) hname) hplace' hkeyword, hstop, hstop']
    refine blocksAgree_keyword offset hbehind hend hother ?_
    exact fun previous previous' place hat hle hleads hlt =>
      hread previous previous' place hat hle hleads (hlt.trans hshorter)
  · rw [blocksFrom_word hletter hfollow rfl hplace hkeyword,
      blocksFrom_word hletter hfollow' (congrArg (c :: ·) hname) hplace' hkeyword]
    exact hother

/-- The induction is on the length of the text at the cursor. -/
theorem blocksFrom_moved {previous previous' : Option Char} {place : Cursor} (hat : place.At text)
    (hle : place.offset ≤ text.length) (hleads : LeadsAlike previous previous') :
    BlocksAgree text previous previous' place := by
  induction hlength : place.rest.length using Nat.strong_induction_on
    generalizing previous previous' place with
  | _ length ih =>
  have hread : BlocksAgreeBelow text length := fun _ _ place hat hle hleads hlt =>
    ih place.rest.length hlt hat hle hleads rfl
  subst hlength
  obtain ⟨offset, s⟩ := place
  rw [BlocksAgree]
  dsimp only
  cases s with
  | nil =>
    rw [blocksFrom, Text.withReturns_nil, blocksFrom]
    exact .nil
  | cons c rest =>
  obtain ⟨-, hlt, hnext⟩ := hat.cons
  by_cases hc : c = '\n'
  · subst hc
    rw [blocksFrom_lineEnd _ _ rfl, withReturns_newline, blocksFrom_lineEnd _ _ rfl,
      blocksFrom_lineEnd _ _ rfl, Nat.add_assoc, ← hat.moved_line]
    exact hread _ _ _ hnext hlt rfl (Nat.lt_succ_self _)
  rw [withReturns_cons hc]
  by_cases hstarts : (Text.isLetter c && keywordMayFollow previous) = true
  · obtain ⟨hletter, hfollow⟩ := Bool.and_eq_true_iff.1 hstarts
    exact blocksAgree_word hat hc hletter hfollow hleads hread
  have hstarts' : ¬ (Text.isLetter c && keywordMayFollow previous') = true := by
    rw [hleads]
    exact hstarts
  rw [blocksFrom.eq_def, blocksFrom.eq_def previous']
  refine (scanAt_moved text offset hc).bind fun lexeme lexeme' _ _ hfollows => ?_
  rw [hfollows.kind]
  by_cases hkind : lexeme.kind = .plain
  · rw [if_pos hkind, if_pos hkind, if_neg hstarts, if_neg hstarts', ← hat.moved_succ hc]
    exact hread _ _ _ hnext hlt rfl (Nat.lt_succ_self _)
  · rw [if_neg hkind, if_neg hkind]
    exact blocksAgree_lexeme hfollows hat hc hread

/-! ## Scripts -/

/-- Both texts declare the same blocks, or neither can be read. -/
theorem parameterBlocks_moved (text : List Char) :
    Agree (FaultMoves text) (List.Forall₂ (ParameterBlock.Alike text)) (parameterBlocks text)
      (parameterBlocks (withReturns text)) := by
  have hat : Cursor.At text ⟨0, text⟩ := rfl
  exact blocksFrom_moved hat (Nat.zero_le _) rfl

theorem parameters_moved (text : List Char) :
    Agree (FaultMoves text) (List.Forall₂ (Parameter.Alike text)) (parameters text)
      (parameters (withReturns text)) :=
  (parameterBlocks_moved text).map fun _ _ hblocks =>
    List.rel_flatMap hblocks fun _ _ hblock => hblock.parameters

end DscAudit.PowerShell

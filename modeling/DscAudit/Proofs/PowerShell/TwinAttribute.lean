import DscAudit.Proofs.PowerShell.RoundTrip
import DscAudit.Proofs.PowerShell.Twin

/-!
# Attributes of two alike texts

Arguments and attributes are read alike in two texts that differ in a comment.  One step does not keep to
lexemes, though: the bracket that opens the arguments is looked for character by character, and the text
before it is the name, with any comment in it.  So the comment must not stand in a name, and the brackets
before the arguments must be code.
-/

namespace DscAudit.PowerShell

open List (Forall₂)

theorem map_eq_ok {ε α β : Type} {x : Except ε α} {f : α → β} {b : β} :
    x.map f = .ok b ↔ ∃ a, x = .ok a ∧ f a = b := by
  cases x <;> simp [Except.map]

/-! ## Parts -/

section Steps

variable {stop offset : Nat} {part : Cursor} {s : List Char}

/-- A lexeme that neither opens a group nor separates parts. -/
def IsInner (kind : LexemeKind) (text : List Char) : Prop :=
  kind = .plain → ∀ c ∈ text, closer? c = none ∧ c ≠ ','

theorem splitFrom_scans {kind : LexemeKind} {text behind : List Char} (h : Scans kind text behind)
    (hinner : IsInner kind text) (hlt : offset < stop) :
    splitFrom stop part offset (text ++ behind) =
      splitFrom stop part (offset + text.length) behind := by
  obtain ⟨c, rest, lexeme, heq, hscan, rfl, hlength⟩ := h
  have hdrop := drop_lexeme heq hlength
  rw [heq, splitFrom, if_pos hlt]
  simp only [scanAt_eq_ok_iff.mpr hscan, bind, Except.bind]
  by_cases hplain : lexeme.kind = .plain
  · rw [length_of_plain hscan hplain] at hlength hdrop
    obtain ⟨d, rfl⟩ := List.length_eq_one_iff.mp hlength.symm
    obtain ⟨rfl, rfl⟩ := List.cons.inj heq
    obtain ⟨hopener, hcomma⟩ := hinner hplain d (List.mem_singleton_self d)
    rw [if_pos hplain, hopener]
    simp only [if_neg hcomma]
    rfl
  · rw [if_neg hplain, hdrop, hlength]

theorem splitFrom_opener {c expected : Char} {rest : List Char} (hopener : closer? c = some expected)
    (hlt : offset < stop) :
    splitFrom stop part offset (c :: rest) = (do
      let close ← closing c expected ⟨offset + 1, rest⟩
      splitFrom stop part (close + 1) (rest.drop (close - offset))) := by
  have hbracket : isBracket c = true := by
    rw [isBracket, hopener]
    rfl
  rw [splitFrom, if_pos hlt]
  simp only [scanAt_eq_ok_iff.mpr (scan_bracket hbracket rest), bind, Except.bind, if_true, hopener]

end Steps

theorem IsFiller.isInner {piece : Piece} (h : IsFiller piece) : IsInner piece.kind piece.text := by
  intro hplain c hc
  have hbracket := h.not_bracket hplain c hc
  rw [isBracket, Bool.or_eq_false_iff, Option.isSome_eq_false_iff, Option.isNone_iff_eq_none]
    at hbracket
  refine ⟨hbracket.1, ?_⟩
  rintro rfl
  rcases h with hcomment | hblank
  · rw [hplain] at hcomment
    cases hcomment
  · obtain ⟨d, hd, rfl, hd'⟩ := exists_char_of_isBlank hblank
    cases List.mem_singleton.mp hc
    cases hd'

namespace Twin

variable {place : Nat} {p q a stop : Twin}

/-- The parts are the same piece of code in two alike texts. -/
def IsPart (place : Nat) (part part' : Part) : Prop :=
  ∃ a b : Twin, part = ⟨a.left, b.left.offset⟩ ∧ part' = ⟨a.right, b.right.offset⟩ ∧
    Path place a b ∧ Alike place a

theorem Alike.splitFrom (halike : Alike place a) (hpart : Path place a p) (hstop : Path place p stop)
    {parts : List Part}
    (hparts : splitFrom stop.left.offset a.left p.left.offset p.left.rest = .ok parts) :
    ∃ parts', splitFrom stop.right.offset a.right p.right.offset p.right.rest = .ok parts' ∧
      Forall₂ (IsPart place) parts parts' := by
  induction hlength : p.left.rest.length using Nat.strong_induction_on generalizing a p parts with
  | _ length ih =>
    subst hlength
    rcases hstop.head_cases with rfl | ⟨next, hstep, hnext⟩
    · rw [splitFrom_stop] at hparts ⊢
      cases hparts
      exact ⟨_, rfl, .cons ⟨a, p, rfl, rfl, hpart, halike⟩ .nil⟩
    · obtain ⟨piece, piece', hleft, hright, hsame⟩ := id hstep
      have hoffset := hleft.offset
      have hoffset' := hright.offset
      have hlt := Nat.lt_of_lt_of_le hstep.lt.1 hnext.le.1
      have hlt' := Nat.lt_of_lt_of_le hstep.lt.2 hnext.le.2
      have hshorter := hstep.shorter
      by_cases hinner : IsInner piece.kind piece.text
      · have hinner' : IsInner piece'.kind piece'.text := by
          rcases hsame with rfl | ⟨-, -, hspacer⟩
          · exact hinner
          · exact hspacer.isFiller.isInner
        rw [hleft.rest, splitFrom_scans hleft.scans hinner hlt, ← hoffset] at hparts
        rw [hright.rest, splitFrom_scans hright.scans hinner' hlt', ← hoffset']
        exact ih _ hshorter halike (hpart.trans hstep.path) hnext hparts rfl
      · have hequal : piece = piece' := by
          rcases hsame with hequal | ⟨-, hspacer, -⟩
          · exact hequal
          · exact absurd hspacer.isFiller.isInner hinner
        rw [IsInner, Classical.not_imp] at hinner
        obtain ⟨hplain, hinner⟩ := hinner
        have hscans := hleft.scans
        rw [hplain] at hscans
        obtain ⟨c, htext⟩ := hscans.exists_of_plain
        have hrest := hleft.rest
        have hrest' := hright.rest
        rw [← hequal] at hoffset' hrest'
        rw [htext, List.length_singleton] at hoffset hoffset'
        rw [htext, List.singleton_append] at hrest hrest'
        rw [hrest] at hparts
        have hnextLeft : next.left = ⟨p.left.offset + 1, next.left.rest⟩ := by rw [← hoffset]
        have hnextRight : next.right = ⟨p.right.offset + 1, next.right.rest⟩ := by rw [← hoffset']
        have hnextAlike := halike.of_path (hpart.trans hstep.path)
        cases hopener : closer? c with
        | none =>
          obtain rfl : c = ',' := by
            by_contra hcomma
            exact hinner (by simp [htext, hopener, hcomma])
          rw [splitFrom_comma hlt, ← hnextLeft, ← hoffset] at hparts
          rw [hrest', splitFrom_comma hlt', ← hnextRight, ← hoffset']
          obtain ⟨more, hmore, rfl⟩ := map_eq_ok.mp hparts
          obtain ⟨more', hmore', hboth⟩ := ih _ hshorter hnextAlike (Path.refl next) hnext hmore rfl
          exact ⟨_, map_eq_ok.mpr ⟨more', hmore', rfl⟩,
            .cons ⟨a, p, rfl, rfl, hpart, halike⟩ hboth⟩
        | some expected =>
          rw [splitFrom_opener hopener hlt, bind_eq_ok] at hparts
          obtain ⟨close, hclose, hparts⟩ := hparts
          obtain ⟨rest', q, behind, hgroup, rfl⟩ :=
            (halike.of_path hpart).group hopener hrest hclose
          have hpath := hgroup.path
          rw [hgroup.right, splitFrom_opener hopener hlt']
          simp only [hgroup.closing, bind, Except.bind]
          by_cases hinside : behind.left.offset ≤ stop.left.offset
          · obtain ⟨parts', hparts', hboth⟩ := ih _ hgroup.shorter halike (hpart.trans hpath)
              (hpath.between hstop hinside) (by rw [hgroup.behindLeft]; exact hparts) rfl
            rw [hgroup.behindRight] at hparts'
            exact ⟨parts', hparts', hboth⟩
          · obtain ⟨hpast, hpast'⟩ := hgroup.past hstop (Nat.lt_of_not_le hinside)
            rw [splitFrom_past hpast] at hparts
            rw [splitFrom_past hpast']
            cases hparts
            exact ⟨_, rfl, .cons ⟨a, stop, rfl, rfl, hpart.trans hstop, halike⟩ .nil⟩

theorem Alike.splitTopLevel (halike : Alike place a) (hstop : Path place a stop) {parts : List Part}
    (hparts : splitTopLevel a.left stop.left.offset = .ok parts) :
    ∃ parts', splitTopLevel a.right stop.right.offset = .ok parts' ∧
      Forall₂ (IsPart place) parts parts' :=
  halike.splitFrom (Path.refl a) hstop hparts

end Twin

/-! ## Arguments -/

/-- The same argument, at one span or another, or no argument. -/
inductive SameArgument : Option Argument → Option Argument → Prop
  | none : SameArgument none none
  | some (text : List Char) (span span' : Span) :
      SameArgument (some (.ofText text span)) (some (.ofText text span'))

theorem Twin.IsPart.readArgument {place : Nat} {part part' : Part}
    (h : Twin.IsPart place part part') :
    ∃ argument argument', readArgument part = .ok argument ∧
      readArgument part' = .ok argument' ∧ SameArgument argument argument' := by
  obtain ⟨a, b, rfl, rfl, hpath, -⟩ := h
  obtain ⟨start, -, hrest, hskip, hskip'⟩ := hpath.skipTrivia
  obtain ⟨stop, hstop, -, hend, hend'⟩ := hrest.codeEnd
  obtain ⟨text, htext, htext'⟩ := hstop.codeText
  have horder := (Path.refl start).lt_iff hstop
  simp only [PowerShell.readArgument, hskip, hskip', hend, hend', bind, Except.bind]
  by_cases hlt : start.left.offset < stop.left.offset
  · rw [if_pos hlt, if_pos (horder.mp hlt), htext, htext']
    exact ⟨_, _, rfl, rfl, .some text _ _⟩
  · rw [if_neg hlt, if_neg fun hlt' => hlt (horder.mpr hlt')]
    exact ⟨_, _, rfl, rfl, .none⟩

theorem readArguments_parts_alike {place : Nat} {parts parts' : List Part}
    (h : Forall₂ (Twin.IsPart place) parts parts') :
    ∃ found found', parts.mapM readArgument = .ok found ∧ parts'.mapM readArgument = .ok found' ∧
      Forall₂ SameArgument found found' := by
  induction h with
  | nil => exact ⟨[], [], rfl, rfl, .nil⟩
  | cons hpart _ ih =>
    obtain ⟨argument, argument', hargument, hargument', hsame⟩ := hpart.readArgument
    obtain ⟨found, found', hfound, hfound', hall⟩ := ih
    refine ⟨argument :: found, argument' :: found', ?_, ?_, .cons hsame hall⟩
    · rw [List.mapM_cons, hargument, hfound]
      rfl
    · rw [List.mapM_cons, hargument', hfound']
      rfl

/-- What is declared, without the places. -/
def NamedArgument.meaning (argument : NamedArgument Span) : NamedArgument Unit :=
  argument.map fun _ => ()

def Attribute.meaning (owner : Attribute Span) : Attribute Unit := owner.map fun _ => ()

def Parameter.meaning (parameter : Parameter Span) : Parameter Unit := parameter.map fun _ => ()

def ParameterBlock.meaning (block : ParameterBlock Span) : ParameterBlock Unit :=
  block.map fun _ => ()

theorem ofText_named? (text : List Char) (span span' : Span) :
    (Argument.ofText text span).named?.map NamedArgument.meaning =
      (Argument.ofText text span').named?.map NamedArgument.meaning := by
  unfold Argument.ofText
  split
  · rfl
  · split <;> rfl

theorem ofText_positional? (text : List Char) (span span' : Span) :
    (Argument.ofText text span).positional? = (Argument.ofText text span').positional? := by
  unfold Argument.ofText
  split
  · rfl
  · split <;> rfl

theorem arguments_same {found found' : List (Option Argument)}
    (h : Forall₂ SameArgument found found') :
    ((found.filterMap id).filterMap Argument.named?).map NamedArgument.meaning =
        ((found'.filterMap id).filterMap Argument.named?).map NamedArgument.meaning ∧
      (found.filterMap id).filterMap Argument.positional? =
        (found'.filterMap id).filterMap Argument.positional? := by
  simp only [List.map_filterMap]
  induction h with
  | nil => exact ⟨rfl, rfl⟩
  | cons hsame _ ih =>
    obtain ⟨hnamed, hpositional⟩ := ih
    cases hsame with
    | none => exact ⟨hnamed, hpositional⟩
    | some text span span' =>
      have hsome : ∀ (argument : Argument) (more : List (Option Argument)),
          (some argument :: more).filterMap id = argument :: more.filterMap id := fun _ _ => rfl
      simp only [hsome, List.filterMap_cons, hnamed, hpositional, ofText_named? text span span',
        ofText_positional? text span span', and_self]

/-! ## Names of attributes -/

/-- Where the name ends that is followed by the opening bracket or, without one, by the closing one. -/
def nameEnd (opening : Option Cursor) (close : Nat) : Nat := (opening.map (·.offset)).getD close

/-- The span that the name of the attribute at a span is copied from. -/
def nameAt? (text : List Char) (span : Span) : Except Fault Span := do
  let name ← skipTrivia ⟨span.start + 1, text.drop (span.start + 1)⟩ (span.stop - 1)
  let opening ← findArguments (span.stop - 1) name.offset name.rest
  return ⟨name.offset, nameEnd opening (span.stop - 1)⟩

/-- Up to an offset no comment, string or escape holds an opening round or square bracket. -/
inductive BracketsInCode (stop : Nat) : Nat → List Char → Prop
  | stop {offset : Nat} {s : List Char} (h : stop ≤ offset) : BracketsInCode stop offset s
  | lexeme {kind : LexemeKind} {text behind : List Char} {offset : Nat}
      (hscans : Scans kind text behind) (hcode : kind ≠ .plain → '(' ∉ text ∧ '[' ∉ text)
      (h : BracketsInCode stop (offset + text.length) behind) :
      BracketsInCode stop offset (text ++ behind)

/-- The name of the attribute is not around the place, and its brackets are code. -/
def NameApart (text : List Char) (place : Nat) (owner : Attribute Span) : Prop :=
  ∀ name, nameAt? text owner.location = .ok name →
    (place < name.start ∨ name.stop ≤ place) ∧
      BracketsInCode name.stop name.start (text.drop name.start)

theorem BracketsInCode.leads {piece : Piece} {here next : Cursor} {stop : Nat}
    (h : BracketsInCode stop here.offset here.rest) (hleads : Leads piece here next)
    (hlt : here.offset < stop) :
    (piece.kind ≠ .plain → '(' ∉ piece.text ∧ '[' ∉ piece.text) ∧
      BracketsInCode stop next.offset next.rest := by
  rw [hleads.rest] at h
  rw [hleads.offset]
  generalize hwhole : piece.text ++ next.rest = whole at h
  cases h with
  | stop hle => omega
  | lexeme hscans hcode h =>
    obtain ⟨rfl, rfl, rfl⟩ := hscans.unique hleads.scans hwhole.symm
    exact ⟨hcode, h⟩

theorem BracketsInCode.path {place stop : Nat} {p q : Twin}
    (h : BracketsInCode stop p.left.offset p.left.rest) (hpath : Twin.Path place p q) :
    BracketsInCode stop q.left.offset q.left.rest := by
  induction hpath using Relation.ReflTransGen.head_induction_on with
  | refl => exact h
  | @head p next hstep hpath ih =>
    have hpath : Twin.Path place next q := hpath
    obtain ⟨piece, _, hleft, -⟩ := hstep
    by_cases hlt : p.left.offset < stop
    · exact ih (h.leads hleft hlt).2
    · have hle := hpath.le
      have hoffset := hleft.offset
      exact .stop (by omega)

/-- Where brackets are code, the one that is found first starts a lexeme. -/
theorem BracketsInCode.reaches {stop offset : Nat} {s : List Char} (h : BracketsInCode stop offset s)
    (hle : offset ≤ stop) (hround : s[stop - offset]? = some '(') : Reaches offset s stop := by
  induction h with
  | @stop offset s hstop =>
    rw [Nat.le_antisymm hle hstop]
    exact .here stop s
  | @lexeme kind text behind offset hscans hcode _ ih =>
    by_cases hbehind : offset + text.length ≤ stop
    · have hcount : stop - offset - text.length = stop - (offset + text.length) := by omega
      rw [List.getElem?_append_right (by omega), hcount] at hround
      have hreaches := ih hbehind hround
      obtain ⟨c, rest, lexeme, heq, hscan, -, hlength⟩ := hscans
      rw [heq]
      refine .next hscan ?_
      rw [drop_lexeme heq hlength, hlength]
      exact hreaches
    · have hlt : stop - offset < text.length := by omega
      rw [List.getElem?_append_left hlt] at hround
      have hplain : kind = .plain := by
        by_contra hother
        exact (hcode hother).1 (List.mem_of_getElem? hround)
      rw [hplain] at hscans
      obtain ⟨c, rfl⟩ := hscans.exists_of_plain
      have hhere : offset = stop := by
        rw [List.length_singleton] at hlt
        omega
      rw [hhere]
      exact .here _ _

theorem Reaches.trans {offset place last : Nat} {s : List Char} (h : Reaches offset s place)
    (h' : Reaches place (s.drop (place - offset)) last) : Reaches offset s last := by
  induction h with
  | here offset s =>
    rw [Nat.sub_self, List.drop_zero] at h'
    exact h'
  | @next c rest offset place lexeme hscan h ih =>
    have hle := h.le
    have hcount : place - offset = lexeme.length + (place - (offset + lexeme.length)) := by omega
    rw [hcount, ← List.drop_drop] at h'
    exact .next hscan (ih h')

/-- Of two places that lexemes lead to, they lead from the first one to the second one. -/
theorem Reaches.between {s : List Char} {offset place place' : Nat} (h : Reaches offset s place)
    (h' : Reaches offset s place') (hle : place ≤ place') :
    Reaches place (s.drop (place - offset)) place' := by
  induction h with
  | here offset s =>
    rw [Nat.sub_self, List.drop_zero]
    exact h'
  | @next c rest offset place lexeme hscan h ih =>
    have hpos := lexeme.length_pos
    have hplace := h.le
    cases h' with
    | here => omega
    | next hscan' h' =>
      cases hscan.symm.trans hscan'
      have hsum : lexeme.length + (place - (offset + lexeme.length)) = place - offset := by omega
      have hbetween := ih h' hle
      rwa [List.drop_drop, hsum] at hbetween

/-- Trivia are lexemes. -/
theorem reaches_of_skipTriviaFrom {stop offset : Nat} {s : List Char} {cursor : Cursor}
    (h : skipTriviaFrom stop offset s = .ok cursor) (hlt : cursor.offset < stop) :
    Reaches offset s cursor.offset ∧ cursor.rest = s.drop (cursor.offset - offset) := by
  have hnext : ∀ {c : Char} {rest : List Char} {offset : Nat} {lexeme : Lexeme (c :: rest)},
      Lexeme.scan c rest = .ok lexeme →
      (Reaches (offset + lexeme.length) ((c :: rest).drop lexeme.length) cursor.offset ∧
        cursor.rest = ((c :: rest).drop lexeme.length).drop
          (cursor.offset - (offset + lexeme.length))) →
      Reaches offset (c :: rest) cursor.offset ∧
        cursor.rest = (c :: rest).drop (cursor.offset - offset) := by
    intro c rest offset lexeme hscan ⟨hreaches, hrest⟩
    have hle := hreaches.le
    have hcount : lexeme.length + (cursor.offset - (offset + lexeme.length)) =
        cursor.offset - offset := by omega
    rw [List.drop_drop, hcount] at hrest
    exact ⟨.next hscan hreaches, hrest⟩
  fun_induction skipTriviaFrom stop offset s with
  | case1 offset =>
    cases h
    simp only [Cursor.clip] at hlt ⊢
    rw [Nat.min_eq_left (by omega)]
    exact ⟨.here _ _, List.drop_nil.symm⟩
  | case2 offset c rest _ hblank ih =>
    exact hnext (scan_plain (plain_of_isBlank hblank).1 rest) (ih h)
  | case3 offset c rest _ _ _ ih =>
    obtain ⟨lexeme, hscan, hskipped⟩ := bind_eq_ok.mp h
    exact hnext (scanAt_eq_ok_iff.mp hscan) (ih lexeme hskipped)
  | case4 offset c rest _ _ _ hcontinues ih =>
    rw [Bool.and_eq_true] at hcontinues
    obtain ⟨lexeme, hscan, -, hlength⟩ := exists_scan_of_continuesLine hcontinues.1
    refine hnext hscan ?_
    rw [hlength]
    exact ih h
  | case5 offset c rest _ =>
    cases h
    simp only [Nat.sub_self, List.drop_zero]
    exact ⟨.here _ _, trivial⟩
  | case6 offset c rest hpast =>
    cases h
    simp only [Cursor.clip] at hlt
    omega

theorem NameApart.opensInCode {text : List Char} {place : Nat} {owner : Attribute Span}
    (h : NameApart text place owner) : OpensInCode text owner := by
  intro opening hopening
  simp only [argumentsAt?, bind_eq_ok] at hopening
  obtain ⟨name, hname, found, hfound, hopening⟩ := hopening
  obtain ⟨place', rfl, rfl⟩ := Option.map_eq_some_iff.mp (Except.ok.inj hopening)
  have hbefore : name.offset < owner.location.stop - 1 := by
    by_contra hpast
    rw [findArguments_past (Nat.not_lt.mp hpast)] at hfound
    cases hfound
  obtain ⟨hreaches, hrest⟩ := reaches_of_skipTriviaFrom hname hbefore
  dsimp only at hreaches hrest
  have hsum : owner.location.start + 1 + (name.offset - (owner.location.start + 1)) =
      name.offset := by
    have hle := hreaches.le
    omega
  rw [List.drop_drop, hsum] at hrest
  have hnameAt : nameAt? text owner.location = .ok ⟨name.offset, place'.offset⟩ := by
    simp only [nameAt?, hname, hfound, bind, Except.bind]
    rfl
  obtain ⟨-, hcode⟩ := h _ hnameAt
  obtain ⟨hat, hle, -, rest, hround⟩ := @findArguments_found text _ _ _ _ hrest hfound
  have hchar : (text.drop name.offset)[place'.offset - name.offset]? = some '(' := by
    have hdrop : text.drop place'.offset = '(' :: rest := hat.symm.trans hround
    have hindex : name.offset + (place'.offset - name.offset) = place'.offset := by omega
    rw [List.getElem?_drop, hindex, ← List.head?_drop, hdrop]
    rfl
  refine hreaches.trans ?_
  rw [List.drop_drop, hsum]
  exact hcode.reaches hle hchar

theorem le_nameEnd {stop offset : Nat} {s : List Char} {found : Option Cursor}
    (h : findArguments stop offset s = .ok found) : min offset stop ≤ nameEnd found stop := by
  fun_induction findArguments stop offset s with
  | case1 =>
    cases h
    exact Nat.min_le_right _ _
  | case2 =>
    cases h
    exact Nat.min_le_left _ _
  | case3 offset rest hlt _ ih =>
    obtain ⟨close, hclose, hfound⟩ := bind_eq_ok.mp h
    have hbounds : offset + 1 ≤ close := (closing_eq_iff.mp hclose).bounds.1
    have hle := ih close hfound
    omega
  | case4 offset c rest hlt _ _ ih =>
    have hle := ih h
    omega
  | case5 =>
    cases h
    exact Nat.min_le_right _ _

/-- The name goes on behind a character that opens no arguments. -/
theorem lt_nameEnd {stop offset : Nat} {c : Char} {rest : List Char} {found : Option Cursor}
    (h : findArguments stop offset (c :: rest) = .ok found) (hc : c ≠ '(') (hlt : offset < stop) :
    offset < nameEnd found stop := by
  by_cases hsquare : c = '['
  · subst hsquare
    rw [findArguments_square hlt, bind_eq_ok] at h
    obtain ⟨close, hclose, hfound⟩ := h
    have hbounds : offset + 1 ≤ close := (closing_eq_iff.mp hclose).bounds.1
    have hle := le_nameEnd hfound
    omega
  · rw [findArguments_other hc hsquare hlt] at h
    have hle := le_nameEnd h
    omega

namespace Twin

variable {place : Nat} {p q stop : Twin}

/-- The arguments open at a twin, if the name before them is not around the place and its brackets are
code. -/
theorem Alike.findArguments (halike : Alike place p) (hstop : Path place p stop)
    {found : Option Cursor}
    (hfound : findArguments stop.left.offset p.left.offset p.left.rest = .ok found)
    (hcode : BracketsInCode (nameEnd found stop.left.offset) p.left.offset p.left.rest)
    (hplace : place < p.left.offset ∨ nameEnd found stop.left.offset ≤ place) :
    ∃ opening : Option Twin, found = opening.map (·.left) ∧
      findArguments stop.right.offset p.right.offset p.right.rest =
        .ok (opening.map (·.right)) ∧
      ∀ q ∈ opening, Path place p q ∧ ∃ rest, q.left.rest = '(' :: rest := by
  induction hlength : p.left.rest.length using Nat.strong_induction_on generalizing p with
  | _ length ih =>
    subst hlength
    rcases hstop.head_cases with rfl | ⟨next, hstep, hnext⟩
    · rw [findArguments_past (Nat.le_refl _)] at hfound ⊢
      cases hfound
      exact ⟨none, rfl, rfl, nofun⟩
    · obtain ⟨piece, piece', hleft, hright, hsame⟩ := id hstep
      obtain ⟨c, more, htext⟩ := List.exists_cons_of_ne_nil piece.text_ne_nil
      have hrest : p.left.rest = c :: (more ++ next.left.rest) := by
        rw [hleft.rest, htext, List.cons_append]
      have hoffset := hleft.offset
      have hoffset' := hright.offset
      have hle := hnext.le
      have hlt := Nat.lt_of_lt_of_le hstep.lt.1 hle.1
      have hlt' := Nat.lt_of_lt_of_le hstep.lt.2 hle.2
      by_cases hround : c = '('
      · subst hround
        obtain ⟨rest', hrest', -⟩ := halike.char (by decide) (by decide) hrest
        rw [hrest, findArguments_paren hlt, ← hrest] at hfound
        cases hfound
        refine ⟨some p, rfl, ?_, ?_⟩
        · rw [hrest', findArguments_paren hlt', ← hrest']
          rfl
        · rintro q ⟨⟩
          exact ⟨Path.refl p, _, hrest⟩
      by_cases hsquare : c = '['
      · subst hsquare
        rw [hrest, findArguments_square hlt, bind_eq_ok] at hfound
        obtain ⟨close, hclose, hfound⟩ := hfound
        obtain ⟨rest', q, behind, hgroup, rfl⟩ := halike.group rfl hrest hclose
        have hpath := hgroup.path
        have hfirst := hgroup.lt.1
        rw [hgroup.right, findArguments_square hlt']
        simp only [hgroup.closing, bind, Except.bind]
        by_cases hbefore : behind.left.offset ≤ stop.left.offset
        · have hdone := ih _ hgroup.shorter (halike.of_path hpath) (hpath.between hstop hbefore)
          rw [hgroup.behindLeft, hgroup.behindRight] at hdone
          obtain ⟨opening, hopening, hopening', hall⟩ := hdone hfound
            (by simpa only [hgroup.behindLeft] using hcode.path hpath) (by simp only; omega) rfl
          refine ⟨opening, hopening, hopening', fun opened hopened => ?_⟩
          obtain ⟨hopenedPath, hparen⟩ := hall opened hopened
          exact ⟨hpath.trans hopenedPath, hparen⟩
        · obtain ⟨hpast, hpast'⟩ := hgroup.past hstop (Nat.lt_of_not_le hbefore)
          rw [findArguments_past hpast] at hfound
          rw [findArguments_past hpast']
          cases hfound
          exact ⟨none, rfl, rfl, nofun⟩
      · have hend : p.left.offset < nameEnd found stop.left.offset :=
          lt_nameEnd (hrest ▸ hfound) hround hlt
        obtain ⟨hbrackets, hcode⟩ := hcode.leads hleft hend
        have hequal : piece = piece' := by
          rcases hsame with hequal | ⟨⟨hhere, -⟩, -⟩
          · exact hequal
          · omega
        have hnone : '(' ∉ piece.text ∧ '[' ∉ piece.text := by
          by_cases hplain : piece.kind = .plain
          · have hscans := hleft.scans
            rw [hplain] at hscans
            obtain ⟨d, hd⟩ := hscans.exists_of_plain
            obtain ⟨rfl, rfl⟩ := List.cons.inj (htext.symm.trans hd)
            rw [hd, List.mem_singleton, List.mem_singleton]
            exact ⟨Ne.symm hround, Ne.symm hsquare⟩
          · exact hbrackets hplain
        rw [hleft.rest, findArguments_append hnone.1 hnone.2 (by omega), ← hoffset] at hfound
        rw [hright.rest, ← hequal, findArguments_append hnone.1 hnone.2 (by rw [hequal]; omega),
          hequal, ← hoffset']
        obtain ⟨opening, hopening, hopening', hall⟩ :=
          ih _ hstep.shorter (halike.of_path hstep.path) hnext hfound hcode (by omega) rfl
        refine ⟨opening, hopening, hopening', fun opened hopened => ?_⟩
        obtain ⟨hopenedPath, hparen⟩ := hall opened hopened
        exact ⟨hstep.trans hopenedPath, hparen⟩

end Twin

/-! ## Attributes -/

theorem readAttribute_location {start : Cursor} {close : Nat} {owner : Attribute Span}
    (h : readAttribute start close = .ok owner) : owner.location = ⟨start.offset, close + 1⟩ := by
  unfold readAttribute at h
  obtain ⟨name, -, h⟩ := bind_eq_ok.mp h
  obtain ⟨found, -, h⟩ := bind_eq_ok.mp h
  cases found with
  | none =>
    cases h
    rfl
  | some opening =>
    obtain ⟨stop, -, h⟩ := bind_eq_ok.mp h
    obtain ⟨tail, -, h⟩ := bind_eq_ok.mp h
    split at h
    · cases h
    obtain ⟨parts, -, h⟩ := bind_eq_ok.mp h
    obtain ⟨found, -, h⟩ := bind_eq_ok.mp h
    cases h
    rfl

theorem nameAt?_eq {text : List Char} {here name : Cursor} {close : Nat} {found : Option Cursor}
    (hat : Cursor.At text (here.advance 1)) (hname : skipTrivia (here.advance 1) close = .ok name)
    (hfound : findArguments close name.offset name.rest = .ok found) :
    nameAt? text ⟨here.offset, close + 1⟩ = .ok ⟨name.offset, nameEnd found close⟩ := by
  have hrest : (⟨here.offset + 1, text.drop (here.offset + 1)⟩ : Cursor) = here.advance 1 := by
    rw [Cursor.advance, ← show here.rest.drop 1 = text.drop (here.offset + 1) from hat]
  simp only [nameAt?, Nat.add_sub_cancel, hrest, hname, hfound, bind, Except.bind]
  rfl

namespace Twin

variable {place : Nat} {start p q close stop : Twin} {text : List Char}

theorem Path.at (h : Path place p q) (hat : Cursor.At text p.left) : Cursor.At text q.left := by
  rw [h.left_eq]
  exact hat.drop _

/-- Trivia reach up to a twin in both texts or in none. -/
theorem Path.reaches (hp : Path place start p) (hclose : Path place start close) :
    ∃ tail tail', PowerShell.skipTrivia p.left close.left.offset = .ok tail ∧
      PowerShell.skipTrivia p.right close.right.offset = .ok tail' ∧
      (tail.offset = close.left.offset ↔ tail'.offset = close.right.offset) := by
  by_cases hle : p.left.offset ≤ close.left.offset
  · obtain ⟨r, -, hrest, hskip, hskip'⟩ := (hp.between hclose hle).skipTrivia
    refine ⟨r.left, r.right, hskip, hskip', fun hreaches => ?_, fun hreaches => ?_⟩
    · rw [hrest.eq_of_offset_eq (.inl hreaches)]
    · rw [hrest.eq_of_offset_eq (.inr hreaches)]
  · have horder := hclose.lt_iff hp
    exact ⟨_, _, skipTriviaFrom_past (by omega) _, skipTriviaFrom_past (by omega) _,
      iff_of_true rfl rfl⟩

theorem Alike.readAttribute {inside : Twin} (halike : Alike place inside)
    (hclose : Path place inside close) (hleft : inside.left = p.left.advance 1)
    (hright : inside.right = p.right.advance 1) (hat : Cursor.At text inside.left)
    {owner : Attribute Span} (hread : readAttribute p.left close.left.offset = .ok owner)
    (hapart : NameApart text place owner) :
    ∃ owner', readAttribute p.right close.right.offset = .ok owner' ∧
      owner.meaning = owner'.meaning := by
  obtain ⟨name, hname, hnameClose, hskip, hskip'⟩ := hclose.skipTrivia
  have hlocation := readAttribute_location hread
  rw [hleft] at hskip hat
  rw [hright] at hskip'
  unfold PowerShell.readAttribute at hread ⊢
  simp only [bind_eq_ok] at hread
  obtain ⟨inner, hinner, found, hfound, hread⟩ := hread
  cases hskip.symm.trans hinner
  have hnameAt := nameAt?_eq hat hskip hfound
  rw [← hlocation] at hnameAt
  obtain ⟨hplace, hcode⟩ := hapart _ hnameAt
  have hrest : text.drop name.left.offset = name.left.rest := by
    have hatName := hname.at (hleft ▸ hat)
    exact hatName.symm
  rw [hrest] at hcode
  have hnameAlike := halike.of_path hname
  obtain ⟨opening, rfl, hfound', hopening⟩ :=
    hnameAlike.findArguments hnameClose hfound hcode hplace
  simp only [hskip', hfound', bind, Except.bind]
  cases opening with
  | none =>
    cases hread
    refine ⟨_, rfl, ?_⟩
    have htext := hnameClose.textTo_eq hplace
    simp only [Attribute.meaning, Attribute.map, htext, List.map_nil]
  | some paren =>
    obtain ⟨hparen, rest, hopens⟩ := hopening paren rfl
    have htext := hparen.textTo_eq hplace
    simp only [Option.map_some, bind_eq_ok] at hread ⊢
    obtain ⟨stop, hstop, tail, htail, hread⟩ := hread
    rw [advance_one hopens] at hstop
    obtain ⟨rest', q, behind, hgroup, rfl⟩ := (hnameAlike.of_path hparen).group rfl hopens hstop
    rw [advance_group hopens hgroup.lt.1, ← hgroup.behindLeft] at htail
    obtain ⟨tail₀, tail', htail₀, htail', hreaches⟩ :=
      (hparen.trans hgroup.path).reaches hnameClose
    cases htail₀.symm.trans htail
    simp only [advance_one hgroup.right, hgroup.closing,
      advance_group hgroup.right hgroup.lt.2, ← hgroup.behindRight, htail']
    split at hread
    · cases hread
    · next hend =>
      rw [Decidable.not_not] at hend
      rw [if_neg (by rw [Decidable.not_not]; exact hreaches.mp hend)]
      simp only [bind_eq_ok] at hread
      obtain ⟨parts, hparts, found, hargs, hread⟩ := hread
      cases hread
      rw [advance_one hopens] at hparts
      have hinsideAlike := hnameAlike.of_path (hparen.trans hgroup.opens.path)
      obtain ⟨parts', hparts', hsame⟩ := hinsideAlike.splitTopLevel hgroup.closes hparts
      obtain ⟨found₀, found', hfound₀, hargs', hall⟩ := readArguments_parts_alike hsame
      cases hfound₀.symm.trans hargs
      obtain ⟨hnamed, hpositional⟩ := arguments_same hall
      dsimp only [Twin.inside] at hparts'
      simp only [hparts', hargs']
      refine ⟨_, rfl, ?_⟩
      simp only [Attribute.meaning, Attribute.map, htext, hpositional]
      congr 1

end Twin

/-! ### Lists of attributes -/

theorem readAttributes_other {stop : Nat} {here : Cursor}
    (h : here.offset < stop → ∀ rest, here.rest ≠ '[' :: rest) :
    readAttributes stop here = .ok ([], here) := by
  rw [readAttributes.eq_def]
  split
  · next rest hrest =>
    rw [if_neg fun hlt => h hlt rest hrest]
  · rfl

/-- Behind its last attribute a parameter goes on. -/
theorem readAttributes_last {text : List Char} {stop : Nat} {start behind : Cursor}
    {owners : List (Attribute Span)} (hat : Cursor.At text start)
    (h : readAttributes stop start = .ok (owners, behind)) :
    (owners = [] ∧ behind = start) ∨ ∃ owner, owners.getLast? = some owner ∧
      skipTrivia ⟨owner.location.stop, text.drop owner.location.stop⟩ stop = .ok behind := by
  induction hlength : start.rest.length using Nat.strong_induction_on generalizing start owners with
  | _ length ih =>
    subst hlength
    by_cases hsquare : start.offset < stop ∧ ∃ rest, start.rest = '[' :: rest
    · obtain ⟨hlt, rest, hrest⟩ := hsquare
      rw [readAttributes_square hrest hlt] at h
      simp only [bind_eq_ok] at h
      obtain ⟨close, hclose, first, hfirst, next, hnext, ⟨more, last⟩, hmore, h⟩ := h
      cases h
      have hbounds : start.offset + 1 ≤ close := (closing_eq_iff.mp hclose).bounds.1
      have hatBehind : Cursor.At text (start.advance (1 + (close - start.offset))) := hat.drop _
      rw [advance_group hrest hbounds] at hnext hatBehind
      have hlocation := readAttribute_location hfirst
      have hskip : skipTrivia ⟨first.location.stop, text.drop first.location.stop⟩ stop =
          .ok next := by
        rw [hlocation]
        exact hatBehind ▸ hnext
      by_cases hnextLt : next.offset < stop
      · obtain ⟨hreaches, hdrop⟩ := reaches_of_skipTriviaFrom hnext hnextLt
        have hatNext : Cursor.At text next := by
          have hle := hreaches.le
          have hshown := hatBehind.drop (next.offset - (close + 1))
          rw [Nat.add_sub_cancel' hle, ← hdrop] at hshown
          exact hshown
        have hshorter : next.rest.length < start.rest.length := by
          have hle := skipTrivia_length_le hnext
          rw [List.length_drop] at hle
          rw [hrest, List.length_cons]
          omega
        rcases ih _ hshorter hatNext hmore rfl with ⟨rfl, rfl⟩ | ⟨owner, howner, hlast⟩
        · exact .inr ⟨first, rfl, hskip⟩
        · refine .inr ⟨owner, ?_, hlast⟩
          rw [List.getLast?_cons, howner]
          rfl
      · rw [readAttributes_other fun hlt => absurd hlt hnextLt] at hmore
        cases hmore
        exact .inr ⟨first, rfl, hskip⟩
    · rw [readAttributes_other fun hlt rest hrest => hsquare ⟨hlt, rest, hrest⟩] at h
      cases h
      exact .inl ⟨rfl, rfl⟩

namespace Twin

variable {place : Nat} {p stop : Twin} {text : List Char}

theorem Alike.readAttributes (halike : Alike place p) (hstop : Path place p stop) {s : List Char}
    (hwalk : Walk anyCode p.left.offset p.left.rest stop.left.offset s)
    (hat : Cursor.At text p.left) {owners : List (Attribute Span)} {behind : Cursor}
    (hread : readAttributes stop.left.offset p.left = .ok (owners, behind))
    (hapart : ∀ owner ∈ owners, NameApart text place owner) :
    ∃ owners' q, readAttributes stop.right.offset p.right = .ok (owners', q.right) ∧
      behind = q.left ∧ Path place p q ∧ Path place q stop ∧
      owners.map Attribute.meaning = owners'.map Attribute.meaning := by
  induction hlength : p.left.rest.length using Nat.strong_induction_on
    generalizing p owners with
  | _ length ih =>
    subst hlength
    have horder := (Path.refl p).lt_iff hstop
    by_cases hsquare : p.left.offset < stop.left.offset ∧ ∃ rest, p.left.rest = '[' :: rest
    · obtain ⟨hlt, rest, hrest⟩ := hsquare
      rw [readAttributes_square hrest hlt] at hread
      simp only [bind_eq_ok] at hread
      obtain ⟨close, hclose, first, hfirst, next, hnext, ⟨more, last⟩, hmore, hread⟩ := hread
      cases hread
      rw [List.forall_mem_cons] at hapart
      obtain ⟨rest', q, behind, hgroup, rfl⟩ := halike.group rfl hrest hclose
      rw [readAttributes_square hgroup.right (horder.mp hlt)]
      -- the attribute ends before `stop`, and so do the trivia behind it
      have hbehindWalk : Walk anyCode behind.left.offset behind.left.rest stop.left.offset s := by
        rw [hrest] at hwalk
        rw [hgroup.behindLeft]
        exact hwalk.behindGroup (by decide) rfl (closing_eq_iff.mp hclose) hlt
      have hbehindStop := hgroup.path.between hstop hbehindWalk.le
      rw [advance_group hrest hgroup.lt.1, ← hgroup.behindLeft] at hnext
      obtain ⟨r, hr, hrStop, hskip, hskip'⟩ := hbehindStop.skipTrivia
      cases hskip.symm.trans hnext
      obtain ⟨first', hfirst', hsame⟩ :=
        (halike.of_path hgroup.opens.path).readAttribute hgroup.closes (p := p)
          (advance_one hrest).symm (advance_one hgroup.right).symm (hgroup.opens.path.at hat)
          hfirst hapart.1
      have hpath := hgroup.path.trans hr
      have hshorter := hr.length_le.trans_lt hgroup.shorter
      obtain ⟨more', last, hmore', rfl, hlast, hlastStop, hsameMore⟩ :=
        ih _ hshorter (halike.of_path hpath) hrStop (hbehindWalk.skipTrivia hskip).2
          (hpath.at hat) hmore hapart.2 rfl
      simp only [hgroup.closing, hfirst', advance_group hgroup.right hgroup.lt.2,
        ← hgroup.behindRight, hskip', hmore', bind, Except.bind]
      refine ⟨_, last, rfl, rfl, hpath.trans hlast, hlastStop, ?_⟩
      rw [List.map_cons, List.map_cons, hsame, hsameMore]
    · rw [readAttributes_other fun hlt rest hrest => hsquare ⟨hlt, rest, hrest⟩] at hread
      cases hread
      refine ⟨[], p, readAttributes_other fun hlt rest hrest => ?_, rfl, Path.refl p, hstop, rfl⟩
      obtain ⟨rest', hrest', -⟩ := halike.swap.char (by decide) (by decide) hrest
      exact hsquare ⟨horder.mpr hlt, rest', hrest'⟩

end Twin

end DscAudit.PowerShell

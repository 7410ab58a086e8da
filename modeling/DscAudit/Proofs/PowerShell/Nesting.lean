import DscAudit.PowerShell.ParameterBlock
import DscAudit.Proofs.PowerShell.Walk
import DscAudit.Proofs.Text.Character

/-!
# Nesting of declarations

Blocks, parameters, attributes and named arguments are found at spans.  Siblings come one after the
other, and each lies within its parent, with one exception: the argument list of an attribute opens
with the first round bracket of its text, also where that stands within a string or a comment, and
may then close behind the attribute.  The declarations nest exactly where no argument list does so.
-/

namespace DscAudit.PowerShell

theorem bind_eq_ok {ε α β : Type} {x : Except ε α} {f : α → Except ε β} {b : β} :
    x >>= f = .ok b ↔ ∃ a, x = .ok a ∧ f a = .ok b := by
  cases x with
  | error e => simp [bind, Except.bind]
  | ok a => simp [bind, Except.bind]

/-! ## The statement -/

/-- Spans within given bounds, none of them empty, each behind the one before it. -/
def Ordered (first last : Nat) : List Span → Prop
  | [] => first ≤ last
  | span :: spans => first ≤ span.start ∧ span.start < span.stop ∧ Ordered span.stop last spans

/-- The bracket that opens the argument list of the attribute at a span, if it has one. -/
def argumentsAt? (text : List Char) (span : Span) : Except Fault (Option Nat) := do
  let name ← skipTrivia ⟨span.start + 1, text.drop (span.start + 1)⟩ (span.stop - 1)
  let opening ← findArguments (span.stop - 1) name.offset name.rest
  return opening.map (·.offset)

/-- The brackets around the arguments of an attribute. -/
def ArgumentList (text : List Char) (owner : Attribute Span) (opening close : Nat) : Prop :=
  argumentsAt? text owner.location = .ok (some opening) ∧ findClosing text opening = .ok close

/-- The argument list of the attribute, if it has one, closes before the attribute does. -/
def ListInside (text : List Char) (owner : Attribute Span) : Prop :=
  ∀ opening close, ArgumentList text owner opening close → close + 1 < owner.location.stop

/-- The named arguments come one after the other behind the opening bracket. -/
def ArgumentsOrdered (owner : Attribute Span) : Prop :=
  ∃ last, Ordered (owner.location.start + 1) last (owner.named.map (·.location))

/-- The named arguments lie within the brackets of the attribute, and so does all of the text that
arguments are read from. -/
def ArgumentsInside (text : List Char) (owner : Attribute Span) : Prop :=
  Ordered (owner.location.start + 1) (owner.location.stop - 1) (owner.named.map (·.location)) ∧
    ListInside text owner

/-- A lexeme starts at the place. -/
inductive Reaches : Nat → List Char → Nat → Prop
  | here (offset : Nat) (s : List Char) : Reaches offset s offset
  | next {c : Char} {rest : List Char} {offset place : Nat} {lexeme : Lexeme (c :: rest)}
      (hscan : Lexeme.scan c rest = .ok lexeme)
      (h : Reaches (offset + lexeme.length) ((c :: rest).drop lexeme.length) place) :
      Reaches offset (c :: rest) place

/-- The bracket that opens the argument list is not within a string, a comment or an escape. -/
def OpensInCode (text : List Char) (owner : Attribute Span) : Prop :=
  ∀ opening, argumentsAt? text owner.location = .ok (some opening) →
    Reaches (owner.location.start + 1) (text.drop (owner.location.start + 1)) opening

/-- The attribute starts with a square bracket and ends with the one that closes it. -/
def AttributeNests (text : List Char) (arguments : Attribute Span → Prop)
    (owner : Attribute Span) : Prop :=
  text[owner.location.start]? = some '[' ∧
    findClosing text owner.location.start = .ok (owner.location.stop - 1) ∧ arguments owner

def ParameterNests (text : List Char) (arguments : Attribute Span → Prop)
    (parameter : Parameter Span) : Prop :=
  Ordered parameter.location.start parameter.location.stop
      (parameter.attributes.map (·.location)) ∧
    ∀ owner ∈ parameter.attributes, AttributeNests text arguments owner

/-- The parameters lie within the round brackets that the block ends with. -/
def BlockNests (text : List Char) (arguments : Attribute Span → Prop)
    (block : ParameterBlock Span) : Prop :=
  ∃ opening, block.location.start < opening ∧ text[opening]? = some '(' ∧
    findClosing text opening = .ok (block.location.stop - 1) ∧
    Ordered (opening + 1) (block.location.stop - 1) (block.parameters.map (·.location)) ∧
    ∀ parameter ∈ block.parameters, ParameterNests text arguments parameter

/-- The declarations nest, where `arguments` says what holds of the arguments of each attribute. -/
def Nests (text : List Char) (arguments : Attribute Span → Prop)
    (blocks : List (ParameterBlock Span)) : Prop :=
  Ordered 0 text.length (blocks.map (·.location)) ∧
    ∀ block ∈ blocks, BlockNests text arguments block

def attributesOf (blocks : List (ParameterBlock Span)) : List (Attribute Span) :=
  blocks.flatMap fun block => block.parameters.flatMap (·.attributes)

/-! ## Ordered spans -/

namespace Ordered

theorem le {first last : Nat} {spans : List Span} (h : Ordered first last spans) :
    first ≤ last := by
  induction spans generalizing first with
  | nil => exact h
  | cons span spans ih =>
      have hrest := ih h.2.2
      obtain ⟨hfirst, hspan, _⟩ := h
      omega

theorem start_lt_stop {first last : Nat} {spans : List Span} (h : Ordered first last spans) :
    ∀ span ∈ spans, span.start < span.stop := by
  induction spans generalizing first with
  | nil => exact fun span hspan => absurd hspan List.not_mem_nil
  | cons span spans ih => exact List.forall_mem_cons.2 ⟨h.2.1, ih h.2.2⟩

theorem mono {first first' last : Nat} {spans : List Span} (h : Ordered first last spans)
    (hle : first' ≤ first) : Ordered first' last spans := by
  cases spans with
  | nil => exact Nat.le_trans hle h
  | cons span spans => exact ⟨Nat.le_trans hle h.1, h.2⟩

theorem widen {first last last' : Nat} {spans : List Span} (h : Ordered first last spans)
    (hle : last ≤ last') : Ordered first last' spans := by
  induction spans generalizing first with
  | nil => exact Nat.le_trans h hle
  | cons span spans ih => exact ⟨h.1, h.2.1, ih h.2.2⟩

theorem append {first middle middle' last : Nat} {spans more : List Span}
    (h : Ordered first middle spans) (hle : middle ≤ middle') (hmore : Ordered middle' last more) :
    Ordered first last (spans ++ more) := by
  induction spans generalizing first with
  | nil => exact hmore.mono (Nat.le_trans h hle)
  | cons span spans ih => exact ⟨h.1, h.2.1, ih h.2.2⟩

theorem bounds {first last : Nat} {spans : List Span} (h : Ordered first last spans) :
    ∀ span ∈ spans, first ≤ span.start ∧ span.stop ≤ last := by
  induction spans generalizing first with
  | nil => exact fun span hspan => absurd hspan List.not_mem_nil
  | cons span spans ih =>
      have hlast := h.2.2.le
      intro other hother
      rcases List.mem_cons.1 hother with rfl | hother
      · exact ⟨h.1, hlast⟩
      · have hbounds := ih h.2.2 other hother
        have hspan := h.2.1
        exact ⟨by have := h.1; omega, hbounds.2⟩

/-- Any two spans are disjoint and in order. -/
theorem pairwise {first last : Nat} {spans : List Span} (h : Ordered first last spans) :
    spans.Pairwise fun span span' => span.stop ≤ span'.start := by
  induction spans generalizing first with
  | nil => exact .nil
  | cons span spans ih =>
      exact .cons (fun other hother => (h.2.2.bounds other hother).1) (ih h.2.2)

/-- A span that starts before another one also stops before it. -/
theorem stop_le {first last : Nat} {spans : List Span} (h : Ordered first last spans)
    {span span' : Span} (hspan : span ∈ spans) (hspan' : span' ∈ spans)
    (hlt : span.start < span'.start) : span.stop ≤ span'.start := by
  induction spans generalizing first with
  | nil => cases hspan
  | cons next spans ih =>
      obtain ⟨-, hnext, hrest⟩ := h
      rw [List.mem_cons] at hspan hspan'
      rcases hspan with rfl | hspan
      · rcases hspan' with rfl | hspan'
        · exact absurd hlt (Nat.lt_irrefl _)
        · exact (hrest.bounds _ hspan').1
      · rcases hspan' with rfl | hspan'
        · have := (hrest.bounds _ hspan).1
          omega
        · exact ih hrest hspan hspan'

end Ordered

/-! ## Places that the readers reach -/

theorem Walk.tail {c : Char} {rest s : List Char} {offset stop : Nat} {lexeme : Lexeme (c :: rest)}
    (h : Walk anyCode offset (c :: rest) stop s) (hscan : Lexeme.scan c rest = .ok lexeme)
    (hbracket : lexeme.kind = .plain → isBracket c = false) (hlt : offset < stop) :
    Walk anyCode offset (c :: rest) (offset + lexeme.length) ((c :: rest).drop lexeme.length) ∧
      Walk anyCode (offset + lexeme.length) ((c :: rest).drop lexeme.length) stop s := by
  refine ⟨.lexeme hscan hbracket trivial (.nil _ _), ?_⟩
  cases h with
  | nil => exact absurd hlt (Nat.lt_irrefl _)
  | lexeme hscan' _ _ h =>
      cases hscan.symm.trans hscan'
      exact h
  | group hscan' hkind hopener _ _ =>
      cases hscan.symm.trans hscan'
      have hc := hbracket hkind
      rw [isBracket, hopener] at hc
      cases hc

theorem Walk.behindGroup {c expected : Char} {rest s : List Char} {offset close stop : Nat}
    (h : Walk anyCode offset (c :: rest) stop s)
    (hc : c ∉ ['<', '#', '\x60', '@', '\x27', '"']) (hopener : closer? c = some expected)
    (hclose : Closes expected [] (offset + 1) rest close) (hlt : offset < stop) :
    Walk anyCode (close + 1) (rest.drop (close - offset)) stop s := by
  have hscan := scan_plain hc rest
  cases h with
  | nil => exact absurd hlt (Nat.lt_irrefl _)
  | lexeme hscan' hbracket _ _ =>
      cases hscan.symm.trans hscan'
      have hbracket := hbracket rfl
      rw [isBracket, hopener] at hbracket
      cases hbracket
  | group _ _ hopener' hclose' h =>
      cases hopener.symm.trans hopener'
      cases hclose.unique hclose'
      exact h

theorem plain_of_isBlank {c : Char} (h : Text.isBlank c = true) :
    c ∉ ['<', '#', '\x60', '@', '\x27', '"'] ∧ isBracket c = false := by
  exact ⟨Text.not_mem_of_any (by decide) h,
    isBracket_of_not_mem (Text.not_mem_of_any (by decide) h)⟩

theorem isComment_of_startsComment {c : Char} {rest : List Char} {lexeme : Lexeme (c :: rest)}
    (hscan : Lexeme.scan c rest = .ok lexeme) (h : startsComment (c :: rest) = true) :
    lexeme.kind.isComment = true := by
  unfold startsComment at h
  split at h
  · next heq =>
    cases heq
    cases hscan
    rfl
  · next heq =>
    cases heq
    have hkind : lexeme.kind = .blockComment := ofLength?_kind Nat.two_pos hscan
    rw [hkind]
    rfl
  · cases h

theorem exists_of_continuesLine {s : List Char} (h : continuesLine s = true) :
    ∃ c rest, s = '\x60' :: c :: rest ∧ isLineEnd c = true := by
  unfold continuesLine at h
  split at h
  · exact ⟨_, _, rfl, h⟩
  · cases h

theorem exists_scan_of_continuesLine {c : Char} {rest : List Char}
    (h : continuesLine (c :: rest) = true) : ∃ lexeme, Lexeme.scan c rest = .ok lexeme ∧
      lexeme.kind = .escape ∧ lexeme.length = 2 := by
  obtain ⟨d, more, heq, -⟩ := exists_of_continuesLine h
  cases heq
  exact ⟨_, rfl, rfl, by simp⟩

theorem Walk.skipTrivia {s s' : List Char} {offset stop : Nat} {cursor : Cursor}
    (hwalk : Walk anyCode offset s stop s') (h : skipTriviaFrom stop offset s = .ok cursor) :
    Walk anyCode offset s cursor.offset cursor.rest ∧
      Walk anyCode cursor.offset cursor.rest stop s' := by
  have hclip : ∀ {o : Nat} {t : List Char}, o ≤ stop → Cursor.clip ⟨o, t⟩ stop = ⟨o, t⟩ := by
    intro o t hle
    rw [Cursor.clip, Nat.min_eq_left hle]
  fun_induction skipTriviaFrom stop offset s with
  | case1 offset =>
      cases h
      rw [hclip hwalk.le]
      exact ⟨.nil _ _, hwalk⟩
  | case2 offset c rest hlt hblank ih =>
      obtain ⟨hplain, hbracket⟩ := plain_of_isBlank hblank
      obtain ⟨hfirst, hrest⟩ := hwalk.tail (scan_plain hplain rest) (fun _ => hbracket) hlt
      obtain ⟨hskip, hbehind⟩ := ih hrest h
      exact ⟨hfirst.trans hskip, hbehind⟩
  | case3 offset c rest hlt hblank hcomment ih =>
      obtain ⟨lexeme, hscan, hskipped⟩ := bind_eq_ok.1 h
      rw [scanAt_eq_ok_iff] at hscan
      have hkind := isComment_of_startsComment hscan hcomment
      obtain ⟨hfirst, hrest⟩ :=
        hwalk.tail hscan (fun hplain => by rw [hplain] at hkind; cases hkind) hlt
      obtain ⟨hskip, hbehind⟩ := ih lexeme hrest hskipped
      exact ⟨hfirst.trans hskip, hbehind⟩
  | case4 offset c rest hlt hblank hcomment hcontinues ih =>
      rw [Bool.and_eq_true] at hcontinues
      obtain ⟨lexeme, hscan, hkind, hlength⟩ := exists_scan_of_continuesLine hcontinues.1
      obtain ⟨hfirst, hrest⟩ :=
        hwalk.tail hscan (fun hplain => by rw [hplain] at hkind; cases hkind) hlt
      rw [hlength] at hfirst hrest
      obtain ⟨hskip, hbehind⟩ := ih hrest h
      exact ⟨hfirst.trans hskip, hbehind⟩
  | case5 offset c rest hlt =>
      cases h
      exact ⟨.nil _ _, hwalk⟩
  | case6 offset c rest hlt =>
      cases h
      rw [hclip hwalk.le]
      exact ⟨.nil _ _, hwalk⟩

theorem skipTrivia_bounds {s : List Char} {offset stop : Nat} {cursor : Cursor}
    (h : skipTriviaFrom stop offset s = .ok cursor) :
    min offset stop ≤ cursor.offset ∧ cursor.offset ≤ stop := by
  fun_induction skipTriviaFrom stop offset s with
  | case1 offset =>
      cases h
      simp only [Cursor.clip]
      omega
  | case2 offset c rest hlt hblank ih =>
      have := ih h
      omega
  | case3 offset c rest hlt hblank hcomment ih =>
      obtain ⟨lexeme, _, hskipped⟩ := bind_eq_ok.1 h
      have := ih lexeme hskipped
      omega
  | case4 offset c rest hlt hblank hcomment hcontinues ih =>
      have := ih h
      omega
  | case5 offset c rest hlt =>
      cases h
      simp only
      omega
  | case6 offset c rest hlt =>
      cases h
      simp only [Cursor.clip]
      omega

theorem codeEnd_le {s : List Char} {offset stop last found : Nat}
    (h : codeEndFrom stop last offset s = .ok found) (hlast : last ≤ stop) : found ≤ stop := by
  fun_induction codeEndFrom stop last offset s with
  | case1 => cases h; exact hlast
  | case2 last offset c rest hlt hcontinues ih => exact ih h hlast
  | case3 last offset c rest hlt hcontinues ih =>
      obtain ⟨lexeme, _, hmore⟩ := bind_eq_ok.1 h
      refine ih lexeme hmore ?_
      split
      · exact hlast
      · exact Nat.min_le_right _ _
  | case4 last offset c rest hlt =>
      cases h
      exact hlast

/-! ## Places in a text -/

/-- The cursor stands where it says in the text. -/
def Cursor.At (text : List Char) (cursor : Cursor) : Prop := cursor.rest = text.drop cursor.offset

theorem Cursor.At.cons {text rest : List Char} {offset : Nat} {c : Char}
    (h : Cursor.At text ⟨offset, c :: rest⟩) :
    text[offset]? = some c ∧ offset < text.length ∧ Cursor.At text ⟨offset + 1, rest⟩ := by
  have hdrop : text.drop offset = c :: rest := h.symm
  have hlength := congrArg List.length hdrop
  rw [List.length_drop, List.length_cons] at hlength
  refine ⟨?_, by omega, ?_⟩
  · rw [← List.head?_drop, hdrop]
    rfl
  · rw [Cursor.At, ← List.drop_drop, hdrop]
    rfl

/-- The text at a cursor starts with the character there. -/
theorem Cursor.At.exists_cons {text s : List Char} {offset : Nat} {c : Char}
    (h : Cursor.At text ⟨offset, s⟩) (hc : text[offset]? = some c) : ∃ rest, s = c :: rest := by
  rw [← List.head?_drop, ← (h : s = text.drop offset)] at hc
  exact List.head?_eq_some_iff.mp hc

theorem Cursor.At.drop {text s : List Char} {offset : Nat} (h : Cursor.At text ⟨offset, s⟩)
    (count : Nat) : Cursor.At text ⟨offset + count, s.drop count⟩ := by
  have hdrop : s = text.drop offset := h
  rw [Cursor.At, hdrop, List.drop_drop]

theorem Cursor.At.length {text s : List Char} {offset : Nat} (h : Cursor.At text ⟨offset, s⟩)
    (hle : offset ≤ text.length) : offset + s.length = text.length := by
  have hdrop : s = text.drop offset := h
  rw [hdrop, List.length_drop]
  omega

theorem Cursor.At.walk {allowed : LexemeKind → Char → Prop} {text s s' : List Char}
    {offset stop : Nat} (h : Cursor.At text ⟨offset, s⟩) (hwalk : Walk allowed offset s stop s') :
    Cursor.At text ⟨stop, s'⟩ := by
  have hle := hwalk.le
  have hstop : offset + (stop - offset) = stop := by omega
  have hat : Cursor.At text ⟨offset + (stop - offset), s.drop (stop - offset)⟩ := h.drop _
  rw [hstop, hwalk.drop_eq] at hat
  exact hat

theorem findClosing_eq_iff {text rest : List Char} {offset close : Nat} {c expected : Char}
    (hat : Cursor.At text ⟨offset, c :: rest⟩) (hopener : closer? c = some expected) :
    findClosing text offset = .ok close ↔ Closes expected [] (offset + 1) rest close := by
  have hdrop : text.drop offset = c :: rest := hat.symm
  rw [findClosing, hdrop]
  simp only [hopener]
  rw [← @closing_eq_iff c expected ⟨offset + 1, rest⟩ close]
  cases closing c expected ⟨offset + 1, rest⟩ with
  | error fault => simp [Except.mapError]
  | ok found => simp [Except.mapError]

/-- Only from an opening bracket a closing one is found. -/
theorem closes_of_findClosing {text rest : List Char} {offset close : Nat} {c : Char}
    (hat : Cursor.At text ⟨offset, c :: rest⟩) (h : findClosing text offset = .ok close) :
    ∃ expected, closer? c = some expected ∧ Closes expected [] (offset + 1) rest close := by
  have hfound := h
  rw [findClosing, ← (hat : c :: rest = text.drop offset)] at hfound
  cases hopener : closer? c with
  | none =>
    simp only [hopener] at hfound
    cases hfound
  | some expected => exact ⟨expected, rfl, (findClosing_eq_iff hat hopener).mp h⟩

/-! ## Arguments -/

theorem named?_ofText {text : List Char} {span : Span} {argument : NamedArgument Span}
    (h : (Argument.ofText text span).named? = some argument) : argument.location = span := by
  unfold Argument.ofText at h
  split at h
  · cases h
    rfl
  · split at h
    · cases h
      rfl
    · cases h

theorem bounds_of_readArgument {part : Part} {found : Argument} {argument : NamedArgument Span}
    (h : readArgument part = .ok (some found)) (hnamed : found.named? = some argument)
    (hpart : part.start.offset ≤ part.stop) :
    part.start.offset ≤ argument.location.start ∧
      argument.location.start < argument.location.stop ∧ argument.location.stop ≤ part.stop := by
  unfold readArgument at h
  obtain ⟨start, hstart, h⟩ := bind_eq_ok.1 h
  obtain ⟨stop, hstop, h⟩ := bind_eq_ok.1 h
  have hfirst := skipTrivia_bounds hstart
  have hlast := codeEnd_le hstop hfirst.2
  split at h
  · next hlt =>
    obtain ⟨text, _, h⟩ := bind_eq_ok.1 h
    cases h
    simp only [named?_ofText hnamed]
    exact ⟨by omega, hlt, hlast⟩
  · cases h

def namedSpans (found : List (Option Argument)) : List Span :=
  ((found.filterMap id).filterMap Argument.named?).map (·.location)

theorem namedSpans_append (found more : List (Option Argument)) :
    namedSpans (found ++ more) = namedSpans found ++ namedSpans more := by
  simp [namedSpans]

theorem ordered_of_readArgument {part : Part} {argument : Option Argument}
    (hpart : part.start.offset ≤ part.stop) (h : readArgument part = .ok argument) :
    Ordered part.start.offset part.stop (namedSpans [argument]) := by
  cases argument with
  | none => exact hpart
  | some argument =>
      cases hnamed : argument.named? with
      | none =>
          have hempty : namedSpans [some argument] = [] := by simp [namedSpans, hnamed]
          rw [hempty]
          exact hpart
      | some named =>
          have hone : namedSpans [some argument] = [named.location] := by simp [namedSpans, hnamed]
          rw [hone]
          exact bounds_of_readArgument h hnamed hpart

theorem ordered_of_readArguments {stop : Nat} {start : Cursor} {parts : List Part}
    {found : List (Option Argument)} (hparts : Parts stop start parts)
    (h : parts.mapM readArgument = .ok found) :
    Ordered start.offset stop (namedSpans found) := by
  induction hparts generalizing found with
  | last hwalk =>
      rw [List.mapM_cons] at h
      obtain ⟨argument, hargument, h⟩ := bind_eq_ok.1 h
      obtain ⟨more, hmore, h⟩ := bind_eq_ok.1 h
      cases hmore
      cases h
      exact ordered_of_readArgument hwalk.le hargument
  | more hwalk hlt _ ih =>
      rw [List.mapM_cons] at h
      obtain ⟨argument, hargument, h⟩ := bind_eq_ok.1 h
      obtain ⟨more, hmore, h⟩ := bind_eq_ok.1 h
      cases h
      rw [← List.singleton_append, namedSpans_append]
      exact (ordered_of_readArgument hwalk.le hargument).append (Nat.le_succ _) (ih hmore)

/-! ## Attributes -/

/-- What holds of the arguments of every attribute that is read. -/
structure ArgumentsFound (text : List Char) (owner : Attribute Span) : Prop where
  ordered : ArgumentsOrdered owner
  inside : ListInside text owner → ArgumentsInside text owner
  code : OpensInCode text owner → ListInside text owner
  within : ∀ argument ∈ owner.named, argument.location.stop ≤ text.length

theorem Reaches.le {s : List Char} {offset place : Nat} (h : Reaches offset s place) :
    offset ≤ place := by
  induction h with
  | here => exact Nat.le_refl _
  | next _ _ ih => omega

/-- Where a lexeme starts before the closing bracket, the walk to that bracket comes by. -/
theorem Reaches.closes {expected : Char} {outer s : List Char} {offset place stop : Nat}
    (h : Reaches offset s place) (hclose : Closes expected outer offset s stop)
    (hlt : place < stop) :
    ∃ expected' outer', Closes expected' outer' place (s.drop (place - offset)) stop := by
  induction h generalizing expected outer with
  | here offset s =>
      rw [Nat.sub_self, List.drop_zero]
      exact ⟨_, _, hclose⟩
  | @next c rest offset place lexeme hscan h ih =>
      have hpos := lexeme.length_pos
      have hle := h.le
      have hbehind : ∃ expected' outer',
          Closes expected' outer' (offset + lexeme.length)
            ((c :: rest).drop lexeme.length) stop := by
        cases hclose with
        | lexeme hscan' _ h =>
            cases hscan.symm.trans hscan'
            exact ⟨_, _, h⟩
        | opener hscan' hkind _ h =>
            cases hscan.symm.trans hscan'
            rw [length_of_plain hscan hkind]
            exact ⟨_, _, h⟩
        | closer hscan' hkind _ h =>
            cases hscan.symm.trans hscan'
            rw [length_of_plain hscan hkind]
            exact ⟨_, _, h⟩
        | outermost => omega
      obtain ⟨_, _, hbehind⟩ := hbehind
      obtain ⟨expected', outer', h⟩ := ih hbehind hlt
      have hsum : lexeme.length + (place - (offset + lexeme.length)) = place - offset := by omega
      rw [List.drop_drop, hsum] at h
      exact ⟨expected', outer', h⟩

/-- A group that opens inside another one closes inside it. -/
theorem Closes.group_lt {expected inner c : Char} {outer rest : List Char} {offset close stop : Nat}
    (h : Closes expected outer offset (c :: rest) stop) (hopener : closer? c = some inner)
    (hclose : Closes inner [] (offset + 1) rest close) : close < stop := by
  have hbracket : isBracket c = true := by rw [isBracket, hopener, Option.isSome_some, Bool.true_or]
  have hscan := scan_bracket hbracket rest
  cases h with
  | lexeme hscan' hother _ =>
      cases hscan.symm.trans hscan'
      cases hbracket.symm.trans (hother rfl)
  | opener hscan' _ hopener' h =>
      cases hopener.symm.trans hopener'
      obtain ⟨close', hclose', houter⟩ := h.split []
      cases hclose.unique hclose'
      exact houter.bounds.1
  | closer _ _ hcloser _ => cases (isCloser_not_opener hcloser).symm.trans hopener
  | outermost _ _ hcloser => cases (isCloser_not_opener hcloser).symm.trans hopener

theorem findArguments_found {text s : List Char} {offset stop : Nat} {opening : Cursor}
    (hat : Cursor.At text ⟨offset, s⟩) (h : findArguments stop offset s = .ok (some opening)) :
    Cursor.At text opening ∧ offset ≤ opening.offset ∧ opening.offset < stop ∧
      ∃ rest, opening.rest = '(' :: rest := by
  fun_induction findArguments stop offset s with
  | case1 => cases h
  | case2 offset rest hlt =>
      cases h
      exact ⟨hat, Nat.le_refl _, hlt, rest, rfl⟩
  | case3 offset rest hlt _ ih =>
      obtain ⟨close, hclose, hfound⟩ := bind_eq_ok.1 h
      have hbounds := (closing_eq_iff.1 hclose).bounds.1
      have hnext := hat.cons.2.2.drop (close - offset)
      have hplace : offset + 1 + (close - offset) = close + 1 := by
        simp only at hbounds
        omega
      rw [hplace] at hnext
      obtain ⟨hopening, hle, hstop⟩ := ih close hnext hfound
      exact ⟨hopening, by omega, hstop⟩
  | case4 offset c rest hlt _ _ ih =>
      obtain ⟨hopening, hle, hstop⟩ := ih hat.cons.2.2 h
      exact ⟨hopening, by omega, hstop⟩
  | case5 => cases h

theorem argumentsFound_of_none {text : List Char} {owner : Attribute Span}
    (h : argumentsAt? text owner.location = .ok none) (hnamed : owner.named = [])
    (hbounds : owner.location.start + 1 ≤ owner.location.stop - 1) :
    ArgumentsFound text owner := by
  have hlist : ListInside text owner := by
    intro opening close harguments
    cases h.symm.trans harguments.1
  refine ⟨⟨owner.location.stop - 1, ?_⟩, fun _ => ⟨?_, hlist⟩, fun _ => hlist, ?_⟩
  · rw [hnamed]
    exact hbounds
  · rw [hnamed]
    exact hbounds
  · rw [hnamed]
    exact fun argument hargument => absurd hargument List.not_mem_nil

theorem argumentsFound_of_list {text : List Char} {owner : Attribute Span} {opening close : Nat}
    (h : ArgumentList text owner opening close)
    (hordered : Ordered (opening + 1) close (owner.named.map (·.location)))
    (hfirst : owner.location.start ≤ opening) (hclose : close ≤ text.length)
    (hcode : OpensInCode text owner → close + 1 < owner.location.stop) :
    ArgumentsFound text owner := by
  have hfrom := hordered.mono (Nat.succ_le_succ hfirst)
  have hlist : close + 1 < owner.location.stop → ListInside text owner := by
    intro hlt opening' close' h'
    cases h.1.symm.trans h'.1
    cases h.2.symm.trans h'.2
    exact hlt
  refine ⟨⟨close, hfrom⟩, fun hinside => ⟨?_, hinside⟩, fun hopens => hlist (hcode hopens), ?_⟩
  · have hlt := hinside opening close h
    exact hfrom.widen (by omega)
  · intro argument hargument
    exact (hordered.bounds _ (List.mem_map_of_mem hargument)).2.trans hclose

theorem readAttribute_found {text rest : List Char} {offset close : Nat} {owner : Attribute Span}
    (hat : Cursor.At text ⟨offset, '[' :: rest⟩) (hclose : Closes ']' [] (offset + 1) rest close)
    (h : readAttribute ⟨offset, '[' :: rest⟩ close = .ok owner) :
    owner.location = ⟨offset, close + 1⟩ ∧ AttributeNests text (ArgumentsFound text) owner := by
  obtain ⟨hchar, _, hinside⟩ := hat.cons
  have hbounds := hclose.bounds.1
  have hfind : findClosing text offset = .ok close := (findClosing_eq_iff hat rfl).2 hclose
  have hrest : text.drop (offset + 1) = rest := hinside.symm
  unfold readAttribute at h
  obtain ⟨name, hname, h⟩ := bind_eq_ok.1 h
  obtain ⟨hskip, _⟩ := hclose.walk.skipTrivia hname
  obtain ⟨found, hfound, h⟩ := bind_eq_ok.1 h
  have hlist : argumentsAt? text ⟨offset, close + 1⟩ = .ok (found.map (·.offset)) := by
    have hskipped : skipTrivia ⟨offset + 1, text.drop (offset + 1)⟩ close = .ok name := by
      rw [hrest]
      exact hname
    simp only [argumentsAt?, Nat.add_sub_cancel, hskipped, bind, Except.bind, hfound]
    rfl
  cases found with
  | none =>
      cases h
      exact ⟨rfl, hchar, hfind, argumentsFound_of_none hlist rfl hbounds⟩
  | some opening =>
      obtain ⟨hopening, hle, hlt, behind, hbehind⟩ :=
        findArguments_found (hinside.walk hskip) hfound
      obtain ⟨place, rest'⟩ := opening
      cases hbehind
      obtain ⟨stop, hstop, h⟩ := bind_eq_ok.1 h
      obtain ⟨tail, _, h⟩ := bind_eq_ok.1 h
      split at h
      · cases h
      obtain ⟨parts, hparts, h⟩ := bind_eq_ok.1 h
      obtain ⟨arguments, harguments, h⟩ := bind_eq_ok.1 h
      cases h
      have hstopWalk : Closes ')' [] (place + 1) behind stop := closing_eq_iff.1 hstop
      have hordered : Ordered (place + 1) stop (namedSpans arguments) :=
        ordered_of_readArguments (parts_of_splitTopLevel hstopWalk.walk hparts) harguments
      have hfindList : findClosing text place = .ok stop :=
        (findClosing_eq_iff hopening rfl).2 hstopWalk
      have hplace : offset ≤ place := by
        have hname := hskip.le
        simp only at hle
        omega
      have hend : stop ≤ text.length := by
        have hinsideLength := hopening.cons.2.2.length (Nat.succ_le_of_lt hopening.cons.2.1)
        have hstopBounds := hstopWalk.bounds.2
        omega
      refine ⟨rfl, hchar, hfind, argumentsFound_of_list ⟨hlist, hfindList⟩ hordered hplace hend ?_⟩
      intro hcode
      have hreaches := hcode place hlist
      rw [hrest] at hreaches
      obtain ⟨expected, outer, hbehind⟩ := hreaches.closes hclose hlt
      have hdrop : rest.drop (place - (offset + 1)) = '(' :: behind := by
        have hwhole : '(' :: behind = text.drop place := hopening
        have hsum : offset + 1 + (place - (offset + 1)) = place := by
          have hle : offset + 1 ≤ place := hreaches.le
          omega
        rw [hwhole, ← hrest, List.drop_drop, hsum]
      rw [hdrop] at hbehind
      exact Nat.succ_lt_succ (hbehind.group_lt rfl hstopWalk)

theorem readAttributes_found {text : List Char} {stop : Nat} {cursor behind : Cursor}
    {owners : List (Attribute Span)} {s : List Char} (hat : Cursor.At text cursor)
    (hwalk : Walk anyCode cursor.offset cursor.rest stop s)
    (h : readAttributes stop cursor = .ok (owners, behind)) :
    Walk anyCode behind.offset behind.rest stop s ∧
      Ordered cursor.offset behind.offset (owners.map (·.location)) ∧
      ∀ owner ∈ owners, AttributeNests text (ArgumentsFound text) owner := by
  fun_induction readAttributes stop cursor generalizing owners with
  | case1 cursor rest hrest hlt ih =>
      obtain ⟨offset, s'⟩ := cursor
      cases hrest
      obtain ⟨close, hclose, h⟩ := bind_eq_ok.1 h
      obtain ⟨first, hfirst, h⟩ := bind_eq_ok.1 h
      have hgroup := closing_eq_iff.1 hclose
      have hbounds : offset + 1 ≤ close := hgroup.bounds.1
      have hbehind := hwalk.behindGroup (by decide) rfl hgroup hlt
      have hplace : Cursor.advance ⟨offset, '[' :: rest⟩ (1 + (close - offset)) =
          ⟨close + 1, rest.drop (close - offset)⟩ := by
        have hoffset : offset + (1 + (close - offset)) = close + 1 := by omega
        rw [Cursor.advance, hoffset, Nat.add_comm 1, List.drop_succ_cons]
      obtain ⟨hlocation, hnests⟩ := readAttribute_found hat hgroup hfirst
      split at h
      · cases h
      · next next hnext =>
        obtain ⟨⟨more, behind'⟩, hmore, h⟩ := bind_eq_ok.1 h
        cases h
        have hat' := hat.drop (1 + (close - offset))
        have hskipped := hnext
        rw [hplace] at hskipped
        obtain ⟨hskip, hnextWalk⟩ := hbehind.skipTrivia hskipped
        have hatNext : Cursor.At text next := by
          have hoffset : offset + (1 + (close - offset)) = close + 1 := by omega
          rw [hoffset, Nat.add_comm 1, List.drop_succ_cons] at hat'
          exact hat'.walk hskip
        obtain ⟨hrestWalk, hordered, howners⟩ := ih close next hnext hatNext hnextWalk hmore
        refine ⟨hrestWalk, ?_, ?_⟩
        · rw [List.map_cons, hlocation]
          exact ⟨Nat.le_refl _, by simp only; omega, hordered.mono hskip.le⟩
        · intro owner howner
          rcases List.mem_cons.1 howner with rfl | howner
          · exact hnests
          · exact howners owner howner
  | case2 cursor rest hrest hlt =>
      cases h
      exact ⟨hwalk, Nat.le_refl _, fun owner howner => absurd howner List.not_mem_nil⟩
  | case3 =>
      cases h
      exact ⟨hwalk, Nat.le_refl _, fun owner howner => absurd howner List.not_mem_nil⟩

/-! ## Parameters -/

theorem variableName?_length {s : List Char} {name : String} {length : Nat}
    (h : variableName? s = some (name, length)) : 0 < length ∧ length ≤ s.length := by
  unfold variableName? at h
  split at h
  · next rest =>
    dsimp only at h
    split at h
    · next hlt =>
      cases h
      simp only [List.length_cons]
      omega
    · cases h
  · next rest _ =>
    dsimp only at h
    split at h
    · cases h
    · cases h
      have hle := (List.takeWhile_sublist isVariablePart (l := rest)).length_le
      simp only [List.length_cons]
      omega
  · cases h

theorem readDefault_bounds {name : String} {behind : Cursor} {stop last : Nat}
    {default : Option String} (h : readDefault name behind stop = .ok (default, last))
    (hle : behind.offset ≤ stop) : behind.offset ≤ last ∧ last ≤ stop := by
  unfold readDefault at h
  obtain ⟨rest, hrest, h⟩ := bind_eq_ok.1 h
  have hskip := skipTrivia_bounds hrest
  split at h
  · split at h
    · obtain ⟨value, hvalue, h⟩ := bind_eq_ok.1 h
      obtain ⟨found, hfound, h⟩ := bind_eq_ok.1 h
      have hvalueSkip := skipTrivia_bounds hvalue
      have hstop := codeEnd_le hfound hvalueSkip.2
      split at h
      · cases h
      · obtain ⟨text, _, h⟩ := bind_eq_ok.1 h
        cases h
        simp only [Cursor.advance] at hvalueSkip
        omega
    · cases h
    · cases h
      exact ⟨Nat.le_refl _, hle⟩
  · cases h
    exact ⟨Nat.le_refl _, hle⟩

theorem readParameter_found {text : List Char} {start : Cursor} {stop : Nat} {s : List Char}
    {parameter : Parameter Span} (hat : Cursor.At text start)
    (hwalk : Walk anyCode start.offset start.rest stop s)
    (h : readParameter start stop = .ok parameter) :
    parameter.location.start = start.offset ∧
      parameter.location.start < parameter.location.stop ∧ parameter.location.stop ≤ stop ∧
      ParameterNests text (ArgumentsFound text) parameter := by
  unfold readParameter at h
  obtain ⟨⟨owners, place⟩, hattributes, h⟩ := bind_eq_ok.1 h
  obtain ⟨hbehind, hordered, howners⟩ := readAttributes_found hat hwalk hattributes
  dsimp only at h
  split at h
  · cases h
  · next name length hname =>
    obtain ⟨⟨default, last⟩, hdefault, h⟩ := bind_eq_ok.1 h
    cases h
    obtain ⟨hpos, hlength⟩ := variableName?_length hname
    have hplace := hbehind.le
    have hfirst := hordered.le
    have htake : length ≤ stop - place.offset := by
      rw [Cursor.textTo, List.length_take] at hlength
      omega
    have hbounds := readDefault_bounds hdefault (by simp only [Cursor.advance]; omega)
    simp only [Cursor.advance] at hbounds
    exact ⟨rfl, by simp only; omega, hbounds.2, hordered.widen (by simp only; omega), howners⟩

theorem readParameters_cons {text s : List Char} {part : Part} {parts : List Part} {found : Bool}
    {parameters : List (Parameter Span)} (hat : Cursor.At text part.start)
    (hwalk : Walk anyCode part.start.offset part.start.rest part.stop s)
    (h : readParameters found (part :: parts) = .ok parameters) :
    ∃ first more found', parameters = first ++ more ∧ readParameters found' parts = .ok more ∧
      Ordered part.start.offset part.stop (first.map (·.location)) ∧
      ∀ parameter ∈ first, ParameterNests text (ArgumentsFound text) parameter := by
  rw [readParameters] at h
  obtain ⟨start, hstart, h⟩ := bind_eq_ok.1 h
  obtain ⟨hskip, hrest⟩ := hwalk.skipTrivia hstart
  split at h
  · obtain ⟨parameter, hparameter, h⟩ := bind_eq_ok.1 h
    obtain ⟨more, hmore, h⟩ := bind_eq_ok.1 h
    cases h
    obtain ⟨hfirst, hlt, hlast, hnests⟩ := readParameter_found (hat.walk hskip) hrest hparameter
    refine ⟨[parameter], more, true, rfl, hmore, ⟨?_, hlt, hlast⟩, ?_⟩
    · rw [hfirst]
      exact hskip.le
    · intro other hother
      cases List.mem_singleton.1 hother
      exact hnests
  · split at h
    · cases h
    · exact ⟨[], parameters, found, rfl, h, hwalk.le, fun _ hnone => absurd hnone List.not_mem_nil⟩

theorem readParameters_found {text : List Char} {stop : Nat} {start : Cursor} {parts : List Part}
    {found : Bool} {parameters : List (Parameter Span)} (hat : Cursor.At text start)
    (hparts : Parts stop start parts) (h : readParameters found parts = .ok parameters) :
    Ordered start.offset stop (parameters.map (·.location)) ∧
      ∀ parameter ∈ parameters, ParameterNests text (ArgumentsFound text) parameter := by
  induction hparts generalizing found parameters with
  | last hwalk =>
      obtain ⟨first, more, found', rfl, hmore, hordered, hnests⟩ := readParameters_cons hat hwalk h
      cases hmore
      rw [List.append_nil]
      exact ⟨hordered, hnests⟩
  | more hwalk hlt _ ih =>
      obtain ⟨first, more, found', rfl, hmore, hordered, hnests⟩ := readParameters_cons hat hwalk h
      obtain ⟨horderedMore, hnestsMore⟩ := ih (hat.walk hwalk).cons.2.2 hmore
      refine ⟨?_, ?_⟩
      · rw [List.map_append]
        exact hordered.append (Nat.le_succ _) horderedMore
      · intro parameter hparameter
        rcases List.mem_append.1 hparameter with hfirst | hbehind
        · exact hnests parameter hfirst
        · exact hnestsMore parameter hbehind

/-! ## Blocks -/

theorem readBlock_found {text inside : List Char} {keyword opening close : Nat}
    {block : ParameterBlock Span} (hat : Cursor.At text ⟨opening, '(' :: inside⟩)
    (hkeyword : keyword < opening) (hclose : Closes ')' [] (opening + 1) inside close)
    (h : readBlock keyword ⟨opening + 1, inside⟩ close = .ok block) :
    block.location = ⟨keyword, close + 1⟩ ∧ BlockNests text (ArgumentsFound text) block := by
  unfold readBlock at h
  obtain ⟨parts, hparts, h⟩ := bind_eq_ok.1 h
  obtain ⟨parameters, hparameters, h⟩ := bind_eq_ok.1 h
  cases h
  obtain ⟨hchar, _, hinside⟩ := hat.cons
  obtain ⟨hordered, hnests⟩ := readParameters_found hinside
    (parts_of_splitTopLevel hclose.walk hparts) hparameters
  exact ⟨rfl, opening, hkeyword, hchar, (findClosing_eq_iff hat rfl).2 hclose, hordered, hnests⟩

/-- Up to the end of the text no skipped place is clipped. -/
theorem Cursor.At.skipTrivia {text s : List Char} {offset stop : Nat} {cursor : Cursor}
    (hat : Cursor.At text ⟨offset, s⟩) (hstop : offset + s.length ≤ stop)
    (h : skipTriviaFrom stop offset s = .ok cursor) : Cursor.At text cursor := by
  fun_induction skipTriviaFrom stop offset s with
  | case1 offset =>
      cases h
      rw [List.length_nil, Nat.add_zero] at hstop
      rw [Cursor.clip, Nat.min_eq_left hstop]
      exact hat
  | case2 offset c rest hlt hblank ih =>
      rw [List.length_cons] at hstop
      exact ih hat.cons.2.2 (by omega) h
  | case3 offset c rest hlt hblank hcomment ih =>
      obtain ⟨lexeme, _, hskipped⟩ := bind_eq_ok.1 h
      have hlexeme := lexeme.length_le
      refine ih lexeme (hat.drop _) ?_ hskipped
      rw [List.length_drop]
      omega
  | case4 offset c rest hlt hblank hcomment hcontinues ih =>
      have hnext := hat.cons.2.2.drop 1
      refine ih hnext ?_ h
      obtain ⟨lexeme, _, _, hlength⟩ :=
        exists_scan_of_continuesLine (Bool.and_eq_true_iff.1 hcontinues).1
      have hlexeme := lexeme.length_le
      rw [hlength, List.length_cons] at hlexeme
      rw [List.length_cons] at hstop
      rw [List.length_drop]
      omega
  | case5 offset c rest hlt =>
      cases h
      exact hat
  | case6 offset c rest hlt =>
      rw [List.length_cons] at hstop
      omega

theorem blocksFrom_found {text s : List Char} {previous : Option Char} {offset : Nat}
    {blocks : List (ParameterBlock Span)} (hat : Cursor.At text ⟨offset, s⟩)
    (hle : offset ≤ text.length) (h : blocksFrom previous offset s = .ok blocks) :
    Ordered offset text.length (blocks.map (·.location)) ∧
      ∀ block ∈ blocks, BlockNests text (ArgumentsFound text) block := by
  fun_induction blocksFrom previous offset s generalizing blocks with
  | case1 =>
      cases h
      exact ⟨hle, fun block hblock => absurd hblock List.not_mem_nil⟩
  | case2 previous offset c rest ihBlock ihName ihWord ihPlain ihLexeme =>
      obtain ⟨_, hlt, hrest⟩ := hat.cons
      have hlength := hat.length hle
      rw [List.length_cons] at hlength
      obtain ⟨lexeme, _, h⟩ := bind_eq_ok.1 h
      -- a place farther on finds blocks that are ordered from here on, too
      have hfarther : ∀ {place : Nat}, offset ≤ place →
          Ordered place text.length (blocks.map (·.location)) ∧
            (∀ block ∈ blocks, BlockNests text (ArgumentsFound text) block) →
          Ordered offset text.length (blocks.map (·.location)) ∧
            ∀ block ∈ blocks, BlockNests text (ArgumentsFound text) block :=
        fun hplace hfound => ⟨hfound.1.mono hplace, hfound.2⟩
      have hword := (List.takeWhile_sublist isNamePart (l := rest)).length_le
      have hbehind := hrest.drop ((rest.takeWhile isNamePart).length)
      rw [Nat.add_assoc, Nat.add_comm 1] at hbehind
      dsimp only at h
      split at h
      · split at h
        · split at h
          · split at h
            · cases h
            · next next hnext =>
              have hbounds := skipTrivia_bounds hnext
              have hatNext := hbehind.skipTrivia
                (by rw [List.length_drop]; omega) hnext
              simp only [List.length_cons] at hbounds
              split at h
              · next inside hinside =>
                obtain ⟨place, s'⟩ := next
                cases hinside
                obtain ⟨close, hclose, h⟩ := bind_eq_ok.1 h
                obtain ⟨block, hblock, h⟩ := bind_eq_ok.1 h
                obtain ⟨more, hmore, h⟩ := bind_eq_ok.1 h
                cases h
                have hgroup : Closes ')' [] (place + 1) inside close := closing_eq_iff.1 hclose
                have hclosing := hgroup.bounds
                have hkeyword : offset < place := by
                  simp only at hbounds
                  omega
                obtain ⟨_, hplace, hatInside⟩ := hatNext.cons
                have hinsideLength := hatInside.length hplace
                have hatBehind := hatInside.drop (close - place)
                have hoffset : place + 1 + (close - place) = close + 1 := by omega
                rw [hoffset] at hatBehind
                obtain ⟨hlocation, hnests⟩ := readBlock_found hatNext hkeyword hgroup hblock
                obtain ⟨hordered, hblocks⟩ :=
                  ihBlock lexeme _ hnext inside rfl close hatBehind (by omega) hmore
                refine ⟨?_, ?_⟩
                · rw [List.map_cons, hlocation]
                  exact ⟨Nat.le_refl _, by simp only; omega, hordered⟩
                · intro other hother
                  rcases List.mem_cons.1 hother with rfl | hother
                  · exact hnests
                  · exact hblocks other hother
              · exact hfarther (by simp only; omega)
                  (ihName lexeme [] hbehind (by simp only [List.length_cons]; omega) h)
          · exact hfarther (by simp only; omega)
              (ihWord lexeme hbehind (by simp only [List.length_cons]; omega) h)
        · exact hfarther (Nat.le_succ _) (ihPlain lexeme hrest (by omega) h)
      · have hlexeme := lexeme.length_le
        rw [List.length_cons] at hlexeme
        exact hfarther (Nat.le_add_right _ _) (ihLexeme lexeme (hat.drop _) (by omega) h)

theorem mem_attributesOf {blocks : List (ParameterBlock Span)} {owner : Attribute Span} :
    owner ∈ attributesOf blocks ↔
      ∃ block ∈ blocks, ∃ parameter ∈ block.parameters, owner ∈ parameter.attributes := by
  simp [attributesOf]

theorem Nests.imp {text : List Char} {arguments arguments' : Attribute Span → Prop}
    {blocks : List (ParameterBlock Span)}
    (himp : ∀ owner ∈ attributesOf blocks, arguments owner → arguments' owner)
    (h : Nests text arguments blocks) : Nests text arguments' blocks := by
  obtain ⟨hordered, hblocks⟩ := h
  refine ⟨hordered, fun block hblock => ?_⟩
  obtain ⟨opening, hopening, hchar, hfind, hparameters, hnests⟩ := hblocks block hblock
  refine ⟨opening, hopening, hchar, hfind, hparameters, fun parameter hparameter => ?_⟩
  obtain ⟨hattributes, howners⟩ := hnests parameter hparameter
  refine ⟨hattributes, fun owner howner => ?_⟩
  obtain ⟨hbracket, hclose, harguments⟩ := howners owner howner
  have hmem := mem_attributesOf.2 ⟨block, hblock, parameter, hparameter, howner⟩
  exact ⟨hbracket, hclose, himp owner hmem harguments⟩

theorem Nests.arguments {text : List Char} {arguments : Attribute Span → Prop}
    {blocks : List (ParameterBlock Span)} (h : Nests text arguments blocks) :
    ∀ owner ∈ attributesOf blocks, arguments owner := by
  intro owner howner
  obtain ⟨block, hblock, parameter, hparameter, howner⟩ := mem_attributesOf.1 howner
  obtain ⟨opening, _, _, _, _, hnests⟩ := h.2 block hblock
  exact ((hnests parameter hparameter).2 owner howner).2.2

/-- Blocks, parameters, attributes and named arguments come in order, and all but the arguments lie
within their parents.  So do the arguments exactly if every argument list closes before its
attribute does, which is so wherever the list opens in code. -/
theorem declarations_nest {text : List Char} {blocks : List (ParameterBlock Span)}
    (h : parameterBlocks text = .ok blocks) :
    Nests text ArgumentsOrdered blocks ∧
      (Nests text (ArgumentsInside text) blocks ↔
        ∀ owner ∈ attributesOf blocks, ListInside text owner) ∧
      ∀ owner ∈ attributesOf blocks, OpensInCode text owner → ListInside text owner := by
  have hfound : Nests text (ArgumentsFound text) blocks :=
    @blocksFrom_found text text none 0 blocks rfl (Nat.zero_le _) h
  refine ⟨hfound.imp fun _ _ harguments => harguments.ordered, ⟨?_, ?_⟩, ?_⟩
  · intro hnests owner howner
    exact (hnests.arguments owner howner).2
  · intro hinside
    exact hfound.imp fun owner howner harguments => harguments.inside (hinside owner howner)
  · intro owner howner
    exact (hfound.arguments owner howner).code

theorem declarations_nest_quoted_bracket :
    Nests "param([A(B = 1, '(')]$x, [int]$y)".toList
      (ArgumentsInside "param([A(B = 1, '(')]$x, [int]$y)".toList)
      [⟨[⟨"x", [⟨"A", [⟨"B", "1", false, ⟨9, 14⟩⟩], ["'('"], false, ⟨6, 21⟩⟩], none, ⟨6, 23⟩⟩,
        ⟨"y", [⟨"int", [], [], true, ⟨25, 30⟩⟩], none, ⟨25, 32⟩⟩], ⟨0, 33⟩⟩] := by
  refine (declarations_nest (by with_unfolding_all rfl)).2.1.2 ?_
  intro owner howner opening close hlist
  simp only [attributesOf, List.flatMap_cons, List.flatMap_nil, List.append_nil, List.cons_append,
    List.nil_append, List.mem_cons, List.not_mem_nil, or_false] at howner
  rcases howner with rfl | rfl
  · have hopening : argumentsAt? "param([A(B = 1, '(')]$x, [int]$y)".toList ⟨6, 21⟩ =
        .ok (some 8) := by
      with_unfolding_all rfl
    have hclose : findClosing "param([A(B = 1, '(')]$x, [int]$y)".toList 8 = .ok 19 := by
      with_unfolding_all rfl
    cases hopening.symm.trans hlist.1
    cases hclose.symm.trans hlist.2
    decide
  · have hnone : argumentsAt? "param([A(B = 1, '(')]$x, [int]$y)".toList ⟨25, 30⟩ = .ok none := by
      with_unfolding_all rfl
    cases hnone.symm.trans hlist.1

/-- The list that opens within a string takes its argument from the default of the parameter. -/
theorem argument_behind_attribute :
    ∃ blocks, parameterBlocks "param([A'(']$x = ',B=1)')".toList = .ok blocks ∧
      ¬ Nests "param([A'(']$x = ',B=1)')".toList
        (ArgumentsInside "param([A'(']$x = ',B=1)')".toList) blocks ∧
      ∃ owner ∈ attributesOf blocks, ∃ argument ∈ owner.named,
        owner.location.stop < argument.location.start := by
  refine ⟨[⟨[⟨"x", [⟨"A'", [⟨"B", "1", false, ⟨19, 22⟩⟩], ["']$x = '"], false, ⟨6, 12⟩⟩],
    some "',B=1)'", ⟨6, 24⟩⟩], ⟨0, 25⟩⟩], by with_unfolding_all rfl, ?_, ?_⟩
  · intro hnests
    have hinside := (hnests.arguments _ List.mem_cons_self).1.bounds _ List.mem_cons_self
    exact absurd hinside.2 (by decide)
  · exact ⟨_, List.mem_cons_self, _, List.mem_cons_self, by decide⟩

end DscAudit.PowerShell

import DscAudit.Proofs.PowerShell.Layout
import DscAudit.Proofs.Text.Character

/-!
# Written parameter blocks

A parameter block as it is written: the declarations, and the gaps of blanks and comments between
them.  Each written form has its pieces, and it has its meaning at the offset where it stands.
-/

namespace DscAudit.PowerShell

/-! ## Gaps and names -/

/-- Blanks and comments.  A line comment goes on up to the end of its line. -/
inductive IsGap : List Piece → Prop
  | nil : IsGap []
  | blank {piece : Piece} {pieces : List Piece} (hpiece : piece.isBlank = true)
      (h : IsGap pieces) : IsGap (piece :: pieces)
  | block {piece : Piece} {pieces : List Piece} (hpiece : piece.kind = .blockComment)
      (h : IsGap pieces) : IsGap (piece :: pieces)
  | line {piece lineEnd : Piece} {pieces : List Piece} (hpiece : piece.kind = .lineComment)
      (hend : lineEnd.text = ['\n']) (h : IsGap pieces) : IsGap (piece :: lineEnd :: pieces)

structure Gap where
  pieces : List Piece
  isGap : IsGap pieces

structure Blanks where
  text : List Char
  isBlank : ∀ c ∈ text, Text.isBlank c = true

structure Identifier where
  text : List Char
  isIdentifier : isIdentifier text = true

structure Variable where
  text : List Char
  ne_nil : text ≠ []
  isWordChar : ∀ c ∈ text, Text.isWordChar c = true

/-- Words with dots between them and groups in square brackets. -/
inductive IsName : List Piece → Prop
  | nil : IsName []
  | char {c : Char} {hc : c ∉ ['#', '\x60', '\x27', '"']} {pieces : List Piece}
      (hchar : Text.isWordChar c = true ∨ c = '.') (h : IsName pieces) :
      IsName (Piece.char c hc :: pieces)
  | group {ho : '[' ∉ ['#', '\x60', '\x27', '"']} {hc : ']' ∉ ['#', '\x60', '\x27', '"']}
      {inside pieces : List Piece} (hinside : Balanced true inside) (h : IsName pieces) :
      IsName (Piece.char '[' ho :: (inside ++ Piece.char ']' hc :: pieces))

/-- The name of an attribute or a type. -/
structure Name where
  pieces : List Piece
  ne_nil : pieces ≠ []
  isName : IsName pieces
  fits : Fits pieces []

/-- Code that can stand for a value: its strings end, its brackets are balanced, no comma stands
outside them, and neither blanks nor an escape come first and no blank comes last. -/
structure Value where
  pieces : List Piece
  fits : Fits pieces []
  balanced : Balanced false pieces
  noComment : ∀ piece ∈ pieces, piece.kind.isComment = false
  first : ∃ c, (textOf pieces).head? = some c ∧ Text.isBlank c = false ∧ c ≠ '\x60'
  last : ∃ c, (textOf pieces).getLast? = some c ∧ Text.isBlank c = false

def Gap.text (gap : Gap) : List Char := textOf gap.pieces

def Name.text (name : Name) : List Char := textOf name.pieces

def Value.text (value : Value) : List Char := textOf value.pieces

/-! ## Characters that stand for themselves -/

/-- Characters that are pieces by themselves and end anywhere. -/
def IsOrdinary (c : Char) : Prop := c ∉ ['<', '#', '\x60', '@', '\x27', '"']

instance (c : Char) : Decidable (IsOrdinary c) :=
  inferInstanceAs (Decidable (c ∉ ['<', '#', '\x60', '@', '\x27', '"']))

theorem IsOrdinary.plain {c : Char} (h : IsOrdinary c) : c ∉ ['#', '\x60', '\x27', '"'] := by
  simp only [IsOrdinary, List.mem_cons, List.not_mem_nil, or_false, not_or] at h ⊢
  exact ⟨h.2.1, h.2.2.1, h.2.2.2.2⟩

theorem ordinary_of_isWordChar {c : Char} (h : Text.isWordChar c = true) :
    IsOrdinary c ∧ isBracket c = false ∧ c ≠ ',' := by
  refine ⟨Text.not_mem_of_any (by decide) h,
    isBracket_of_not_mem (Text.not_mem_of_any (by decide) h), ?_⟩
  rintro rfl
  revert h
  decide

theorem isWordChar_of_isIdentifierPart {c : Char} (h : isIdentifierPart c = true) :
    Text.isWordChar c = true := by
  have hlt : c.toNat < 128 := by
    have hzero : ('0' : Char).toNat = 48 ∧ ('9' : Char).toNat = 57 := ⟨rfl, rfl⟩
    have hupper : ('A' : Char).toNat = 65 ∧ ('Z' : Char).toNat = 90 := ⟨rfl, rfl⟩
    have hlower : ('a' : Char).toNat = 97 ∧ ('z' : Char).toNat = 122 := ⟨rfl, rfl⟩
    simp only [isIdentifierPart, Char.isAlphanum, Char.isAlpha, Char.isUpper, Char.isLower,
      Char.isDigit, Bool.or_eq_true, Bool.and_eq_true, decide_eq_true_eq, ge_iff_le,
      UInt32.le_iff_toNat_le, Char.toNat_val, beq_iff_eq] at h
    rcases h with h | rfl
    · omega
    · decide
  rw [isIdentifierPart] at h
  rw [Text.isWordChar, if_pos hlt, h]

theorem Identifier.isWordChar (name : Identifier) : ∀ c ∈ name.text, Text.isWordChar c = true := by
  obtain ⟨text, htext⟩ := name
  intro c hc
  apply isWordChar_of_isIdentifierPart
  cases text with
  | nil => cases hc
  | cons d text =>
      rw [PowerShell.isIdentifier, Bool.and_eq_true, List.all_eq_true] at htext
      rcases List.mem_cons.1 hc with rfl | hc
      · have hstart := htext.1
        rw [isIdentifierStart, Bool.or_eq_true] at hstart
        rw [isIdentifierPart, Char.isAlphanum, Bool.or_eq_true, Bool.or_eq_true]
        rcases hstart with hstart | hstart
        · exact .inl (.inl hstart)
        · exact .inr hstart
      · exact htext.2 c hc

namespace Piece

def ordinary (c : Char) (hc : IsOrdinary c) : Piece := char c hc.plain

def equals : Piece := char '=' (by decide)

def comma : Piece := char ',' (by decide)

def dollar : Piece := char '$' (by decide)

def openRound : Piece := char '(' (by decide)

def closeRound : Piece := char ')' (by decide)

def openSquare : Piece := char '[' (by decide)

def closeSquare : Piece := char ']' (by decide)

end Piece

def wordPieces (s : List Char) (hs : ∀ c ∈ s, Text.isWordChar c = true) : List Piece :=
  Piece.chars s fun c hc => (ordinary_of_isWordChar (hs c hc)).1.plain

def Identifier.pieces (name : Identifier) : List Piece := wordPieces name.text name.isWordChar

def Variable.pieces (name : Variable) : List Piece := wordPieces name.text name.isWordChar

def Blanks.pieces (blanks : Blanks) : List Piece :=
  Piece.chars blanks.text fun c hc => IsOrdinary.plain (plain_of_isBlank (blanks.isBlank c hc)).1

/-! ## Lists -/

section Lists

variable {α β : Type}

structure Spaced (α : Type) where
  before : Gap
  item : α
  behind : Gap

/-- What stands between two round brackets: items with commas between them, or a gap. -/
inductive Listed (α : Type) where
  | empty (gap : Gap)
  | items (first : Spaced α) (more : List (Spaced α))

def Spaced.pieces (f : α → List Piece) (entry : Spaced α) : List Piece :=
  entry.before.pieces ++ (f entry.item ++ entry.behind.pieces)

def Listed.pieces (f : α → List Piece) : Listed α → List Piece
  | empty gap => gap.pieces
  | items first more =>
    first.pieces f ++ more.flatMap fun entry => Piece.comma :: entry.pieces f

def Listed.entries : Listed α → List (Spaced α)
  | empty _ => []
  | items first more => first :: more

/-- What the items mean at the offsets where they stand. -/
def meanings (f : α → List Piece) (meaning : Nat → α → β) : Nat → List (Spaced α) → List β
  | _, [] => []
  | offset, entry :: more =>
    meaning (offset + entry.before.text.length) entry.item ::
      meanings f meaning (offset + (textOf (entry.pieces f)).length + 1) more

end Lists

/-! ## Declarations -/

/-- An argument: a name alone, a name and a value, or a value that looks like neither. -/
inductive WrittenArgument where
  | bare (name : Identifier)
  | pair (name : Identifier) (before behind : Gap) (value : Value)
      (hvalue : value.text.head? ≠ some '=')
  | positional (value : Value) (hname : isIdentifier value.text = false)
      (hpair : ∀ name blanks rest, isIdentifier name = true →
        (∀ c ∈ blanks, Text.isBlank c = true) → value.text = name ++ (blanks ++ '=' :: rest) →
        rest.head? = some '=')

namespace WrittenArgument

def pieces : WrittenArgument → List Piece
  | bare name => name.pieces
  | pair name before behind value _ =>
    name.pieces ++ (before.pieces ++ Piece.equals :: (behind.pieces ++ value.pieces))
  | positional value _ _ => value.pieces

def meaning (offset : Nat) (argument : WrittenArgument) : Argument :=
  let span : Span := ⟨offset, offset + (textOf argument.pieces).length⟩
  match argument with
  | bare name => .named ⟨String.ofList name.text, "", true, span⟩
  | pair name _ _ value _ =>
    .named ⟨String.ofList name.text, String.ofList value.text, false, span⟩
  | positional value _ _ => .positional (String.ofList value.text)

end WrittenArgument

/-- An attribute.  Only blanks stand behind its name. -/
inductive WrittenAttribute where
  | constraint (leading : Gap) (name : Name) (blanks : Blanks)
  | call (leading : Gap) (name : Name) (blanks : Blanks) (arguments : Listed WrittenArgument)
      (trailing : Gap)

namespace WrittenAttribute

/-- What stands between the square brackets. -/
def inside : WrittenAttribute → List Piece
  | constraint leading name blanks => leading.pieces ++ (name.pieces ++ blanks.pieces)
  | call leading name blanks arguments trailing =>
    leading.pieces ++ (name.pieces ++ (blanks.pieces ++
      Piece.openRound :: (arguments.pieces WrittenArgument.pieces ++
        Piece.closeRound :: trailing.pieces)))

def pieces (owner : WrittenAttribute) : List Piece :=
  Piece.openSquare :: (owner.inside ++ [Piece.closeSquare])

def meaning (offset : Nat) (owner : WrittenAttribute) : Attribute Span :=
  let span : Span := ⟨offset, offset + (textOf owner.pieces).length⟩
  match owner with
  | constraint _ name _ => ⟨String.ofList name.text, [], [], true, span⟩
  | call leading name blanks arguments _ =>
    let opening := offset + 1 + leading.text.length + name.text.length + blanks.text.length
    let found := meanings WrittenArgument.pieces WrittenArgument.meaning (opening + 1)
      arguments.entries
    ⟨String.ofList name.text, found.filterMap Argument.named?, found.filterMap Argument.positional?,
      false, span⟩

/-- Attributes one after the other, each with the gap behind it. -/
def listPieces (owners : List (WrittenAttribute × Gap)) : List Piece :=
  owners.flatMap fun owner => owner.1.pieces ++ owner.2.pieces

def listMeaning : Nat → List (WrittenAttribute × Gap) → List (Attribute Span)
  | _, [] => []
  | offset, owner :: owners =>
    owner.1.meaning offset ::
      listMeaning (offset + (textOf (owner.1.pieces ++ owner.2.pieces)).length) owners

end WrittenAttribute

structure WrittenDefault where
  before : Gap
  behind : Gap
  value : Value

def WrittenDefault.pieces (default : WrittenDefault) : List Piece :=
  default.before.pieces ++ Piece.equals :: (default.behind.pieces ++ default.value.pieces)

structure WrittenParameter where
  attributes : List (WrittenAttribute × Gap)
  name : Variable
  default : Option WrittenDefault

namespace WrittenParameter

def pieces (parameter : WrittenParameter) : List Piece :=
  WrittenAttribute.listPieces parameter.attributes ++
    Piece.dollar :: (parameter.name.pieces ++
      (parameter.default.map WrittenDefault.pieces).getD [])

def meaning (offset : Nat) (parameter : WrittenParameter) : Parameter Span :=
  ⟨String.ofList parameter.name.text,
    WrittenAttribute.listMeaning offset parameter.attributes,
    parameter.default.map fun default => String.ofList default.value.text,
    ⟨offset, offset + (textOf parameter.pieces).length⟩⟩

end WrittenParameter

/-- The word `param` in letters of either case. -/
structure Keyword where
  text : List Char
  isKeyword : text.map Char.toLower = "param".toList

structure WrittenBlock where
  leading : Gap
  keyword : Keyword
  gap : Gap
  parameters : Listed WrittenParameter
  trailing : Gap

namespace WrittenBlock

def text (block : WrittenBlock) : List Char :=
  block.leading.text ++ (block.keyword.text ++ (block.gap.text ++
    '(' :: (textOf (block.parameters.pieces WrittenParameter.pieces) ++
      ')' :: block.trailing.text)))

def meaning (block : WrittenBlock) : ParameterBlock Span :=
  let start := block.leading.text.length
  let opening := start + block.keyword.text.length + block.gap.text.length
  let inside := textOf (block.parameters.pieces WrittenParameter.pieces)
  ⟨meanings WrittenParameter.pieces WrittenParameter.meaning (opening + 1)
      block.parameters.entries, ⟨start, opening + 1 + inside.length + 1⟩⟩

end WrittenBlock

/-! ## What runs together -/

/-- Code that ends with a less-than sign, unless that is escaped, is not directly followed by a line
comment: the two would start a block comment. -/
def Apart (pieces : List Piece) (gap : Gap) : Prop :=
  ∀ piece ∈ pieces.getLast?, piece.kind = .plain → piece.text = ['<'] → gap.text.head? ≠ some '#'

def Listed.Apart {α : Type} (f : α → List Piece) (list : Listed α) : Prop :=
  ∀ entry ∈ list.entries, PowerShell.Apart (f entry.item) entry.behind

def WrittenAttribute.Apart : WrittenAttribute → Prop
  | constraint _ _ _ => True
  | call _ _ _ arguments _ => arguments.Apart WrittenArgument.pieces

/-- No value that ends with a less-than sign is directly followed by a line comment. -/
def WrittenBlock.Apart (block : WrittenBlock) : Prop :=
  block.parameters.Apart WrittenParameter.pieces ∧
    ∀ entry ∈ block.parameters.entries, ∀ owner ∈ entry.item.attributes, owner.1.Apart

end DscAudit.PowerShell

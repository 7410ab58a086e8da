import DscAudit.Proofs.PowerShell.LineEndBlock
import DscAudit.Proofs.PowerShell.TwinBlock
import DscAudit.Proofs.Rule.Finding
import DscAudit.Proofs.Rule.Order

/-!
# Findings in rewritten scripts

A comment means as much as a space: in place of the one the other is read, the same is declared, and the
same rules are broken.  It is so wherever names are read from code.  The reader copies the name of an
attribute with any comment in it, though, and then finds `[Parameter <# #> ()]` to be no `[Parameter()]`.

The same is found in a script whether its lines end with line feeds or with a carriage return and a line feed
each.  Names with line ends break the same rules in both texts, as no word that a rule asks for has any.
-/

/-! ## Comments -/

namespace DscAudit.PowerShell

/-- What a text declares, without the places, or nothing if it cannot be read. -/
def declared? (text : List Char) : Option (List (ParameterBlock Unit)) :=
  (parameterBlocks text).toOption.map (·.map ParameterBlock.meaning)

/-- No name that is read from the text is around the place or hides a lexeme. -/
def ReadsApart (text : List Char) (place : Nat) : Prop :=
  ∀ blocks, parameterBlocks text = .ok blocks → ∀ block ∈ blocks, NamesApart text place block

theorem Twin.Alike.parameterBlocks {s t : List Char} {place : Nat}
    (halike : Twin.Alike place ⟨Cursor.start s, Cursor.start t⟩) (hapart : ReadsApart s place)
    {blocks : List (ParameterBlock Span)} (hread : parameterBlocks s = .ok blocks) :
    ∃ blocks', parameterBlocks t = .ok blocks' ∧
      blocks.map ParameterBlock.meaning = blocks'.map ParameterBlock.meaning :=
  have hfollow : BlocksFollow s place ⟨Cursor.start s, Cursor.start t⟩ := halike.blocksFollow rfl
  hfollow none none blocks (.inl rfl) hread (hapart blocks hread)

/-- Two alike texts declare the same, or neither can be read. -/
theorem Twin.Alike.declared?_eq {s t : List Char} {place : Nat}
    (halike : Twin.Alike place ⟨Cursor.start s, Cursor.start t⟩) (hs : ReadsApart s place)
    (ht : ReadsApart t place) : declared? s = declared? t := by
  unfold declared?
  cases hread : PowerShell.parameterBlocks s with
  | ok blocks =>
    obtain ⟨blocks', hread', hsame⟩ := halike.parameterBlocks hs hread
    rw [hread']
    exact congrArg some hsame
  | error fault =>
    cases hread' : PowerShell.parameterBlocks t with
    | error fault' => rfl
    | ok blocks' =>
      obtain ⟨blocks, hblocks, -⟩ := halike.swap.parameterBlocks ht hread'
      cases hread.symm.trans hblocks

/-- Where names are read from code the declarations nest. -/
theorem ReadsApart.nests {text : List Char} {place : Nat} (h : ReadsApart text place)
    {blocks : List (ParameterBlock Span)} (hread : parameterBlocks text = .ok blocks) :
    Nests text (ArgumentsInside text) blocks := by
  have hfound : Nests text (ArgumentsFound text) blocks :=
    @blocksFrom_found text text none 0 blocks rfl (Nat.zero_le _) hread
  refine hfound.imp fun owner howner harguments => harguments.inside (harguments.code ?_)
  obtain ⟨block, hblock, parameter, hparameter, hmem⟩ := mem_attributesOf.mp howner
  exact ((h blocks hread block hblock parameter hparameter).2 owner hmem).opensInCode

end DscAudit.PowerShell

namespace DscAudit.Rule

open PowerShell

/-- The rules that parameters break which are declared somewhere or other. -/
def rulesOf (blocks : List (ParameterBlock Unit)) : List Name :=
  (blocks.flatMap (·.parameters)).flatMap fun parameter => (diagnostics parameter).map (·.rule)

theorem rulesOf_meaning (blocks : List (ParameterBlock Span)) :
    rulesOf (blocks.map ParameterBlock.meaning) =
      (blocks.flatMap (·.parameters)).flatMap fun parameter =>
        (diagnostics parameter).map (·.rule) := by
  have hparameters : (blocks.map ParameterBlock.meaning).flatMap (·.parameters) =
      (blocks.flatMap (·.parameters)).map Parameter.meaning := by
    rw [List.flatMap_map, List.map_flatMap]
    rfl
  rw [rulesOf, hparameters, List.flatMap_map]
  simp only [Parameter.meaning, diagnostics_map_rule]

/-- The rules that a script breaks depend on what it declares. -/
theorem analyze_of_declared? {text : List Char} {place : Nat} (h : ReadsApart text place) :
    (analyze text).map (·.rule) = ((declared? text).map rulesOf).getD [.unreadable] := by
  unfold declared?
  cases hread : parameterBlocks text with
  | ok blocks =>
    rw [analyze_rules hread (h.nests hread), ← rulesOf_meaning]
    rfl
  | error fault =>
    have hparameters : parameters text = .error fault := by
      rw [parameters, hread]
      rfl
    simp only [analyze, hparameters]
    rfl

/-- A space in place of a comment leaves what a script declares and which rules it breaks as they are, if
names are read from code on both sides and not from around the comment. -/
theorem declared_without_comment {front comment behind : List Char} {kind : LexemeKind}
    (hfront : Lexemes front (comment ++ behind)) (hscans : Scans kind comment behind)
    (hcomment : kind.isComment = true)
    (hleft : ReadsApart (front ++ (comment ++ behind)) front.length)
    (hright : ReadsApart (front ++ ' ' :: behind) front.length) :
    declared? (front ++ (comment ++ behind)) = declared? (front ++ ' ' :: behind) ∧
      (analyze (front ++ (comment ++ behind))).map (·.rule) =
        (analyze (front ++ ' ' :: behind)).map (·.rule) := by
  have halike := alike_of_comment hfront hscans hcomment 0
  rw [Nat.zero_add] at halike
  have hsame := Twin.Alike.declared?_eq halike hleft hright
  refine ⟨hsame, ?_⟩
  rw [analyze_of_declared? hleft, analyze_of_declared? hright, hsame]

/-! ### A comment among arguments -/

theorem lexemes_of_ordinary {s : List Char} (h : ∀ c ∈ s, IsOrdinary c) (behind : List Char) :
    Lexemes s behind := by
  induction s with
  | nil => exact .nil behind
  | cons c s ih =>
    rw [List.forall_mem_cons] at h
    exact .cons (leads_char h.1 0 (s ++ behind)).scans (ih h.2)

/-- A name of characters that stand for themselves is read from code. -/
theorem nameApart_of_ordinary {text name behind : List Char} {place start : Nat}
    {owner : Attribute Span}
    (hname : nameAt? text owner.location = .ok ⟨start, start + name.length⟩)
    (hplace : place < start ∨ start + name.length ≤ place) (htext : text.drop start = name ++ behind)
    (h : ∀ c ∈ name, IsOrdinary c) : NameApart text place owner := by
  intro found hfound
  cases hname.symm.trans hfound
  refine ⟨hplace, ?_⟩
  simp only [htext]
  clear hname hplace htext hfound
  induction name generalizing start with
  | nil => exact .stop (Nat.le_refl _)
  | cons c name ih =>
    rw [List.forall_mem_cons] at h
    have hnext := @ih (start + 1) h.2
    rw [Nat.add_right_comm] at hnext
    exact @BracketsInCode.lexeme _ .plain [c] (name ++ behind) start
      (leads_char h.1 start (name ++ behind)).scans (fun hother => absurd rfl hother) hnext

/-- Where the only block has one parameter with one attribute, all depends on their names. -/
theorem readsApart_of_single {text : List Char} {place : Nat} {only : Parameter Span}
    {owner : Attribute Span} {whole : Span} (hread : parameterBlocks text = .ok [⟨[only], whole⟩])
    (honly : only.attributes = [owner]) (hvariable : VariableApart text place only)
    (howner : NameApart text place owner) : ReadsApart text place := by
  intro blocks hblocks block hblock parameter hparameter
  cases hread.symm.trans hblocks
  cases List.mem_singleton.mp hblock
  cases List.mem_singleton.mp hparameter
  refine ⟨hvariable, fun other hother => ?_⟩
  rw [honly] at hother
  cases List.mem_singleton.mp hother
  exact howner

theorem variableApart_of_found {text : List Char} {place : Nat} {parameter : Parameter Span}
    {found : Span} (hclear : IsClear parameter.name.toList)
    (hfound : variableAt? text parameter = .ok found)
    (hplace : place < found.start ∨ found.stop ≤ place) : VariableApart text place parameter := by
  refine ⟨hclear, fun other hother => ?_⟩
  cases hfound.symm.trans hother
  exact hplace

theorem declared_without_comment_argument :
    (Lexemes "param([A(1".toList ("<#x#>".toList ++ ")] $a = 2)".toList) ∧
      Scans .blockComment "<#x#>".toList ")] $a = 2)".toList ∧
      ReadsApart "param([A(1<#x#>)] $a = 2)".toList 10 ∧
      ReadsApart "param([A(1 )] $a = 2)".toList 10) ∧
    (declared? "param([A(1<#x#>)] $a = 2)".toList = declared? "param([A(1 )] $a = 2)".toList ∧
      (analyze "param([A(1<#x#>)] $a = 2)".toList).map (·.rule) =
        (analyze "param([A(1 )] $a = 2)".toList).map (·.rule)) ∧
    (declared? "param([A(1 )] $a = 2)".toList).isSome := by
  have hfront : Lexemes "param([A(1".toList ("<#x#>".toList ++ ")] $a = 2)".toList) :=
    lexemes_of_ordinary (by simp [IsOrdinary]) _
  have hscans : Scans .blockComment "<#x#>".toList ")] $a = 2)".toList :=
    (@IsLexeme.blockComment ['x'] (by decide)).scans trivial
  have hread : parameterBlocks "param([A(1<#x#>)] $a = 2)".toList =
      .ok [⟨[⟨"a", [⟨"A", [], ["1"], false, ⟨6, 17⟩⟩], some "2", ⟨6, 24⟩⟩], ⟨0, 25⟩⟩] := by
    with_unfolding_all rfl
  have hread' : parameterBlocks "param([A(1 )] $a = 2)".toList =
      .ok [⟨[⟨"a", [⟨"A", [], ["1"], false, ⟨6, 13⟩⟩], some "2", ⟨6, 20⟩⟩], ⟨0, 21⟩⟩] := by
    with_unfolding_all rfl
  have hleft : ReadsApart "param([A(1<#x#>)] $a = 2)".toList 10 :=
    readsApart_of_single hread rfl
      (variableApart_of_found (by simp [IsClear]) (by with_unfolding_all rfl) (by decide))
      (@nameApart_of_ordinary _ ['A'] _ _ 7 _ (by with_unfolding_all rfl) (by decide)
        (by with_unfolding_all rfl) (by simp [IsOrdinary]))
  have hright : ReadsApart "param([A(1 )] $a = 2)".toList 10 :=
    readsApart_of_single hread' rfl
      (variableApart_of_found (by simp [IsClear]) (by with_unfolding_all rfl) (by decide))
      (@nameApart_of_ordinary _ ['A'] _ _ 7 _ (by with_unfolding_all rfl) (by decide)
        (by with_unfolding_all rfl) (by simp [IsOrdinary]))
  refine ⟨⟨hfront, hscans, hleft, hright⟩,
    declared_without_comment hfront hscans rfl hleft hright, ?_⟩
  rw [declared?, hread']
  rfl

/-! ### A comment in a name -/

/-- Behind the comment the name of the attribute is another one, and the rule on `[Parameter()]` is
broken. -/
theorem comment_in_name :
    (Lexemes "param([Parameter ".toList ("<#c#>".toList ++ " ()] $a)".toList) ∧
      Scans .blockComment "<#c#>".toList " ()] $a)".toList) ∧
    declared? "param([Parameter <#c#> ()] $a)".toList =
      some [⟨[⟨"a", [⟨"Parameter <#c#>", [], [], false, ()⟩], none, ()⟩], ()⟩] ∧
    declared? "param([Parameter   ()] $a)".toList =
      some [⟨[⟨"a", [⟨"Parameter", [], [], false, ()⟩], none, ()⟩], ()⟩] ∧
    (analyze "param([Parameter <#c#> ()] $a)".toList).map (·.rule) = [.attributeMissing] ∧
    (analyze "param([Parameter   ()] $a)".toList).map (·.rule) = [] := by
  refine ⟨⟨lexemes_of_ordinary (by simp [IsOrdinary]) _,
    (@IsLexeme.blockComment ['c'] (by decide)).scans trivial⟩, ?_, ?_, ?_, ?_⟩
  · with_unfolding_all rfl
  · with_unfolding_all rfl
  · with_unfolding_all rfl
  · with_unfolding_all rfl

end DscAudit.Rule

namespace DscAudit.Rule

open PowerShell (NamedArgument Attribute Parameter Extent Span Respelled)

/-! ## Words that the rules ask for -/

section Words

variable {word word' : String}

theorem isSpelling_iff_of_respelled (name : String) (hname : '\n' ∉ name.toList.map Char.toLower)
    (h : Respelled word word') : Text.IsSpelling name word' ↔ Text.IsSpelling name word := by
  refine h.iff_of_not_mem fun u hspelling hmem => hname ?_
  rw [← hspelling]
  exact List.mem_map_of_mem (f := Char.toLower) hmem

theorem eq_iff_of_respelled (name : String) (hname : '\n' ∉ name.toList) (h : Respelled word word') :
    word' = name ↔ word = name :=
  h.iff_of_not_mem fun u (heq : u = name) => heq ▸ hname

end Words

/-! ## Findings for a parameter -/

theorem exists_spelling_respelled {names names' : List String}
    (h : List.Forall₂ Respelled names names') :
    (∃ name ∈ names', Text.IsSpelling "Parameter" name) ↔
      ∃ name ∈ names, Text.IsSpelling "Parameter" name := by
  induction h with
  | nil => rfl
  | cons hname _ ih =>
    rw [List.exists_mem_cons_iff, List.exists_mem_cons_iff, ih,
      isSpelling_iff_of_respelled "Parameter" (by decide) hname]

theorem placement?_respelled {names names' : List String} (h : List.Forall₂ Respelled names names') :
    placement? names' = placement? names := by
  cases h with
  | nil => rfl
  | cons hfirst hmore =>
    rw [placement?_cons, placement?_cons]
    simp only [exists_spelling_respelled hmore,
      isSpelling_iff_of_respelled "Parameter" (by decide) hfirst,
      eq_iff_of_respelled "Parameter" (by decide) hfirst]

section

variable {text : List Char}

theorem isWrongMandatory_alike {argument argument' : NamedArgument Span}
    (h : argument.Alike text argument') : isWrongMandatory argument' = isWrongMandatory argument := by
  have hvalue : (argument'.value == "$true") = (argument.value == "$true") := by
    rw [Bool.eq_iff_iff, beq_iff_eq, beq_iff_eq]
    exact eq_iff_of_respelled "$true" (by decide) h.value
  rw [isWrongMandatory, isWrongMandatory, h.name, h.valueOmitted, hvalue]

theorem warnings_alike {named named' : List (NamedArgument Span)}
    (h : List.Forall₂ (NamedArgument.Alike text) named named') :
    (named'.filter isWrongMandatory).map (fun argument => warning .mandatoryArgument argument.location) =
      ((named.filter isWrongMandatory).map
        fun argument => warning .mandatoryArgument argument.location).map
        (Diagnostic.map (Span.relocated text)) := by
  induction h with
  | nil => rfl
  | cons hargument _ ih =>
    rw [List.filter_cons, List.filter_cons, isWrongMandatory_alike hargument]
    split
    · rw [List.map_cons, List.map_cons, List.map_cons, ih, hargument.location]
      rfl
    · exact ih

/-- What is found for a parameter moves with its place. -/
theorem diagnostics_alike {parameter parameter' : Parameter Span} (h : parameter.Alike text parameter') :
    diagnostics parameter' = (diagnostics parameter).map (Diagnostic.map (Span.relocated text)) := by
  have hnames : List.Forall₂ Respelled (parameter.attributes.map (·.name))
      (parameter'.attributes.map (·.name)) :=
    List.rel_map (fun _ _ howner => howner.name) h.attributes
  have hnamed : List.Forall₂ (NamedArgument.Alike text) (parameter.attributes.flatMap (·.named))
      (parameter'.attributes.flatMap (·.named)) :=
    List.rel_flatMap h.attributes fun _ _ howner => howner.named
  rw [diagnostics, diagnostics, placement?_respelled hnames, filterMap_if, filterMap_if, List.map_append,
    warnings_alike hnamed, h.location]
  congr 1
  cases placement? (parameter.attributes.map (·.name)) <;> rfl

theorem flatMap_diagnostics_alike {found found' : List (Parameter Span)}
    (h : List.Forall₂ (Parameter.Alike text) found found') :
    found'.flatMap diagnostics =
      (found.flatMap diagnostics).map (Diagnostic.map (Span.relocated text)) := by
  induction h with
  | nil => rfl
  | cons hparameter _ ih =>
    rw [List.flatMap_cons, List.flatMap_cons, List.map_append, ih, diagnostics_alike hparameter]

end

/-! ## Findings in a script -/

/-- What a finding says and where, whatever the text there. -/
structure Outline where
  rule : Name
  severity : Severity
  first : Text.Position
  last : Text.Position
  deriving DecidableEq, Repr

def Diagnostic.outline (diagnostic : Diagnostic Extent) : Outline :=
  ⟨diagnostic.rule, diagnostic.severity, diagnostic.location.first, diagnostic.location.last⟩

/-- The order of findings does not look at more than this. -/
def Outline.precedes (a b : Outline) : Bool :=
  let lines := compare a.first.line b.first.line
  let columns := compare a.first.column b.first.column
  ((lines.then columns).then (compare a.rule.text b.rule.text)).isLE

theorem map_outline_mergeSort (found : List (Diagnostic Extent)) :
    (found.mergeSort precedes).map Diagnostic.outline =
      (found.map Diagnostic.outline).mergeSort Outline.precedes :=
  List.map_mergeSort fun _ _ _ _ => rfl

theorem outline_relocated (text : List Char) (diagnostic : Diagnostic Span) :
    ((diagnostic.map (Span.relocated text)).map (·.extent (Text.withReturns text))).outline =
      (diagnostic.map (·.extent text)).outline := by
  simp only [Diagnostic.outline, Diagnostic.map, Span.extent, Span.relocated, Text.positionAt_moved]

/-- Line ends do not matter: with a carriage return in front of each line feed the same is found at the same
lines and columns. -/
theorem analyze_withReturns (text : List Char) :
    (analyze (Text.withReturns text)).map Diagnostic.outline =
      (analyze text).map Diagnostic.outline := by
  have hread := PowerShell.parameters_moved text
  rw [analyze, analyze]
  cases hfound : PowerShell.parameters text with
  | error fault =>
    cases hfound' : PowerShell.parameters (Text.withReturns text) with
    | ok found' =>
      rw [hfound, hfound'] at hread
      exact hread.elim
    | error fault' =>
      rw [hfound, hfound'] at hread
      have hmoves : fault'.offset = Text.moved text fault.offset := hread
      simp only [List.map_cons, List.map_nil, Diagnostic.outline, unreadable, PowerShell.Fault.position,
        hmoves, Text.positionAt_moved]
  | ok found =>
    cases hfound' : PowerShell.parameters (Text.withReturns text) with
    | error fault' =>
      rw [hfound, hfound'] at hread
      exact hread.elim
    | ok found' =>
      rw [hfound, hfound'] at hread
      have halike : List.Forall₂ (Parameter.Alike text) found found' := hread
      simp only [map_outline_mergeSort, flatMap_diagnostics_map, flatMap_diagnostics_alike halike,
        List.map_map, Function.comp_def, outline_relocated]

end DscAudit.Rule

import DscAudit.Proofs.PowerShell.Fault
import DscAudit.Proofs.PowerShell.OffsetBlock
import DscAudit.Rule.Script

/-!
# The analysis of a script by offsets

The analysis takes the positions of spans from a table of lines, the first of the names of attributes, and
the text of a rule from a table of texts.  Each of these is looked up where it is known to be, and reading
the script comes to its parameters or to one fault, so the analysis always comes to its findings.
-/

namespace DscAudit.Rule.ByOffset

open PowerShell (Cause Fault Span Extent NamedArgument Attribute Parameter ParameterBlock Lexeme)
open PowerShell.ByOffset
open Text (Halt charAt settled)

/-! ## The analysis -/

section

variable (text : List Char)

def extentAt (span : Span) : Except (Halt Fault) Extent := do
  let first ← Text.position text span.start
  let last ← Text.position text span.stop
  return ⟨first, last, String.ofList (span.slice text)⟩

def locateArgument (argument : NamedArgument Span) : Except (Halt Fault) (NamedArgument Extent) := do
  let location ← extentAt text argument.location
  return argument.map fun _ => location

def locateAttribute (owner : Attribute Span) : Except (Halt Fault) (Attribute Extent) := do
  let named ← owner.named.mapM (locateArgument text)
  let location ← extentAt text owner.location
  return ⟨owner.name, named, owner.positional, owner.isTypeConstraint, location⟩

def locateParameter (parameter : Parameter Span) : Except (Halt Fault) (Parameter Extent) := do
  let attributes ← parameter.attributes.mapM (locateAttribute text)
  let location ← extentAt text parameter.location
  return ⟨parameter.name, attributes, parameter.default, location⟩

end

/-- The first of some names, of which there must be one. -/
def firstOf : List String → Except (Halt Fault) String
  | [] => .error .pastEnd
  | first :: _ => .ok first

/-- The texts of the rules that a script can break. -/
def messages : List (Name × String) := all.map fun rule => (rule, rule.message)

/-- The warning that a rule is broken, whose text must be known. -/
def warn (rule : Name) (location : Extent) : Except (Halt Fault) (Diagnostic Extent) :=
  match messages.lookup rule with
  | none => .error .unknownKey
  | some message => return ⟨rule, .warning, message, location⟩

def placement (parameter : Parameter Extent) : Except (Halt Fault) (Option (Diagnostic Extent)) :=
  let names := parameter.attributes.map (·.name)
  if names.any fun name => Text.lowerString name == "parameter" then do
    let first ← firstOf names
    if Text.lowerString first ≠ "parameter" then some <$> warn .attributeWrongPlace parameter.location
    else if first ≠ "Parameter" then some <$> warn .attributeLowerCase parameter.location
    else return none
  else some <$> warn .attributeMissing parameter.location

def mandatory (argument : NamedArgument Extent) : Except (Halt Fault) (Option (Diagnostic Extent)) :=
  if isWrongMandatory argument then some <$> warn .mandatoryArgument argument.location
  else return none

def findings (parameter : Parameter Extent) : Except (Halt Fault) (List (Diagnostic Extent)) := do
  let placed ← placement parameter
  let found ← (parameter.attributes.flatMap (·.named)).mapM mandatory
  return placed.toList ++ found.filterMap id

/-- The findings in a script, the fault of one that cannot be read among them. -/
def analyze (text : List Char) : Except (Halt Fault) (List (Diagnostic Extent)) :=
  match PowerShell.ByOffset.parameterBlocks text with
  | .error (.fault fault) => do
    let position ← Text.position text fault.offset
    return [⟨.unreadable, .parseError, fault.cause.message, ⟨position, position, ""⟩⟩]
  | .error halt => .error halt
  | .ok blocks => do
    let parameters ← (blocks.flatMap (·.parameters)).mapM (locateParameter text)
    let found ← parameters.mapM findings
    return found.flatten.mergeSort precedes

/-! ## Locations -/

theorem mapM_eq_pure {α β : Type} {read : α → Except (Halt Fault) β} {found : α → β} {items : List α}
    (h : ∀ item ∈ items, read item = pure (found item)) :
    items.mapM read = pure (items.map found) := by
  induction items with
  | nil => rfl
  | cons item items ih =>
      obtain ⟨hitem, hitems⟩ := List.forall_mem_cons.1 h
      rw [List.mapM_cons, hitem, pure_bind, ih hitems, pure_bind]
      rfl

variable {text : List Char}

theorem extentAt_eq {span : Span} (h : span.Within text.length) :
    extentAt text span = pure (span.extent text) := by
  rw [extentAt, Text.position_eq h.1, Text.position_eq h.2]
  rfl

theorem locateParameter_eq {parameter : Parameter Span} (h : parameter.Within text.length) :
    locateParameter text parameter = pure (parameter.map (·.extent text)) := by
  have hargument (owner : Attribute Span) (howner : owner ∈ parameter.attributes) :
      ∀ argument ∈ owner.named, locateArgument text argument = pure (argument.map (·.extent text)) := by
    intro argument hargument
    rw [locateArgument, extentAt_eq (h.arguments owner howner argument hargument)]
    rfl
  have hattribute : ∀ owner ∈ parameter.attributes,
      locateAttribute text owner = pure (owner.map (·.extent text)) := by
    intro owner howner
    rw [locateAttribute, mapM_eq_pure (hargument owner howner), pure_bind,
      extentAt_eq (h.attributes owner howner)]
    rfl
  rw [locateParameter, mapM_eq_pure hattribute, pure_bind, extentAt_eq h.location]
  rfl

/-! ## Findings -/

theorem warn_eq {rule : Name} (h : rule ∈ all) (location : Extent) :
    warn rule location = pure (warning rule location) := by
  rw [all] at h
  fin_cases h <;> rfl

theorem placement_eq (parameter : Parameter Extent) :
    placement parameter =
      pure ((placement? (parameter.attributes.map (·.name))).map (warning · parameter.location)) := by
  have hwarn {rule : Name} (h : rule ∈ all) : some <$> warn rule parameter.location =
      (pure ((some rule).map (warning · parameter.location)) :
        Except (Halt Fault) (Option (Diagnostic Extent))) := by
    rw [warn_eq h, map_pure]
    rfl
  rw [placement, placement?.eq_def]
  generalize parameter.attributes.map (·.name) = names
  by_cases hany : (names.any fun name => Text.lowerString name == "parameter") = true
  swap
  · rw [if_neg hany, if_neg hany]
    exact hwarn (by decide)
  rw [if_pos hany, if_pos hany]
  rcases names with _ | ⟨first, names⟩
  · cases hany
  by_cases hplace : Text.lowerString first ≠ "parameter"
  · simp only [firstOf, bind, Except.bind, if_pos hplace]
    exact hwarn (by decide)
  by_cases hcase : first ≠ "Parameter"
  · simp only [firstOf, bind, Except.bind, if_neg hplace, if_pos hcase]
    exact hwarn (by decide)
  · simp only [firstOf, bind, Except.bind, if_neg hplace, if_neg hcase]
    rfl

theorem mandatory_eq (argument : NamedArgument Extent) :
    mandatory argument = pure (if isWrongMandatory argument then
      some (warning .mandatoryArgument argument.location) else none) := by
  rw [mandatory]
  by_cases hwrong : isWrongMandatory argument = true
  · rw [if_pos hwrong, if_pos hwrong, warn_eq (by decide), map_pure]
  · rw [if_neg hwrong, if_neg hwrong]

theorem findings_eq (parameter : Parameter Extent) :
    findings parameter = pure (diagnostics parameter) := by
  rw [findings, placement_eq, pure_bind, mapM_eq_pure fun argument _ => mandatory_eq argument,
    pure_bind, diagnostics, List.filterMap_map]
  rfl

/-- The analysis comes to the findings in the script, whatever it holds. -/
theorem analyze_eq (text : List Char) : analyze text = .ok (Rule.analyze text) := by
  rw [analyze, PowerShell.ByOffset.parameterBlocks_eq]
  rcases hread : PowerShell.parameterBlocks text with fault | blocks
  · have hparameters : PowerShell.parameters text = .error fault := by
      rw [PowerShell.parameters, hread]
      rfl
    dsimp only [settled]
    rw [Text.position_eq (PowerShell.offset_le_of_fault hread), Rule.analyze, hparameters]
    rfl
  · have hparameters : PowerShell.parameters text = .ok (blocks.flatMap (·.parameters)) := by
      rw [PowerShell.parameters, hread]
      rfl
    have hwithin : ∀ parameter ∈ blocks.flatMap (·.parameters),
        locateParameter text parameter = pure (parameter.map (·.extent text)) := by
      intro parameter hparameter
      obtain ⟨block, hblock, hmem⟩ := List.mem_flatMap.1 hparameter
      exact locateParameter_eq (PowerShell.parameter_within hread hblock hmem)
    dsimp only [settled, id]
    rw [mapM_eq_pure hwithin, pure_bind, mapM_eq_pure fun parameter _ => findings_eq parameter,
      pure_bind, Rule.analyze, hparameters]
    dsimp only
    rw [List.flatMap]
    rfl

/-- Reading a script comes to its blocks or to a fault within it, and to nothing else: no character behind
the end is read, no bracket that opens nothing is looked up, no comment is taken for another lexeme, and no
loop stands still.  So the analysis comes to its findings for every text. -/
theorem analysis_comes_to_findings (text : List Char) :
    ((∃ blocks, PowerShell.ByOffset.parameterBlocks text = .ok blocks ∧
        PowerShell.parameterBlocks text = .ok blocks) ∨
      ∃ fault, PowerShell.ByOffset.parameterBlocks text = .error (.fault fault) ∧
        PowerShell.parameterBlocks text = .error fault ∧ fault.offset ≤ text.length) ∧
    (∀ offset < text.length, skipOpaque text offset = .ok none ∨
      (∃ next, skipOpaque text offset = .ok (some next) ∧ offset < next ∧ next ≤ text.length) ∨
      ∃ fault, skipOpaque text offset = .error (.fault fault)) ∧
    (∀ offset c, text[offset]? = some c → Text.isLetter c = true →
      ∃ next, span text PowerShell.isNamePart offset = .ok next ∧ offset < next ∧
        next ≤ text.length) ∧
    LoopsMoveOn text ∧
    (∀ offset, ∃ found, (Text.position text offset : Except (Halt Fault) Text.Position) = .ok found) ∧
    analyze text = .ok (Rule.analyze text) := by
  refine ⟨?_, fun _ => skipOpaque_forward, fun _ _ => span_forward, loopsMoveOn text,
    Text.exists_position text, analyze_eq text⟩
  rw [PowerShell.ByOffset.parameterBlocks_eq]
  rcases hread : PowerShell.parameterBlocks text with fault | blocks
  · exact .inr ⟨fault, rfl, rfl, PowerShell.offset_le_of_fault hread⟩
  · exact .inl ⟨blocks, rfl, rfl⟩

end DscAudit.Rule.ByOffset

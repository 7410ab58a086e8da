import DscAudit.Text.Lines

/-!
# Declarations of parameters

A parameter block declares parameters; a parameter has attributes, and an attribute has arguments.
Each of them is found somewhere; the type `ρ` says where.  The reader finds them at spans of offsets,
which a text turns into extents.
-/

namespace DscAudit.PowerShell

/-- The offsets from `start` up to but without `stop`. -/
structure Span where
  start : Nat
  stop : Nat
  deriving DecidableEq, Repr

/-- The lines and columns where a piece of a text starts and ends, and the piece. -/
structure Extent where
  first : Text.Position
  last : Text.Position
  text : String
  deriving DecidableEq, Repr

/-- The piece of a text at a span. -/
def Span.slice (span : Span) (text : List Char) : List Char :=
  (text.drop span.start).take (span.stop - span.start)

/-- The extent of a span in a text. -/
def Span.extent (text : List Char) (span : Span) : Extent :=
  ⟨Text.positionAt text span.start, Text.positionAt text span.stop, String.ofList (span.slice text)⟩

/-- An argument written with its name, and its value unless that is omitted. -/
structure NamedArgument (ρ : Type) where
  name : String
  value : String
  valueOmitted : Bool
  location : ρ

/-- An attribute in square brackets: a constraint on the type, or a name with arguments. -/
structure Attribute (ρ : Type) where
  name : String
  named : List (NamedArgument ρ)
  positional : List String
  isTypeConstraint : Bool
  location : ρ

structure Parameter (ρ : Type) where
  name : String
  attributes : List (Attribute ρ)
  default : Option String
  location : ρ

structure ParameterBlock (ρ : Type) where
  parameters : List (Parameter ρ)
  location : ρ

variable {ρ σ : Type}

def NamedArgument.map (f : ρ → σ) (argument : NamedArgument ρ) : NamedArgument σ :=
  ⟨argument.name, argument.value, argument.valueOmitted, f argument.location⟩

def Attribute.map (f : ρ → σ) (owner : Attribute ρ) : Attribute σ :=
  ⟨owner.name, owner.named.map (·.map f), owner.positional, owner.isTypeConstraint,
    f owner.location⟩

def Parameter.map (f : ρ → σ) (parameter : Parameter ρ) : Parameter σ :=
  ⟨parameter.name, parameter.attributes.map (·.map f), parameter.default, f parameter.location⟩

def ParameterBlock.map (f : ρ → σ) (block : ParameterBlock ρ) : ParameterBlock σ :=
  ⟨block.parameters.map (·.map f), f block.location⟩

end DscAudit.PowerShell

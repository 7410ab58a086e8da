import DscAudit.PowerShell.Declaration
import DscAudit.Text.LetterCase

/-!
# Rules for parameters

Every parameter has `[Parameter()]` as its first attribute, spelled like this.  A mandatory parameter
says `Mandatory = $true`; no other form of the `Mandatory` argument is allowed.
-/

namespace DscAudit.Rule

open PowerShell (NamedArgument Parameter)

/-- What a diagnostic is about. -/
inductive Name where
  | attributeMissing
  | attributeWrongPlace
  | attributeLowerCase
  | mandatoryArgument
  | unreadable
  deriving DecidableEq, Repr

def Name.text : Name → String
  | attributeMissing => "ParameterBlockParameterAttributeMissing"
  | attributeWrongPlace => "ParameterBlockParameterAttributeWrongPlace"
  | attributeLowerCase => "ParameterBlockParameterAttributeLowerCase"
  | mandatoryArgument => "ParameterBlockNonMandatoryParameter"
  | unreadable => "ParameterBlockParseError"

/-- The rules that a script can break, in the order in which they are listed. -/
def all : List Name := [.attributeMissing, .attributeWrongPlace, .attributeLowerCase, .mandatoryArgument]

inductive Severity where
  | information
  | warning
  | error
  | parseError
  deriving DecidableEq, Repr

def Severity.text : Severity → String
  | information => "Information"
  | warning => "Warning"
  | error => "Error"
  | parseError => "ParseError"

/-- A finding of a rule at a location. -/
structure Diagnostic (ρ : Type) where
  rule : Name
  severity : Severity
  message : String
  location : ρ

/-- What a rule demands. -/
def Name.message : Name → String
  | attributeMissing =>
    "A [Parameter()] attribute must be the first attribute of each parameter and be on its own line."
  | attributeWrongPlace =>
    "The [Parameter()] attribute must be the first attribute of each parameter."
  | attributeLowerCase => "The [Parameter()] attribute must start with an upper case \x27P\x27."
  | mandatoryArgument =>
    "A mandatory parameter must be declared as \x27Mandatory = $true\x27; " ++
      "a non-mandatory parameter must omit the Mandatory argument."
  | unreadable => ""

variable {ρ σ : Type}

/-- The warning that a rule is broken at a location. -/
def warning (rule : Name) (location : ρ) : Diagnostic ρ := ⟨rule, .warning, rule.message, location⟩

def Diagnostic.map (f : ρ → σ) (diagnostic : Diagnostic ρ) : Diagnostic σ :=
  ⟨diagnostic.rule, diagnostic.severity, diagnostic.message, f diagnostic.location⟩

/-- The rule on the first attribute that the names of a parameter's attributes break, if any. -/
def placement? (names : List String) : Option Name :=
  if names.any fun name => Text.lowerString name == "parameter" then
    match names with
    | first :: _ =>
      if Text.lowerString first ≠ "parameter" then some .attributeWrongPlace
      else if first ≠ "Parameter" then some .attributeLowerCase
      else none
    | [] => none
  else some .attributeMissing

/-- Does an argument say in a wrong form whether the parameter is mandatory? -/
def isWrongMandatory (argument : NamedArgument ρ) : Bool :=
  Text.lowerString argument.name == "mandatory" &&
    !(argument.name == "Mandatory" && !argument.valueOmitted && argument.value == "$true")

/-- The findings for a parameter: that on its first attribute comes before those on arguments. -/
def diagnostics (parameter : Parameter ρ) : List (Diagnostic ρ) :=
  ((placement? (parameter.attributes.map (·.name))).map (warning · parameter.location)).toList ++
    (parameter.attributes.flatMap (·.named)).filterMap fun argument =>
      if isWrongMandatory argument then some (warning .mandatoryArgument argument.location) else none

end DscAudit.Rule

import DscAudit.Check.Violation
import DscAudit.Config.Basic
import DscAudit.Host.Log
import DscAudit.Manifest.Content
import DscAudit.Tool.Pwsh

/-!
# Checks

A check looks at a module and comes to an outcome.  Checks of one run share what is costly to find
out: the content of the manifest and the findings of the script analyzer.
-/

namespace DscAudit

/-- What a check found. -/
structure Outcome where
  violations : List Violation
  warnings : List String
  /-- Why the check was not made, empty if it was. -/
  skipped : String
  metrics : Table

namespace Outcome

/-- The outcome of a check that was made. -/
def found (violations : List Violation) (metrics : Table) : Outcome := ⟨violations, [], "", metrics⟩

/-- The outcome of a check that was not made. -/
def skip (reason : String) : Outcome := ⟨[], [], reason, []⟩

def empty : Outcome := found [] []

end Outcome

/-- The module that is checked. -/
structure Subject where
  root : Path
  config : Config
  /-- The directory for what checks write. -/
  evidence : Path
  log : Option LogSettings

namespace Subject

def path (subject : Subject) (relative : Path) : Path := subject.root.join relative

def session (subject : Subject) (executable : String) : Tool.Pwsh.Session :=
  ⟨executable, subject.root, subject.config.powershell.timeout, subject.log⟩

/-- The reason to skip a check whose tool cannot be found. -/
def notFound (executable : String) : String := executable ++ " not found on PATH"

end Subject

/-- What checks of one run have found out already. -/
structure Findings where
  manifest : Option Manifest.Content
  /-- The findings of the script analyzer, or why there are none. -/
  analyzer : Option (Except String (List Tool.Pwsh.Finding))

def Findings.none : Findings := ⟨.none, .none⟩

/-- What a check can do. -/
abbrev Checking := StateT Findings Action

structure Check where
  id : String
  domain : String
  title : String
  description : String
  /-- The time that the check should take at most, in milliseconds; zero for any time. -/
  budget : Int
  /-- Does the check fail only modules that opt in to it? -/
  optIn : Bool
  tools : List String
  hint : String
  run : Subject → Checking Outcome

end DscAudit

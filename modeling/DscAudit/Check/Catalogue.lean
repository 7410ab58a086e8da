import DscAudit.Check.Analyzer
import DscAudit.Check.Examples
import DscAudit.Check.Manifest
import DscAudit.Check.Markdown
import DscAudit.Check.PathLength
import DscAudit.Check.Resource
import DscAudit.Text.Sorted

/-!
# The catalogue of checks

All checks in the order in which they run, and how some of them are chosen by their domain or by
their identifiers.
-/

namespace DscAudit.Check

def formattingTitle : String := "Common Tests - File Formatting"

def manifestTitle : String := "Common Tests - Module Manifest"

def schemaTitle : String := "Common Tests - Script Resource Schema Validation"

def formattingChecks : List Check :=
  [{ id := "files/no-unicode-encoding", domain := "files", title := formattingTitle
     description := "text files are not encoded as UTF-16 or UTF-32", budget := 1000
     optIn := false, tools := [], hint := "Re-save the file as UTF-8 or ASCII."
     run := Formatting.encoding },
   { id := "files/no-tab-characters", domain := "files", title := formattingTitle
     description := "text files are indented with spaces", budget := 1000
     optIn := false, tools := [], hint := "Replace tab characters with four spaces."
     run := Formatting.tabCharacters },
   { id := "files/final-newline", domain := "files", title := formattingTitle
     description := "text files end with a newline", budget := 1000
     optIn := false, tools := [], hint := "Add a newline at the end of the file."
     run := Formatting.finalNewline },
   { id := "files/markdown-no-bom", domain := "files", title := formattingTitle
     description := "markdown files have no byte order mark", budget := 500
     optIn := false, tools := [], hint := "Re-save the markdown file as UTF-8 without BOM."
     run := Formatting.markdownMark }]

def manifestChecks : List Check :=
  [{ id := "manifest/present", domain := "manifest", title := manifestTitle
     description := "the module root contains its module manifest", budget := 200
     optIn := false, tools := [], hint := "Add <ModuleName>.psd1 to the module root."
     run := Manifest.present },
   { id := "manifest/valid", domain := "manifest", title := manifestTitle
     description := "the module manifest parses and carries version, GUID, author and description"
     budget := 500, optIn := false, tools := []
     hint := "Fix the manifest syntax and required fields."
     run := Manifest.valid },
   { id := "manifest/powershell-version", domain := "manifest", title := manifestTitle
     description := "the module manifest requires a supported PowerShell version", budget := 500
     optIn := false, tools := []
     hint := "Set PowerShellVersion to the minimum supported version or later."
     run := Manifest.powerShellVersion }]

def resourceChecks : List Check :=
  [{ id := "resources/schema-present", domain := "resources", title := schemaTitle
     description := "every resource folder has a module and a schema file", budget := 500
     optIn := false, tools := []
     hint := "Add <Resource>.psm1 and <Resource>.schema.mof to the resource folder."
     run := Resource.filesPresent },
   { id := "resources/schema-valid", domain := "resources", title := schemaTitle
     description :=
       "resource schemas declare a versioned OMI_BaseResource class with a key property"
     budget := 1000, optIn := false, tools := []
     hint := "Fix the class declaration and qualifiers in the schema file."
     run := Resource.schemaValid },
   { id := "resources/target-functions", domain := "resources", title := schemaTitle
     description := "resource modules define and export the Get/Set/Test-TargetResource functions"
     budget := 1000, optIn := false, tools := []
     hint :=
       "Define the three *-TargetResource functions and export them with Export-ModuleMember."
     run := Resource.functions }]

def analyzerChecks : List Check :=
  [{ id := "analyzer/required-rules", domain := "analyzer"
     title := "Common Tests - Required Script Analyzer Rules"
     description := "no PSScriptAnalyzer findings from required rules", budget := 120000
     optIn := false, tools := ["pwsh", "PSScriptAnalyzer"]
     hint := "Fix the reported PSScriptAnalyzer findings."
     run := Analyzer.requiredRules },
   { id := "analyzer/flagged-rules", domain := "analyzer"
     title := "Common Tests - Flagged Script Analyzer Rules"
     description := "no PSScriptAnalyzer findings from flagged rules", budget := 1000
     optIn := true, tools := ["pwsh", "PSScriptAnalyzer"]
     hint := "Fix the reported PSScriptAnalyzer findings or suppress them with a justification."
     run := Analyzer.flaggedRules },
   { id := "analyzer/new-error-rules", domain := "analyzer"
     title := "Common Tests - New Error-Level Script Analyzer Rules"
     description := "no error-level PSScriptAnalyzer findings from rules outside the known lists"
     budget := 1000, optIn := true, tools := ["pwsh", "PSScriptAnalyzer"]
     hint := "Fix the reported PSScriptAnalyzer findings."
     run := Analyzer.newErrorRules },
   { id := "analyzer/custom-rules", domain := "analyzer"
     title := "Common Tests - Custom Script Analyzer Rules"
     description := "parameter blocks follow the DSC style conventions", budget := 3000
     optIn := true, tools := []
     hint := "Start each parameter with [Parameter()] and write mandatory parameters as " ++
       "Mandatory = $true."
     run := Analyzer.parameterRules }]

def scriptChecks : List Check :=
  [{ id := "scripts/module-files-parse", domain := "scripts"
     title := "Common Tests - Validate Module Files"
     description := "module files parse without errors", budget := 60000
     optIn := true, tools := ["pwsh"], hint := "Fix the reported syntax errors."
     run := Parsing.modules },
   { id := "scripts/script-files-parse", domain := "scripts"
     title := "Common Tests - Validate Script Files"
     description := "script files parse without errors", budget := 60000
     optIn := true, tools := ["pwsh"], hint := "Fix the reported syntax errors."
     run := Parsing.scripts },
   { id := "examples/compile", domain := "examples"
     title := "Common Tests - Validate Example Files"
     description := "every example configuration compiles", budget := 300000
     optIn := true, tools := ["pwsh"]
     hint := "Make the example dot-sourceable and its configurations compile with the module on " ++
       "PSModulePath."
     run := Examples.compile }]

def otherChecks : List Check :=
  [{ id := "markdown/lint", domain := "markdown"
     title := "Common Tests - Validate Markdown Files"
     description := "markdown files pass markdownlint", budget := 300000
     optIn := true, tools := ["npm", "gulp", "markdownlint"]
     hint := "Fix the reported markdownlint rules."
     run := Markdown.lint },
   { id := "paths/relative-length", domain := "paths"
     title := "Common Tests - Relative Path Length"
     description := "relative file paths stay within the maximum length", budget := 1000
     optIn := true, tools := [], hint := "Shorten folder or file names."
     run := PathLength.relative }]

/-- All checks, in the order in which they run. -/
def all : List Check :=
  formattingChecks ++ manifestChecks ++ resourceChecks ++ analyzerChecks ++ scriptChecks ++
    otherChecks

/-- The name that stands for all domains. -/
def everyDomain : String := "all"

/-- The names of domains, sorted. -/
def domains : List String :=
  Text.Sorted.ofList (everyDomain :: all.map (·.domain))

/-- The complaint that a request is wrong. -/
def refusal (message kind : String) : Complaint := ⟨message, .usage, kind⟩

/-- The check with an identifier. -/
def find (id : String) : Except Complaint Check :=
  match all.find? fun check => check.id == id with
  | some check => .ok check
  | none => .error (refusal ("unknown check \x60" ++ id ++ "\x60") "unknown_check")

/-- The checks of a domain, only those with the given identifiers if there are any. -/
def select (domain : String) (ids : List String) : Except Complaint (List Check) := do
  if !domains.contains domain then
    throw (refusal ("unknown domain \x60" ++ domain ++ "\x60; expected one of " ++
      ", ".intercalate domains) "unknown_domain")
  let inDomain := all.filter fun check => domain == everyDomain || check.domain == domain
  if ids.isEmpty then return inDomain
  let wanted ← ids.mapM find
  return inDomain.filter fun check => wanted.any fun other => other.id == check.id

end DscAudit.Check

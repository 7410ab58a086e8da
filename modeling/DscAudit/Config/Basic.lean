import DscAudit.Value.Basic

/-!
# Configuration

What a module can configure, and what holds where it does not.
-/

namespace DscAudit

structure PowerShellConfig where
  executable : String
  timeout : Number

structure AnalyzerConfig where
  requiredRules : List String
  flaggedRules : List String
  ignoredRules : List String

structure MarkdownConfig where
  npm : String
  timeout : Number

structure Config where
  excludedDirectories : List String
  textExtensions : List String
  optIn : List String
  powershell : PowerShellConfig
  analyzer : AnalyzerConfig
  minPowerShellVersion : String
  maxPathLength : Number
  examplesDirectory : String
  markdown : MarkdownConfig
  source : String

namespace Config

def defaultRequiredRules : List String :=
  ["PSAvoidDefaultValueForMandatoryParameter", "PSAvoidDefaultValueSwitchParameter",
   "PSAvoidInvokingEmptyMembers", "PSAvoidNullOrEmptyHelpMessageAttribute",
   "PSAvoidUsingCmdletAliases", "PSAvoidUsingComputerNameHardcoded",
   "PSAvoidUsingDeprecatedManifestFields", "PSAvoidUsingEmptyCatchBlock",
   "PSAvoidUsingInvokeExpression", "PSAvoidUsingPositionalParameters",
   "PSAvoidShouldContinueWithoutForce", "PSAvoidUsingWMICmdlet", "PSAvoidUsingWriteHost",
   "PSDSCReturnCorrectTypesForDSCFunctions", "PSDSCStandardDSCFunctionsInResource",
   "PSDSCUseIdenticalMandatoryParametersForDSC", "PSDSCUseIdenticalParametersForDSC",
   "PSMissingModuleManifestField", "PSPossibleIncorrectComparisonWithNull", "PSProvideCommentHelp",
   "PSReservedCmdletChar", "PSReservedParams", "PSUseApprovedVerbs", "PSUseCmdletCorrectly",
   "PSUseOutputTypeCorrectly"]

def defaultFlaggedRules : List String :=
  ["PSAvoidGlobalVars", "PSAvoidUsingConvertToSecureStringWithPlainText",
   "PSAvoidUsingPlainTextForPassword", "PSAvoidUsingUsernameAndPasswordParams",
   "PSDSCUseVerboseMessageInDSCResource", "PSShouldProcess", "PSUseDeclaredVarsMoreThanAssignments",
   "PSUsePSCredentialType"]

def defaultIgnoredRules : List String := ["PSDSCDscExamplesPresent", "PSDSCDscTestsPresent"]

/-- The configuration where nothing is configured. -/
def default : Config where
  excludedDirectories := [".git", "node_modules", "DscResource.Tests", ".vscode", "output"]
  textExtensions :=
    [".gitignore", ".gitattributes", ".ps1", ".psm1", ".psd1", ".json", ".xml", ".cmd", ".mof"]
  optIn := []
  powershell := ⟨"pwsh", .int 600⟩
  analyzer := ⟨defaultRequiredRules, defaultFlaggedRules, defaultIgnoredRules⟩
  minPowerShellVersion := "4.0"
  maxPathLength := .int 129
  examplesDirectory := "Examples"
  markdown := ⟨"npm", .int 900⟩
  source := ""

/-- The sections and settings of the configuration. -/
def sections (config : Config) : Table :=
  [("exclude_dirs", .ofTexts config.excludedDirectories),
   ("text_extensions", .ofTexts config.textExtensions), ("opt_in", .ofTexts config.optIn),
   ("powershell", .table
     [("executable", .text config.powershell.executable),
      ("timeout_seconds", config.powershell.timeout.toValue)]),
   ("analyzer", .table
     [("required_rules", .ofTexts config.analyzer.requiredRules),
      ("flagged_rules", .ofTexts config.analyzer.flaggedRules),
      ("ignore_rules", .ofTexts config.analyzer.ignoredRules)]),
   ("manifest", .table [("min_powershell_version", .text config.minPowerShellVersion)]),
   ("paths", .table [("max_relative_length", config.maxPathLength.toValue)]),
   ("examples", .table [("directory", .text config.examplesDirectory)]),
   ("markdown", .table
     [("npm", .text config.markdown.npm), ("timeout_seconds", config.markdown.timeout.toValue)])]

/-- The configuration as a table, with its source. -/
def toValue (config : Config) : Value := .table (config.sections ++ [("source", .text config.source)])

end Config

end DscAudit

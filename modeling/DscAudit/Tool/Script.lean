/-!
# Scripts for PowerShell

Each script reads its inputs from environment variables and prints its result as one marked line.
-/

namespace DscAudit.Tool.Script

/-- Runs the script analyzer over a module, if it is installed. -/
def analyze : String := String.intercalate "\n"
  ["",
   "$ErrorActionPreference = \x27Stop\x27",
   "$module = Get-Module -ListAvailable -Name PSScriptAnalyzer | Select-Object -First 1",
   "if (-not $module) \x7b",
   "    $payload = @\x7b available = $false; records = @() \x7d",
   "\x7d",
   "else \x7b",
   "    Import-Module -Name PSScriptAnalyzer",
   "    $records = @(Invoke-ScriptAnalyzer -Path $env:DSCMETA_ROOT -Recurse | ForEach-Object \x7b",
   "        [ordered] @\x7b",
   "            RuleName   = $_.RuleName",
   "            Severity   = $_.Severity.ToString()",
   "            ScriptPath = $_.ScriptPath",
   "            Line       = $_.Line",
   "            Column     = $_.Column",
   "            Message    = $_.Message",
   "        \x7d",
   "    \x7d)",
   "    $payload = @\x7b available = $true; records = $records \x7d",
   "\x7d",
   "\x27##dscmeta-json:\x27 + (ConvertTo-Json -InputObject $payload -Depth 5 -Compress)",
   ""]

/-- Parses files and lists the errors in each. -/
def parse : String := String.intercalate "\n"
  ["",
   "$ErrorActionPreference = \x27Stop\x27",
   "$files = @($env:DSCMETA_FILES | ConvertFrom-Json)",
   "$results = @(foreach ($file in $files) \x7b",
   "    $tokens = $null",
   "    $parseErrors = $null",
   "    $null = [System.Management.Automation.Language.Parser]::ParseFile($file, [ref] $tokens, [ref] $parseErrors)",
   "    [ordered] @\x7b",
   "        path   = $file",
   "        errors = @($parseErrors | ForEach-Object \x7b",
   "            [ordered] @\x7b",
   "                line    = $_.Extent.StartLineNumber",
   "                column  = $_.Extent.StartColumnNumber",
   "                message = $_.Message",
   "            \x7d",
   "        \x7d)",
   "    \x7d",
   "\x7d)",
   "\x27##dscmeta-json:\x27 + (ConvertTo-Json -InputObject $results -Depth 5 -Compress)",
   ""]

/-- Compiles the configurations of example files. -/
def compile : String := String.intercalate "\n"
  ["",
   "$ErrorActionPreference = \x27Stop\x27",
   "$env:PSModulePath = $env:DSCMETA_MODULE_PARENT + [System.IO.Path]::PathSeparator + $env:PSModulePath",
   "$files = @($env:DSCMETA_FILES | ConvertFrom-Json)",
   "$configurationData = @\x7b",
   "    AllNodes = @(",
   "        @\x7b",
   "            NodeName                    = \x27localhost\x27",
   "            PSDscAllowPlainTextPassword = $true",
   "            PSDscAllowDomainUser        = $true",
   "        \x7d",
   "    )",
   "\x7d",
   "$results = @(foreach ($file in $files) \x7b",
   "    $outputPath = Join-Path -Path $env:DSCMETA_OUTPUT -ChildPath ([System.IO.Path]::GetFileNameWithoutExtension($file))",
   "    try \x7b",
   "        $before = @(Get-Command -CommandType Configuration -ErrorAction SilentlyContinue | ForEach-Object -MemberName Name)",
   "        . $file",
   "        $configurations = @(Get-Command -CommandType Configuration -ErrorAction SilentlyContinue |",
   "            Where-Object -FilterScript \x7b $before -notcontains $_.Name \x7d)",
   "        foreach ($configuration in $configurations) \x7b",
   "            $null = & $configuration.Name -OutputPath $outputPath -ConfigurationData $configurationData",
   "        \x7d",
   "        [ordered] @\x7b path = $file; status = \x27pass\x27; configurations = @($configurations | ForEach-Object -MemberName Name); error = \x27\x27 \x7d",
   "    \x7d",
   "    catch \x7b",
   "        [ordered] @\x7b path = $file; status = \x27fail\x27; configurations = @(); error = $_.Exception.Message \x7d",
   "    \x7d",
   "\x7d)",
   "\x27##dscmeta-json:\x27 + (ConvertTo-Json -InputObject $results -Depth 5 -Compress)",
   ""]

end DscAudit.Tool.Script

import DscAudit.Check.Basic
import DscAudit.Manifest.Entry

/-!
# Checks of the manifest

The module has a manifest with a version, an identifier, an author and a description, and it demands
a version of PowerShell that is high enough.
-/

namespace DscAudit.Check.Manifest

open DscAudit.Manifest

/-- The content of the manifest, which is read once. -/
def content (subject : Subject) : Checking Content := do
  let findings ← get
  match findings.manifest with
  | some content => return content
  | none =>
    let content ← Content.load subject.root
    set { findings with manifest := some content }
    return content

def present (subject : Subject) : Checking Outcome := do
  let candidates ← candidates subject.root
  let moduleName := subject.root.name
  let missing (message : String) : Outcome := .found [.ofModule "MANIFEST_MISSING" message] []
  match choose? moduleName candidates with
  | some name => return .found [] [("manifest", .text name)]
  | none =>
    if candidates.isEmpty then
      return missing ("module manifest " ++ moduleName ++ ".psd1 not found in the module root")
    else
      return missing ("cannot choose a module manifest among " ++ ", ".intercalate candidates ++
        "; expected " ++ moduleName ++ ".psd1")

/-- What is missing or invalid in a manifest. -/
inductive Fault where
  | missing (field : String)
  | invalid (field : String) (value : Value) (wanted : String)
  | empty (field : String)

def Fault.code : Fault → String
  | missing _ => "MANIFEST_FIELD_MISSING"
  | invalid _ _ _ => "MANIFEST_FIELD_INVALID"
  | empty _ => "MANIFEST_FIELD_MISSING"

def Fault.message : Fault → String
  | missing field => field ++ " is missing"
  | invalid field value wanted => field ++ " \x60" ++ value.plain ++ "\x60 is not a valid " ++ wanted
  | empty field => field ++ " is missing or empty"

/-- What a table has under a key in any case, unless it is nothing. -/
def field? (table : Table) (key : String) : Option Value :=
  match DataFile.lookup? table key with
  | some .null => none
  | found => found

/-- The fault of a field whose text has to be valid. -/
def fieldFault? (table : Table) (key wanted : String) (isValid : List Char → Bool) : Option Fault :=
  match field? table key with
  | none => some (.missing key)
  | some value => if isValid value.plain.toList then none else some (.invalid key value wanted)

/-- The fault of a field that has to be a text with something in it. -/
def textFault? (table : Table) (key : String) : Option Fault :=
  match field? table key with
  | some (.text s) => if (Text.trim s.toList).isEmpty then some (.empty key) else none
  | _ => some (.empty key)

/-- The faults of a manifest. -/
def faults (table : Table) : List Fault :=
  [fieldFault? table "ModuleVersion" "version" fun s => (Version.read? s).isSome,
   fieldFault? table "GUID" "GUID" Identifier.isValid,
   textFault? table "Author", textFault? table "Description"].filterMap fun fault => fault

def valid (subject : Subject) : Checking Outcome := do
  match ← content subject with
  | .absent => return .skip "no module manifest"
  | .unreadable name reason =>
    return .found [.ofFile "MANIFEST_PARSE_ERROR" ("manifest cannot be read: " ++ reason) name] []
  | .entries name table =>
    return .found ((faults table).map fun fault => .ofFile fault.code fault.message name) []

/-- The outcome for the version of PowerShell that a manifest demands, if it does. -/
def versionOutcome (name minimum : String) : Option Value → Outcome
  | none => .found [.ofFile "MANIFEST_PSVERSION_MISSING" "PowerShellVersion is missing" name] []
  | some value =>
    match Version.read? value.plain.toList with
    | none =>
      .found [.ofFile "MANIFEST_PSVERSION_INVALID"
        ("PowerShellVersion \x60" ++ value.plain ++ "\x60 is not a valid version") name] []
    | some version =>
      if version.isLower ((Version.read? minimum.toList).getD [0, 0]) then
        .found [.ofFile "MANIFEST_PSVERSION_TOO_LOW" ("PowerShellVersion " ++ value.plain ++
          " is lower than the required " ++ minimum) name] []
      else .found [] [("powershell_version", .text value.plain)]

def powerShellVersion (subject : Subject) : Checking Outcome := do
  match ← content subject with
  | .entries name table =>
    return versionOutcome name subject.config.minPowerShellVersion (field? table "PowerShellVersion")
  | _ => return .skip "no readable module manifest"

end DscAudit.Check.Manifest

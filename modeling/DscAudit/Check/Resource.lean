import DscAudit.Check.Basic
import DscAudit.Resource.Module
import DscAudit.Resource.Schema

/-!
# Checks of resources

Every resource has a directory with a module and a schema.  The schema declares a versioned class
with a key, the module defines and exports the three functions of a resource.
-/

namespace DscAudit.Check.Resource

open DscAudit.Resource

/-- The directory that holds the resources, if the module has one. -/
def container? (root : Path) : Action (Option String) := do
  let names ← File.namesIn root File.isDirectoryNode
  return names.find? fun name => Text.lowerString name == "dscresources"

/-- The directories of resources, relative to the module. -/
def directories (root : Path) : Action (List Path) := do
  match ← container? root with
  | none => return []
  | some container =>
    let path : Path := ⟨.relative, [container]⟩
    return (← File.namesIn (root.join path) File.isDirectoryNode).map path.child

/-- The file of a resource that has its name and a suffix. -/
def file (directory : Path) (suffix : String) : Path := directory.child (directory.name ++ suffix)

/-- The directories whose resources have a file with a suffix. -/
def directoriesWith (subject : Subject) (suffix : String) : Action (List Path) := do
  (← directories subject.root).filterM fun directory =>
    Action.isFile (subject.path (file directory suffix))

def moduleSuffix : String := ".psm1"

def schemaSuffix : String := ".schema.mof"

def filesPresent (subject : Subject) : Checking Outcome := do
  let directories ← directories subject.root
  if directories.isEmpty then return .skip "no DSCResources directory with resources"
  let violations ← directories.mapM fun directory => do
    let missing ← [moduleSuffix, schemaSuffix].filterM fun suffix => do
      return !(← Action.isFile (subject.path (file directory suffix)))
    return missing.map fun suffix =>
      Violation.ofFile "RESOURCE_FILE_MISSING" ("missing " ++ directory.name ++ suffix)
        directory.toString
  return .found violations.flatten [("resources", .int directories.length)]

/-- The text of a file in the encoding that it is marked with. -/
def readText (path : Path) : Action (List Char) := do
  return Text.decodeMarked (← Action.readFile path)

def schemaValid (subject : Subject) : Checking Outcome := do
  let directories ← directoriesWith subject schemaSuffix
  if directories.isEmpty then return .skip "no resource schema files"
  let violations ← directories.mapM fun directory => do
    let path := file directory schemaSuffix
    let problems := Schema.problems (← readText (subject.path path)) directory.name
    return problems.map fun problem =>
      Violation.ofFile "RESOURCE_SCHEMA_INVALID" problem.message path.toString
  return .found violations.flatten [("schemas", .int directories.length)]

/-- The violation of a module that does not define a function or does not export it. -/
def functionViolation? (text : List Char) (path name : String) : Option Violation :=
  let defined := (Module.definitions text).map Text.lower
  if !defined.contains (Text.lower name.toList) then
    some (.ofFile "RESOURCE_FUNCTION_MISSING" (name ++ " is not defined") path)
  else if !Module.exports text name then
    some (.ofFile "RESOURCE_FUNCTION_NOT_EXPORTED" (name ++ " is not exported") path)
  else none

def functions (subject : Subject) : Checking Outcome := do
  let directories ← directoriesWith subject moduleSuffix
  if directories.isEmpty then return .skip "no resource modules"
  let violations ← directories.mapM fun directory => do
    let path := file directory moduleSuffix
    let text ← readText (subject.path path)
    return Module.targetFunctions.filterMap (functionViolation? text path.toString)
  return .found violations.flatten [("modules", .int directories.length)]

end DscAudit.Check.Resource

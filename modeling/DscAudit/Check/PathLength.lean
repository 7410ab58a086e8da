import DscAudit.Check.Basic

/-!
# The check that paths are not too long

A path is measured from the directory of the module on, whose name counts.
-/

namespace DscAudit.Check.PathLength

/-- The length of a path within a module with a name. -/
def length (moduleName : String) (path : Path) : Nat := (moduleName ++ "/" ++ path.toString).length

/-- The violation of a path that is longer than the limit. -/
def violation? (moduleName : String) (limit : Number) (path : Path) : Option Violation :=
  let length := length moduleName path
  if limit.isLess length then
    some (.ofFile "PATH_TOO_LONG" ("relative path is " ++ toString length ++
      " characters; the limit is " ++ limit.text) path.toString)
  else none

def relative (subject : Subject) : Checking Outcome := do
  let files ← File.all subject.root subject.config.excludedDirectories
  let moduleName := subject.root.name
  let limit := subject.config.maxPathLength
  let longest := (files.map (length moduleName)).foldl max 0
  return .found (files.filterMap (violation? moduleName limit))
    [("longest", .int longest), ("limit", limit.toValue)]

end DscAudit.Check.PathLength

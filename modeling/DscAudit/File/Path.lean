import DscAudit.Text.Infix

/-!
# Paths

A path is a root, or none if it is relative, and parts.  Empty parts and single points are left out
when a path is read; a double point is kept, because the part before it need not be a directory.
-/

namespace DscAudit

/-- How a path starts.  Two slashes are a root of their own; more count as one. -/
inductive PathRoot where
  | relative
  | slash
  | twoSlashes
  deriving DecidableEq, Repr, Inhabited

def PathRoot.text : PathRoot → String
  | relative => ""
  | slash => "/"
  | twoSlashes => "//"

structure Path where
  root : PathRoot
  parts : List String
  deriving DecidableEq, Repr, Inhabited

namespace Path

/-- The root that a text starts with. -/
def rootOf : List Char → PathRoot
  | '/' :: '/' :: '/' :: _ => .slash
  | '/' :: '/' :: _ => .twoSlashes
  | '/' :: _ => .slash
  | _ => .relative

/-- The path that a text writes. -/
def ofString (s : String) : Path :=
  let pieces := (Text.splitAt '/' s.toList).map String.ofList
  ⟨rootOf s.toList, pieces.filter fun piece => piece ≠ "" && piece ≠ "."⟩

/-- The path with slashes between its parts.  The empty relative path is a point. -/
protected def toString (path : Path) : String :=
  if path.root = .relative && path.parts.isEmpty then "."
  else path.root.text ++ "/".intercalate path.parts

instance : ToString Path := ⟨Path.toString⟩

def isAbsolute (path : Path) : Bool := path.root != .relative

/-- The components of a path, its root being one. -/
def components (path : Path) : List String :=
  match path.root with
  | .relative => path.parts
  | root => root.text :: path.parts

/-- The last part, empty if there is none. -/
def name (path : Path) : String := path.parts.getLast?.getD ""

/-- The directory that holds what the path names. -/
def parent (path : Path) : Path := { path with parts := path.parts.dropLast }

/-- The path followed from another one.  An absolute path stands for itself. -/
def join (base path : Path) : Path :=
  if path.isAbsolute then path else { base with parts := base.parts ++ path.parts }

/-- The path of a child. -/
def child (path : Path) (name : String) : Path := { path with parts := path.parts ++ [name] }

/-- The base and the suffix of a name: the suffix starts at the last point, unless that is the first
or the last character. -/
def splitName (name : String) : String × String :=
  let backwards := name.toList.reverse
  let suffix := backwards.takeWhile (· != '.')
  match backwards.dropWhile (· != '.') with
  | _ :: stem =>
    if suffix.isEmpty || stem.isEmpty then (name, "")
    else (String.ofList stem.reverse, String.ofList ('.' :: suffix.reverse))
  | [] => (name, "")

def stem (path : Path) : String := (splitName path.name).1

def suffix (path : Path) : String := (splitName path.name).2

/-- What is left of a path behind another one. -/
def relativeTo? (path base : Path) : Option Path :=
  if base.components.isPrefixOf path.components then
    some ⟨.relative, path.components.drop base.components.length⟩
  else none

/-- Is the path the same as another one or below it? -/
def isWithin (path base : Path) : Bool := base.components.isPrefixOf path.components

/-- Parts with each double point taken away together with the part before it. -/
def collapse (parts : List String) : List String :=
  parts.foldl (fun done part => if part = ".." then done.dropLast else done ++ [part]) []

/-- The absolute path with no double points, relative paths being followed from a directory. -/
def resolve (path directory : Path) : Path := ⟨.slash, collapse (directory.join path).parts⟩

/-- Does the path hold the character that no file name can? -/
def hasNull (path : Path) : Bool := path.parts.any fun part => part.toList.contains '\x00'

/-- The order of paths: component by component. -/
def precedes (a b : Path) : Bool :=
  !(b.components.lex a.components fun s t => decide (s < t))

/-- Is one of the directories on a relative path among the excluded ones? -/
def isExcluded (excluded : List String) (path : Path) : Bool :=
  path.components.dropLast.any excluded.contains

theorem collapse_append_part {parts : List String} {part : String} (h : part ≠ "..") :
    collapse (parts ++ [part]) = collapse parts ++ [part] := by
  simp [collapse, h]

theorem isAbsolute_resolve (path directory : Path) : (path.resolve directory).isAbsolute = true := rfl

theorem relativeTo?_eq_none_iff {path base : Path} :
    path.relativeTo? base = none ↔ path.isWithin base = false := by
  simp only [relativeTo?, isWithin, ite_eq_right_iff, reduceCtorEq, imp_false, Bool.not_eq_true]

end Path

end DscAudit

import DscAudit.Value.Basic

/-!
# Shapes of data

A shape is a list of rules on a datum and its parts.  Checking gives every problem with its place; the
one that is reported is the outermost, and of several at the same depth the one at the last place, a
wrong kind before all others.
-/

namespace DscAudit

/-- The kinds of data. -/
inductive Kind where
  | object
  | array
  | string
  | integer
  | boolean
  deriving DecidableEq

namespace Kind

def name : Kind → String
  | object => "object"
  | array => "array"
  | string => "string"
  | integer => "integer"
  | boolean => "boolean"

/-- Is the datum of the kind?  A whole floating point number is an integer, a truth value is not. -/
def holds (kind : Kind) (datum : Datum) : Bool :=
  match kind, datum.opened with
  | object, .table _ => true
  | array, .list _ => true
  | string, .text _ => true
  | integer, .int _ => true
  | integer, .float x => x.isWhole
  | boolean, .bool _ => true
  | _, _ => false

end Kind

/-- A pattern: its text, and the strings in which it occurs. -/
structure Pattern where
  text : String
  occursIn : List Char → Bool

mutual

/-- Rules on a datum, in the order in which they are checked. -/
inductive Shape where
  | ofRules (rules : List ShapeRule)

/-- A rule on a datum.  All but the first and those on single values hold of data of other kinds. -/
inductive ShapeRule where
  | kind (kind : Kind)
  | onlyKeys (names : List String)
  | hasKeys (names : List String)
  | entries (shapes : List (String × Shape))
  | items (shape : Shape)
  | nonEmpty
  | matching (pattern : Pattern)
  | atLeast (minimum : Int)
  | oneOf (texts : List String)
  | textIs (text : String)
  | numberIs (number : Int)

end

/-- A step from a datum to one of its parts. -/
inductive Step where
  | key (name : String)
  | index (index : Nat)
  deriving DecidableEq

namespace Step

def text : Step → String
  | key name => name
  | index i => toString i

/-- The order of steps from one datum. -/
def compareTo : Step → Step → Ordering
  | key a, key b => compare a b
  | index a, index b => compare a b
  | key _, index _ => .gt
  | index _, key _ => .lt

end Step

/-- What is wrong at a place, and whether the datum there has the kind that it should have. -/
structure Problem where
  path : List Step
  message : String
  rightKind : Bool

namespace Problem

/-- The order of places, part by part. -/
def comparePaths : List Step → List Step → Ordering
  | [], [] => .eq
  | [], _ :: _ => .lt
  | _ :: _, [] => .gt
  | a :: as, b :: bs => (a.compareTo b).then (comparePaths as bs)

/-- Is the first problem reported rather than the second one, which comes before it? -/
def outranks (a b : Problem) : Bool :=
  let depths := compare b.path.length a.path.length
  let kinds := compare b.rightKind a.rightKind
  ((depths.then (comparePaths a.path b.path)).then kinds) == .gt

/-- The problem that is reported. -/
def worst? : List Problem → Option Problem
  | [] => none
  | first :: rest =>
    some (rest.foldl (fun best problem => if problem.outranks best then problem else best) first)

/-- The place of the problem. -/
def place (problem : Problem) : String :=
  if problem.path.isEmpty then "<root>" else "/".intercalate (problem.path.map Step.text)

end Problem

namespace Shape

/-- Data of a kind that obey more rules. -/
def ofKind (kind : Kind) (rules : List ShapeRule) : Shape := .ofRules (.kind kind :: rules)

def anyText : Shape := ofKind .string []

def listOf (shape : Shape) : Shape := ofKind .array [.items shape]

/-- A mapping that may have the given entries and no others. -/
def group (entries : List (String × Shape)) : Shape :=
  ofKind .object [.onlyKeys (entries.map (·.1)), .entries entries]

/-- A mapping that has the given entries and no others. -/
def record (entries : List (String × Shape)) : Shape :=
  ofKind .object [.onlyKeys (entries.map (·.1)), .hasKeys (entries.map (·.1)), .entries entries]

/-- Does the datum have the kind that the rules demand?  It does not if they demand none. -/
def hasRightKind (datum : Datum) : List ShapeRule → Bool
  | [] => false
  | .kind kind :: _ => kind.holds datum
  | _ :: rules => hasRightKind datum rules

/-- Data as a message lists them. -/
def listing (texts : List String) : String :=
  ", ".intercalate (texts.map Text.Quoted.encodeString)

/-- The keys that are not among the given ones, in the order of their texts. -/
def otherKeys (names : List String) (entries : List (Datum × Datum)) : List Datum :=
  let extra := entries.filterMap fun entry =>
    match entry.1 with
    | .text s => if names.contains s then none else some entry.1
    | key => some key
  extra.mergeSort fun a b => decide (a.plain ≤ b.plain)

/-- What is wrong with a datum by itself. -/
def ownProblem? (datum : Datum) : ShapeRule → Option String
  | .kind kind =>
    if kind.holds datum then none
    else some (datum.literal ++ " is not of type \x27" ++ kind.name ++ "\x27")
  | .onlyKeys names =>
    match datum.opened with
    | .table entries =>
      match otherKeys names entries with
      | [] => none
      | [key] =>
        some ("Additional properties are not allowed (" ++ key.literal ++ " was unexpected)")
      | keys =>
        some ("Additional properties are not allowed (" ++ ", ".intercalate (keys.map Datum.literal) ++
          " were unexpected)")
    | _ => none
  | .nonEmpty =>
    match datum with
    | .text s => if s.isEmpty then some (datum.literal ++ " should be non-empty") else none
    | _ => none
  | .matching pattern =>
    match datum with
    | .text s =>
      if pattern.occursIn s.toList then none
      else some (datum.literal ++ " does not match " ++ Text.Quoted.encodeString pattern.text)
    | _ => none
  | .atLeast minimum =>
    let message := datum.literal ++ " is less than the minimum of " ++
      String.ofList (integerText minimum)
    match datum with
    | .int n => if n < minimum then some message else none
    | .float x => if x.ltInt minimum then some message else none
    | _ => none
  | .oneOf texts =>
    let message := datum.literal ++ " is not one of [" ++ listing texts ++ "]"
    match datum with
    | .text s => if texts.contains s then none else some message
    | _ => some message
  | .textIs text =>
    let message := Text.Quoted.encodeString text ++ " was expected"
    match datum with
    | .text s => if s = text then none else some message
    | _ => some message
  | .numberIs number =>
    let message := String.ofList (integerText number) ++ " was expected"
    match datum with
    | .int n => if n = number then none else some message
    | _ => some message
  | _ => none

/-- The keys that are missing. -/
def missingKeys (datum : Datum) (names : List String) : List String :=
  match datum.opened with
  | .table entries => names.filter fun name => (Datum.find? name entries).isNone
  | _ => []

mutual

/-- The problems of a datum at a place and of its parts. -/
def problemsAt (path : List Step) (datum : Datum) : Shape → List Problem
  | .ofRules rules => ruleProblems path datum (hasRightKind datum rules) rules

def ruleProblems (path : List Step) (datum : Datum) (rightKind : Bool) :
    List ShapeRule → List Problem
  | [] => []
  | rule :: rules =>
    oneRuleProblems path datum rightKind rule ++ ruleProblems path datum rightKind rules

def oneRuleProblems (path : List Step) (datum : Datum) (rightKind : Bool) :
    ShapeRule → List Problem
  | .hasKeys names =>
    (missingKeys datum names).map fun name =>
      ⟨path, Text.Quoted.encodeString name ++ " is a required property", rightKind⟩
  | .entries shapes => entryProblems path datum shapes
  | .items shape =>
    match datum.opened with
    | .list items => items.zipIdx.flatMap fun item => problemsAt (path ++ [.index item.2]) item.1 shape
    | _ => []
  | rule => (ownProblem? datum rule).toList.map fun message => ⟨path, message, rightKind⟩

def entryProblems (path : List Step) (datum : Datum) : List (String × Shape) → List Problem
  | [] => []
  | entry :: entries =>
    (match datum.get? entry.1 with
      | some part => problemsAt (path ++ [.key entry.1]) part entry.2
      | none => []) ++
    entryProblems path datum entries

end

/-! ## Depth -/

mutual

/-- How many levels of parts of a datum the rules of a shape look at. -/
def depth : Shape → Nat
  | .ofRules rules => rulesDepth rules

def rulesDepth : List ShapeRule → Nat
  | [] => 0
  | rule :: rules => max (oneRuleDepth rule) (rulesDepth rules)

def oneRuleDepth : ShapeRule → Nat
  | .onlyKeys _ => 1
  | .hasKeys _ => 1
  | .entries shapes => entriesDepth shapes + 1
  | .items shape => depth shape + 1
  | _ => 0

def entriesDepth : List (String × Shape) → Nat
  | [] => 0
  | entry :: entries => max (depth entry.2) (entriesDepth entries)

end

/-- The problems of a datum. -/
def problems (shape : Shape) (datum : Datum) : List Problem := problemsAt [] datum shape

end Shape

end DscAudit

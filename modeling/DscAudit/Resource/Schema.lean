import DscAudit.Text.CharacterClass
import DscAudit.Text.Digit
import DscAudit.Text.LetterCase

/-!
# Resource schemas

A schema file declares the class of a resource: its qualifiers in square brackets, its name, the class
that it derives from, and its properties.  The class has the name of the resource folder, a version
and a friendly name, derives from the base class of resources, and has a property qualified as a key.
-/

namespace DscAudit.Resource.Schema

open Text

/-- The text behind the end of a block comment. -/
def afterComment? : List Char → Option (List Char)
  | [] => none
  | '*' :: '/' :: rest => some rest
  | _ :: rest => afterComment? rest

theorem afterComment?_length {s rest : List Char} (h : afterComment? s = some rest) :
    rest.length < s.length := by
  fun_induction afterComment? s with
  | case1 => cases h
  | case2 =>
    cases h
    simp only [List.length_cons]
    omega
  | case3 c s _ ih => exact Nat.lt_succ_of_lt (ih h)

/-- The text without its comments.  An opening mark that nothing closes is no comment. -/
def withoutComments (s : List Char) : List Char :=
  match s with
  | [] => []
  | '/' :: '/' :: rest => withoutComments (rest.dropWhile (· != '\n'))
  | '/' :: '*' :: rest =>
    match _h : afterComment? rest with
    | some behind => withoutComments behind
    | none => '/' :: withoutComments ('*' :: rest)
  | c :: rest => c :: withoutComments rest
termination_by s.length
decreasing_by
  · have := (List.dropWhile_sublist (· != '\n') (l := rest)).length_le
    simp only [List.length_cons]
    omega
  · have := afterComment?_length _h
    simp only [List.length_cons]
    omega
  · simp
  · simp

/-- The longest word that a text starts with, unless it is empty, and the text behind it. -/
def spanWord? (s : List Char) : Option (List Char × List Char) :=
  let word := s.takeWhile isWordChar
  if word.isEmpty then none else some (word, s.dropWhile isWordChar)

/-- The text behind a character, blanks before it skipped. -/
def afterMark? (mark : Char) (s : List Char) : Option (List Char) :=
  match trimStart s with
  | c :: rest => if c = mark then some rest else none
  | [] => none

/-- What stands between square brackets, and the text behind the closing one. -/
def bracketed? : List Char → Option (List Char × List Char)
  | '[' :: rest =>
    match rest.dropWhile (· != ']') with
    | _ :: behind => some (rest.takeWhile (· != ']'), behind)
    | [] => none
  | _ => none

/-- A class declaration: the text of its qualifiers, its name, the name of its base class if it has
one, and the text behind. -/
structure ClassDeclaration where
  qualifiers : List Char
  name : List Char
  base : List Char
  rest : List Char

/-- The base class behind a colon, and the text behind it. -/
def base? (s : List Char) : Option (List Char × List Char) := do
  let rest ← afterMark? ':' s
  spanWord? (trimStart rest)

/-- The class declaration that a text starts with. -/
def classHere? (s : List Char) : Option ClassDeclaration := do
  let (qualifiers, rest) ← bracketed? s
  let rest ← afterWord? "class".toList (trimStart rest)
  let rest ← afterBlanks? rest
  let (name, rest) ← spanWord? rest
  return match base? rest with
    | some (base, rest) => ⟨qualifiers, name, base, rest⟩
    | none => ⟨qualifiers, name, [], trimStart rest⟩

/-- The first class declaration in a text. -/
def class? : List Char → Option ClassDeclaration
  | [] => none
  | c :: rest => (classHere? (c :: rest)).or (class? rest)

/-- What a qualifier has between its round brackets and quotes, if the text starts with it: the
characters that `allowed` admits, at least one. -/
def quoted? (keyword : List Char) (allowed : Char → Bool) (s : List Char) : Option (List Char) := do
  let rest ← afterWord? keyword s
  let rest ← afterMark? '(' rest
  let rest ← afterMark? '"' rest
  let content := rest.takeWhile allowed
  match rest.dropWhile allowed with
  | '"' :: rest => do
    let _ ← afterMark? ')' rest
    if content.isEmpty then none else return content
  | _ => none

/-- Is there a qualifier of this kind, not within a longer word?  The character before the text is
`previous`. -/
def hasQualifier (keyword : List Char) (allowed : Char → Bool) (previous : Option Char) :
    List Char → Bool
  | [] => false
  | c :: rest =>
    (!previous.any isWordChar && (quoted? keyword allowed (c :: rest)).isSome) ||
      hasQualifier keyword allowed (some c) rest

/-- A version is digits and points between quotes. -/
def hasVersion (qualifiers : List Char) : Bool :=
  hasQualifier "classversion".toList (fun c => isDigit c || c == '.') none qualifiers

/-- A friendly name is any text between quotes. -/
def hasFriendlyName (qualifiers : List Char) : Bool :=
  hasQualifier "friendlyname".toList (· != '"') none qualifiers

/-- Is the qualifier that a text starts with the one for keys? -/
def startsKey (s : List Char) : Bool :=
  match afterWord? "key".toList (trimStart s) with
  | some (c :: _) => !isWordChar c
  | some [] => true
  | none => false

/-- Is one of the qualifiers, which commas separate, the one for keys? -/
def hasKey : List Char → Bool
  | [] => false
  | ',' :: rest => startsKey rest || hasKey rest
  | _ :: rest => hasKey rest

/-- Does a text start with a type, which may be an array, and a name? -/
def startsProperty (s : List Char) : Bool :=
  match spanWord? (trimStart s) with
  | none => false
  | some (_, rest) =>
    let rest := match rest with
      | '[' :: ']' :: rest => rest
      | rest => rest
    match afterBlanks? rest with
    | some (c :: _) => isWordChar c
    | _ => false

/-- Does a text start with a property that is a key? -/
def isKeyProperty (s : List Char) : Bool :=
  match bracketed? s with
  | some (qualifiers, rest) => (startsKey qualifiers || hasKey qualifiers) && startsProperty rest
  | none => false

/-- Is some property a key? -/
def hasKeyProperty : List Char → Bool
  | [] => false
  | c :: rest => isKeyProperty (c :: rest) || hasKeyProperty rest

/-- What is wrong with a schema. -/
inductive Problem where
  | noClass
  | wrongName (name resource : String)
  | wrongBase
  | noVersion
  | noFriendlyName
  | noKey
  deriving DecidableEq

def Problem.message : Problem → String
  | noClass => "no qualified class declaration found"
  | wrongName name resource =>
    "class name \x60" ++ name ++ "\x60 does not match the resource folder \x60" ++ resource ++ "\x60"
  | wrongBase => "class must derive from OMI_BaseResource"
  | noVersion => "class is missing a ClassVersion qualifier"
  | noFriendlyName => "class is missing a FriendlyName qualifier"
  | noKey => "class has no property qualified as Key"

/-- What is wrong with the schema of a resource. -/
def problems (text : List Char) (resource : String) : List Problem :=
  match class? (withoutComments text) with
  | none => [.noClass]
  | some found =>
    let name := String.ofList found.name
    (if name ≠ resource then [.wrongName name resource] else []) ++
    (if lower found.base ≠ "omi_baseresource".toList then [.wrongBase] else []) ++
    (if hasVersion found.qualifiers then [] else [.noVersion]) ++
    (if hasFriendlyName found.qualifiers then [] else [.noFriendlyName]) ++
    (if hasKeyProperty found.rest then [] else [.noKey])

end DscAudit.Resource.Schema

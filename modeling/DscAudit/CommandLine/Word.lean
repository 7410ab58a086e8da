import DscAudit.CommandLine.Grammar
import DscAudit.Text.Digit
import DscAudit.Text.Infix

/-!
# Words of the command line

A word is an option of the level or an operand.  The name of an option may be shortened as long as it
is that of no other option, and a value may follow it behind an equals sign.  Behind two hyphens all
words are operands.
-/

namespace DscAudit.CommandLine

inductive WordKind where
  | operand
  /-- Two hyphens, behind which there are no options. -/
  | separator
  | option (opt : Opt) (attached : Option String)
  | unknown

structure Word where
  text : String
  kind : WordKind

/-- The option that has a name. -/
def findOption? (options : List Opt) (name : String) : Option Opt :=
  options.find? fun opt => opt.names.contains name

/-- A word before and behind its first equals sign. -/
def splitEquals? (word : String) : Option (String × String) :=
  match word.toList.dropWhile (· != '=') with
  | _ :: behind => some (String.ofList (word.toList.takeWhile (· != '=')), String.ofList behind)
  | [] => none

/-- An option that a shortened word may mean, by one of its names, and the value attached to it. -/
structure Candidate where
  opt : Opt
  name : String
  attached : Option String

/-- The names of options that start like a word. -/
def startingLike (options : List Opt) (start : String) (attached : Option String) : List Candidate :=
  options.flatMap fun opt =>
    (opt.names.filter fun name => start.toList.isPrefixOf name.toList).map fun name =>
      ⟨opt, name, attached⟩

/-- The options that a word may mean that is no name of an option. -/
def candidates (options : List Opt) (word : String) : List Candidate :=
  match word.toList with
  | '-' :: '-' :: _ =>
    match splitEquals? word with
    | some (start, value) => startingLike options start (some value)
    | none => startingLike options word none
  | '-' :: c :: rest =>
    options.flatMap fun opt => opt.names.filterMap fun name =>
      if name.toList = ['-', c] then some ⟨opt, name, some (String.ofList rest)⟩
      else if word.toList.isPrefixOf name.toList then some ⟨opt, name, none⟩
      else none
  | _ => []

/-- Digits, or digits with a point before the last of them; a line feed may end them. -/
def isUnsignedNumber (s : List Char) : Bool :=
  let bare := if s.getLast? = some '\n' then s.dropLast else s
  let behind := bare.dropWhile Text.isDigit
  (!bare.isEmpty && behind.isEmpty) ||
    (behind.head? == some '.' && !(behind.drop 1).isEmpty && (behind.drop 1).all Text.isDigit)

def isNegativeNumber (word : String) : Bool :=
  match word.toList with
  | '-' :: rest => isUnsignedNumber rest
  | _ => false

/-- The kind of a word that starts with a hyphen and is no name of an option. -/
def guessKind (options : List Opt) (word : String) : Except Problem WordKind :=
  match candidates options word with
  | [candidate] => .ok (.option candidate.opt candidate.attached)
  | _ :: _ :: _ =>
    .error (.ambiguous word ((candidates options word).map fun candidate => candidate.name))
  | [] => .ok (if isNegativeNumber word || word.toList.contains ' ' then .operand else .unknown)

/-- The kind of a word before two hyphens have come. -/
def kindOf (options : List Opt) (word : String) : Except Problem WordKind :=
  if word.toList.head? ≠ some '-' then .ok .operand
  else
    match findOption? options word with
    | some opt => .ok (.option opt none)
    | none =>
      if word = "-" then .ok .operand
      else
        match splitEquals? word with
        | some (name, value) =>
          match findOption? options name with
          | some opt => .ok (.option opt (some value))
          | none => guessKind options word
        | none => guessKind options word

/-- The words of a level. -/
def words (options : List Opt) : List String → Except Problem (List Word)
  | [] => .ok []
  | text :: rest =>
    if text = "--" then .ok (⟨text, .separator⟩ :: rest.map fun text => ⟨text, .operand⟩)
    else do
      let kind ← kindOf options text
      return ⟨text, kind⟩ :: (← words options rest)

theorem length_words {options : List Opt} {texts : List String} {found : List Word}
    (h : words options texts = .ok found) : found.length = texts.length := by
  induction texts generalizing found with
  | nil =>
    cases h
    rfl
  | cons text rest ih =>
    simp only [words] at h
    split at h
    · cases h
      simp
    · cases hk : kindOf options text with
      | error problem =>
        rw [hk] at h
        cases h
      | ok kind =>
        cases hw : words options rest with
        | error problem =>
          rw [hk, hw] at h
          cases h
        | ok more =>
          rw [hk, hw] at h
          cases h
          simp [ih hw]

end DscAudit.CommandLine

import DscAudit.PowerShell.Bracket
import DscAudit.Text.CharacterClass
import DscAudit.Text.Infix
import DscAudit.Text.LetterCase

/-!
# Resource modules

The module of a resource defines three functions and exports them.  A function is defined by the
keyword `function` at the start of a line, blanks apart.  An export is a call of `Export-ModuleMember`
with the rest of its line, and farther if a round bracket that opens there closes on a later line.
-/

namespace DscAudit.Resource.Module

open Text

/-- The characters of a function name. -/
def isNamePart (c : Char) : Bool := isWordChar c || c == '-'

/-- The function name behind its keyword and at least one blank, and the text behind it. -/
def definition? (s : List Char) : Option (List Char × List Char) :=
  match afterWord? "function".toList (trimStart s) with
  | some (c :: rest) =>
    if isBlank c then
      let rest := trimStart rest
      let name := rest.takeWhile isNamePart
      if name.isEmpty then none else some (name, rest.dropWhile isNamePart)
    else none
  | _ => none

theorem definition?_length {s name rest : List Char} (h : definition? s = some (name, rest)) :
    rest.length < s.length := by
  unfold definition? at h
  split at h
  · rename_i c behind hword
    split at h
    · dsimp only at h
      split at h
      · cases h
      · cases h
        have hw := afterWord?_length hword
        have hs := (List.dropWhile_sublist isBlank (l := s)).length_le
        have hb := (List.dropWhile_sublist isBlank (l := behind)).length_le
        have hn := (List.dropWhile_sublist isNamePart (l := trimStart behind)).length_le
        simp only [trimStart, List.length_cons] at hw hs hb hn ⊢
        omega
    · cases h
  · cases h

/-- The names of the functions that a text defines.  Whether a line starts here is given. -/
def definitionsFrom (lineStart : Bool) (s : List Char) : List (List Char) :=
  match s with
  | [] => []
  | c :: rest =>
    match _h : if lineStart then definition? (c :: rest) else none with
    | some (name, behind) => name :: definitionsFrom false behind
    | none => definitionsFrom (c == '\n') rest
termination_by s.length
decreasing_by
  · cases lineStart with
    | false => simp at _h
    | true => exact definition?_length _h
  · simp

/-- The names of the functions that a text defines. -/
def definitions (s : List Char) : List (List Char) := definitionsFrom true s

/-- How far the arguments reach that end at `stop` if no bracket before it closes later. -/
def argumentsStop (stop offset : Nat) (s : List Char) : Nat :=
  match s with
  | [] => stop
  | c :: rest =>
    if offset < stop then
      if c = '(' then
        match PowerShell.closing '(' ')' ⟨offset + 1, rest⟩ with
        | .ok close => argumentsStop (max stop (close + 1)) (close + 1) (rest.drop (close - offset))
        | .error _ => stop
      else argumentsStop stop (offset + 1) rest
    else stop
termination_by s.length
decreasing_by all_goals
  simp only [List.length_cons, List.length_drop]
  omega

/-- The arguments of an export behind the name of the command. -/
def exportHere (s : List Char) : List Char :=
  s.take (argumentsStop (s.takeWhile (· != '\n')).length 0 s)

/-- The text behind the command of an export, if the text starts with it. -/
def afterExport? (s : List Char) : Option (List Char) :=
  match afterWord? "export-modulemember".toList s with
  | some (c :: rest) => if isWordChar c then none else some (c :: rest)
  | found => found

theorem afterExport?_length {s rest : List Char} (h : afterExport? s = some rest) :
    rest.length < s.length := by
  unfold afterExport? at h
  split at h
  · rename_i c behind hword
    split at h
    · cases h
    · cases h
      have := afterWord?_length hword
      simp at this ⊢
      omega
  · have := afterWord?_length h
    simp at this
    omega

/-- The arguments of each export in a text. -/
def exportArguments (s : List Char) : List (List Char) :=
  match s with
  | [] => []
  | c :: rest =>
    match _h : afterExport? (c :: rest) with
    | some behind => exportHere behind :: exportArguments (behind.dropWhile (· != '\n'))
    | none => exportArguments rest
termination_by s.length
decreasing_by
  · have := afterExport?_length _h
    have := (List.dropWhile_sublist (· != '\n') (l := behind)).length_le
    omega
  · simp

/-- Does an export name the function, or all functions of resources, in any case? -/
def exports (s : List Char) (name : String) : Bool :=
  (exportArguments s).any fun arguments =>
    let lowered := lower arguments
    hasInfix "*-targetresource".toList lowered || hasInfix (lower name.toList) lowered

/-- The functions of every resource. -/
def targetFunctions : List String := ["Get-TargetResource", "Set-TargetResource", "Test-TargetResource"]

end DscAudit.Resource.Module

import DscAudit.Text.CharacterClass
import DscAudit.Text.Digit
import DscAudit.Text.Infix
import DscAudit.Text.Integer

/-!
# Entries of a manifest

A manifest writes versions and identifiers as texts.
-/

/-!
## Versions

A version is two to four numbers with points between them.  Versions are compared number by number;
missing numbers count as zero.
-/

namespace DscAudit.Manifest

/-- The numbers of a version. -/
abbrev Version := List Nat

namespace Version

/-- The version that a text writes, blanks around it apart. -/
def read? (s : List Char) : Option Version :=
  let pieces := Text.splitAt '.' (Text.trim s)
  if 2 ≤ pieces.length ∧ pieces.length ≤ 4 then
    if pieces.all fun piece => !piece.isEmpty && piece.all Text.isDigit then
      some (pieces.map Text.digitsValue)
    else none
  else none

/-- The version with four numbers. -/
def padded (version : Version) : Version := version ++ List.replicate (4 - version.length) 0

/-- Is the first version lower than the second? -/
def isLower (a b : Version) : Bool := decide (a.padded < b.padded)

theorem length_padded {version : Version} (h : version.length ≤ 4) : version.padded.length = 4 := by
  simp only [padded, List.length_append, List.length_replicate]
  omega

end Version

end DscAudit.Manifest

/-!
## Identifiers of modules

A module is identified by a number of 128 bits, written with thirty-two digits in base sixteen.  Its
text may have braces around it, hyphens between digits, and the marks of a resource name.
-/

namespace DscAudit.Manifest.Identifier

/-- The text without the occurrences of a part.  The first `skipped` characters belong to one. -/
def withoutFrom (part : List Char) (skipped : Nat) : List Char → List Char
  | [] => []
  | c :: rest =>
    match skipped with
    | skipped + 1 => withoutFrom part skipped rest
    | 0 =>
      if part.isPrefixOf (c :: rest) then withoutFrom part (part.length - 1) rest
      else c :: withoutFrom part 0 rest

/-- The text without the occurrences of a part. -/
def without (part : String) (s : List Char) : List Char := withoutFrom part.toList 0 s

/-- The digits of the text of an identifier. -/
def digits (s : List Char) : List Char :=
  (Text.trimBraces (without "uuid:" (without "urn:" s))).filter (· != '-')

/-- Does the text write an identifier? -/
def isValid (s : List Char) : Bool :=
  let digits := digits s
  digits.length == 32 && (Text.Integer.read? 16 digits).any fun n => decide (0 ≤ n)

theorem length_of_isValid {s : List Char} (h : isValid s = true) : (digits s).length = 32 := by
  simp only [isValid, Bool.and_eq_true, beq_iff_eq] at h
  exact h.1

end DscAudit.Manifest.Identifier

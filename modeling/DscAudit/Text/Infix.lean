/-!
# Parts of a text
-/

namespace DscAudit.Text

/-- Does the text hold the part as consecutive characters? -/
def hasInfix (part : List Char) : List Char → Bool
  | [] => part.isEmpty
  | c :: rest => part.isPrefixOf (c :: rest) || hasInfix part rest

/-- The text behind the first place where the part occurs. -/
def afterInfix? (part : List Char) : List Char → Option (List Char)
  | [] => if part.isEmpty then some [] else none
  | c :: rest =>
    if part.isPrefixOf (c :: rest) then some ((c :: rest).drop part.length)
    else afterInfix? part rest

/-- The pieces of a text between the places where a character stands. -/
def splitAt (separator : Char) : List Char → List (List Char)
  | [] => [[]]
  | c :: rest =>
    if c == separator then [] :: splitAt separator rest
    else
      match splitAt separator rest with
      | [] => [[c]]
      | piece :: pieces => (c :: piece) :: pieces

theorem hasInfix_iff {part s : List Char} : hasInfix part s = true ↔ part <:+: s := by
  induction s with
  | nil => simp [hasInfix]
  | cons c s ih => simp [hasInfix, ih, List.infix_cons_iff]

theorem splitAt_ne_nil (separator : Char) (s : List Char) : splitAt separator s ≠ [] := by
  cases s with
  | nil => simp [splitAt]
  | cons c s =>
    simp only [splitAt]
    split
    · simp
    · split <;> simp

end DscAudit.Text

/-!
# Sorted texts

Texts in their order, each once.
-/

namespace DscAudit.Text.Sorted

/-- Adds a text to sorted ones unless it is among them. -/
def insert (s : String) : List String → List String
  | [] => [s]
  | first :: rest =>
    if s = first then first :: rest
    else if s < first then s :: first :: rest
    else first :: insert s rest

/-- The texts of a list in their order, each once. -/
def ofList (texts : List String) : List String := texts.foldl (fun sorted s => insert s sorted) []

theorem mem_insert {s t : String} {sorted : List String} :
    t ∈ insert s sorted ↔ t = s ∨ t ∈ sorted := by
  induction sorted with
  | nil => simp [insert]
  | cons first rest ih =>
    simp only [insert]
    split
    · simp_all
    · split
      · simp
      · simp only [List.mem_cons, ih]
        grind

end DscAudit.Text.Sorted

import DscAudit.Check.Resource
import DscAudit.Proofs.Resource.Export

/-!
# Modules without their comments

What the check of the functions has against a module depends on no comment, unless a comment gets in the
way of a definition or of an export.  Whether one does can be computed from the lexemes of the text.
-/

namespace DscAudit

namespace PowerShell

/-! ## The lexemes of a text -/

/-- A lexeme of a text, with what stands before and behind it. -/
structure Occurrence where
  kind : LexemeKind
  before : List Char
  text : List Char
  behind : List Char

/-- The lexemes of a text behind another one, if all of them end. -/
def occurrences? (before : List Char) (s : List Char) : Option (List Occurrence) :=
  match s with
  | [] => some []
  | c :: rest =>
    match Lexeme.scan c rest with
    | .error _ => none
    | .ok lexeme =>
      let text := (c :: rest).take lexeme.length
      let behind := (c :: rest).drop lexeme.length
      (occurrences? (before ++ text) behind).map (⟨lexeme.kind, before, text, behind⟩ :: ·)
termination_by s.length
decreasing_by exact Lexeme.length_drop_lt lexeme

theorem occurrences?_scans {kind : LexemeKind} {text behind : List Char} (h : Scans kind text behind)
    (before : List Char) : occurrences? before (text ++ behind) =
      (occurrences? (before ++ text) behind).map (⟨kind, before, text, behind⟩ :: ·) := by
  obtain ⟨c, rest, lexeme, heq, hscan, rfl, hlength⟩ := h
  have hdrop := drop_lexeme heq hlength
  have htake : (c :: rest).take lexeme.length = text := by
    rw [hlength, ← heq, List.take_left]
  rw [heq, occurrences?.eq_def]
  dsimp only
  rw [hscan]
  dsimp only
  rw [htake, hdrop]

theorem exists_scans_of_occurrences? {s : List Char} (hne : s ≠ []) {before : List Char}
    {found : List Occurrence} (h : occurrences? before s = some found) :
    ∃ kind text behind, s = text ++ behind ∧ Scans kind text behind := by
  cases s with
  | nil => exact absurd rfl hne
  | cons c rest =>
    rw [occurrences?.eq_def] at h
    dsimp only at h
    cases hscan : Lexeme.scan c rest with
    | error cause =>
      rw [hscan] at h
      cases h
    | ok lexeme =>
      exact ⟨lexeme.kind, _, _, (List.take_append_drop lexeme.length _).symm, c, rest, lexeme,
        List.take_append_drop _ _, hscan, rfl, (List.length_take_of_le lexeme.length_le).symm⟩

/-- The lexemes that are found are those of the text. -/
theorem occurrences?_sound {s front : List Char} {found : List Occurrence}
    (h : occurrences? front s = some found) :
    Lexemes s [] ∧ ∀ kind before text behind, s = before ++ (text ++ behind) →
      Lexemes before (text ++ behind) → Scans kind text behind →
      ⟨kind, front ++ before, text, behind⟩ ∈ found := by
  induction hlength : s.length using Nat.strong_induction_on generalizing s front found with
  | _ length ih =>
    subst hlength
    by_cases hne : s = []
    · subst hne
      refine ⟨.nil [], fun kind before text behind hs _ hscans => ?_⟩
      obtain ⟨-, htext⟩ := List.append_eq_nil_iff.1 hs.symm
      exact absurd (List.append_eq_nil_iff.1 htext).1 hscans.ne_nil
    · obtain ⟨kind, text, behind, rfl, hscans⟩ := exists_scans_of_occurrences? hne h
      rw [occurrences?_scans hscans, Option.map_eq_some_iff] at h
      obtain ⟨found, hfound, rfl⟩ := h
      have hpos := List.length_pos_iff.2 hscans.ne_nil
      obtain ⟨hlexemes, hmem⟩ := ih behind.length (by rw [List.length_append]; omega) hfound rfl
      have hscans' : Scans kind text (behind ++ []) := by rwa [List.append_nil]
      refine ⟨.cons hscans' hlexemes, fun other before more rest hs hbefore hmore => ?_⟩
      cases hbefore with
      | nil =>
        obtain ⟨rfl, rfl, rfl⟩ := hscans.unique hmore hs
        rw [List.append_nil]
        exact List.mem_cons_self
      | cons hfirst hbefore =>
        obtain ⟨rfl, rfl, rfl⟩ := hscans.unique hfirst (by rw [hs, List.append_assoc])
        have hlater := hmem other _ more rest rfl hbefore hmore
        rw [List.append_assoc front] at hlater
        exact List.mem_cons_of_mem _ hlater

theorem HasComment.mem_occurrences {s before text behind : List Char} {found : List Occurrence}
    (h : HasComment s before text behind) (hfound : occurrences? [] s = some found) :
    ∃ kind : LexemeKind, kind.isComment = true ∧ ⟨kind, before, text, behind⟩ ∈ found := by
  obtain ⟨kind, hcomment, hscans⟩ := h.exists_kind
  exact ⟨kind, hcomment, (occurrences?_sound hfound).2 kind before text behind h.split h.lexemes hscans⟩

end PowerShell

namespace Resource.Module

open Text PowerShell

/-! ## Comments that get in the way -/

/-- Does the text end with a keyword at the start of a line, blanks apart? -/
def endsInKeyword (s : List Char) : Bool :=
  (List.range (s.length + 1)).any fun n =>
    (s.take n == [] || (s.take n).getLast? == some '\n') &&
      ((afterWord? "function".toList ((s.drop n).dropWhile isLineBlank)).any fun rest =>
        rest.all isBlank)

/-- Is the occurrence no comment that gets in the way of a definition? -/
def leavesDefinitions (found : Occurrence) : Bool :=
  !found.kind.isComment ||
    (definitionsFrom false found.text).isEmpty &&
      (afterWord? "function".toList (found.behind.dropWhile isLineBlank)).isNone &&
      !endsInKeyword found.before

theorem DefinitionsApart.of_occurrences {s : List Char} {found : List Occurrence}
    (h : occurrences? [] s = some found) (hall : found.all leavesDefinitions = true) :
    DefinitionsApart s := by
  have hleaves {before text behind : List Char} (hcomment : HasComment s before text behind) :
      definitionsFrom false text = [] ∧
        afterWord? "function".toList (behind.dropWhile isLineBlank) = none ∧
        endsInKeyword before = false := by
    obtain ⟨kind, hkind, hmem⟩ := hcomment.mem_occurrences h
    have hthis := List.all_eq_true.1 hall _ hmem
    simp only [leavesDefinitions, hkind, Bool.not_true, Bool.false_or, Bool.and_eq_true,
      List.isEmpty_iff, Option.isNone_iff_eq_none, Bool.not_eq_true'] at hthis
    exact ⟨hthis.1.1, hthis.1.2, hthis.2⟩
  refine ⟨fun hcomment => (hleaves hcomment).1, fun hcomment => (hleaves hcomment).2.1, ?_⟩
  rintro before text behind hcomment front line rfl hstart rest hrest hblank
  have hnone := (hleaves hcomment).2.2
  rw [← Bool.not_eq_true, endsInKeyword, List.any_eq_true] at hnone
  refine hnone ⟨front.length, by simp, ?_⟩
  rw [List.take_left, List.drop_left, hrest, Bool.and_eq_true]
  refine ⟨?_, List.all_eq_true.2 hblank⟩
  simpa [IsLineStart] using hstart

/-- What stands between the commands of exports before a place and the place. -/
def betweens (front rest : List Char) : List (List Char) :=
  (List.range (front.length + 1)).filterMap fun n =>
    (afterExport? (front.drop n ++ rest)).map fun found => found.take (found.length - rest.length)

theorem BehindExport.mem_betweens {front rest between : List Char}
    (h : BehindExport front rest between) : between ∈ betweens front rest := by
  obtain ⟨before, line, rfl, hfound⟩ := h
  refine List.mem_filterMap.2 ⟨before.length, by simp, ?_⟩
  rw [List.drop_left, hfound]
  simp

/-- Is the occurrence no comment that gets in the way of an export, and no other lexeme with a round
bracket on the line of an export? -/
def leavesExports (found : Occurrence) : Bool :=
  (!found.kind.isComment ||
    (exportArguments found.text).isEmpty &&
      (betweens found.before (found.text ++ found.behind)).all fun between =>
        decide ((exportHere (between ++ (found.text ++ found.behind))).length ≤ between.length) ||
          targetFunctions.all fun name => !mentions name found.text) &&
  (found.kind == .plain || (List.range found.text.length).all fun n =>
    found.text[n]? != some '(' ||
      (betweens (found.before ++ found.text.take n) (found.text.drop n ++ found.behind)).all
        fun between => between.contains '\n')

theorem ExportsApart.of_occurrences {s : List Char} {found : List Occurrence}
    (h : occurrences? [] s = some found) (hall : found.all leavesExports = true) :
    ExportsApart s := by
  have hleaves {before text behind : List Char} (hcomment : HasComment s before text behind) :
      exportArguments text = [] ∧ ∀ between ∈ betweens before (text ++ behind),
        (exportHere (between ++ (text ++ behind))).length ≤ between.length ∨
          ∀ name ∈ targetFunctions, mentions name text = false := by
    obtain ⟨kind, hkind, hmem⟩ := hcomment.mem_occurrences h
    have hthis := (Bool.and_eq_true_iff.1 (List.all_eq_true.1 hall _ hmem)).1
    simpa only [hkind, Bool.not_true, Bool.false_or, Bool.and_eq_true, List.isEmpty_iff,
      List.all_eq_true, Bool.or_eq_true, decide_eq_true_iff, Bool.not_eq_true'] using hthis
  refine ⟨fun hcomment => (hleaves hcomment).1, fun hcomment hexport hlonger => ?_, ?_⟩
  · exact ((hleaves hcomment).2 _ hexport.mem_betweens).resolve_left (Nat.not_le.2 hlonger)
  · intro kind before head rest behind between hkind hs hlexemes hscans hexport
    have hmem := (occurrences?_sound h).2 kind before _ behind hs hlexemes hscans
    have hthis := (Bool.and_eq_true_iff.1 (List.all_eq_true.1 hall _ hmem)).2
    rw [Bool.or_eq_true, beq_iff_eq, List.all_eq_true] at hthis
    have hhere := hthis.resolve_left hkind head.length (by simp)
    rw [List.take_left, List.drop_left] at hhere
    have hline : ∀ between ∈ betweens (before ++ head) ('(' :: rest ++ behind), '\n' ∈ between := by
      simpa using hhere
    exact hline between hexport.mem_betweens

/-- What the check of the functions has against a module depends on no comment: with blanks in place of
its comments, a module has the same violations, if no comment gets in the way of a definition or of an
export. -/
theorem violations_eq_of_blanking {s : List Char} (hends : Lexemes s []) (hdefines : DefinitionsApart s)
    (hexports : ExportsApart s) (path : String) :
    (∃ t, Blanking s t) ∧ ∀ t, Blanking s t →
      targetFunctions.filterMap (Check.Resource.functionViolation? s path) =
        targetFunctions.filterMap (Check.Resource.functionViolation? t path) := by
  refine ⟨exists_blanking hends, fun t h => List.filterMap_congr fun name hname => ?_⟩
  have hexported : exports s name = exports t name := by
    rw [exports_eq, exports_eq]
    exact exportArguments_alike hexports (List.nil_append s).symm h.inCode.isPlace hname
  unfold Check.Resource.functionViolation?
  rw [definitions_eq_of_blanking hdefines h, hexported]

/-- A module with comments before and within its code, and one of its functions commented out. -/
def commentedModule : List Char :=
  "<#\nReads.\n#>\nfunction Get-TargetResource\n# function Test-TargetResource\n".toList ++
    "Export-ModuleMember @(\n'Get-TargetResource' # read\n)\n".toList

theorem violations_eq_of_blanking_commentedModule :
    Lexemes commentedModule [] ∧ DefinitionsApart commentedModule ∧ ExportsApart commentedModule ∧
    ∃ t, Blanking commentedModule t ∧
      (targetFunctions.filterMap (Check.Resource.functionViolation? t "A.psm1")).map (·.message) =
        ["Set-TargetResource is not defined", "Test-TargetResource is not defined"] := by
  have hall : ((occurrences? [] commentedModule).any fun found =>
      found.all leavesDefinitions && found.all leavesExports) = true := by
    decide +kernel
  obtain ⟨found, hfound, hleaves⟩ := (Option.any_eq_true _ _).1 hall
  obtain ⟨hdefinitions, hexports⟩ := Bool.and_eq_true_iff.1 hleaves
  have hends := (occurrences?_sound hfound).1
  have hdefines := DefinitionsApart.of_occurrences hfound hdefinitions
  have hexport := ExportsApart.of_occurrences hfound hexports
  obtain ⟨⟨t, ht⟩, hall⟩ := violations_eq_of_blanking hends hdefines hexport "A.psm1"
  refine ⟨hends, hdefines, hexport, t, ht, ?_⟩
  rw [← hall t ht]
  decide +kernel

/-- Definitions that stand in a comment. -/
def commentedDefinitions : List Char :=
  "\nfunction Get-TargetResource\nfunction Set-TargetResource\nfunction Test-TargetResource\n".toList

/-- A module whose only definitions and whose only export are commented out. -/
def commentedOut : List Char :=
  '<' :: '#' :: (commentedDefinitions ++ ['#', '>']) ++
    (['\n'] ++ ('#' :: " Export-ModuleMember *-TargetResource".toList ++ (['\n'] ++ [])))

/-- A module may define and export all its functions in comments: the check has nothing against it, but
with blanks in place of the comments it finds all functions missing. -/
theorem commentedOut_defines : Lexemes commentedOut [] ∧ ∃ t, Blanking commentedOut t ∧
    targetFunctions.filterMap (Check.Resource.functionViolation? commentedOut "A.psm1") = [] ∧
    (targetFunctions.filterMap (Check.Resource.functionViolation? t "A.psm1")).map (·.message) =
      ["Get-TargetResource is not defined", "Set-TargetResource is not defined",
        "Test-TargetResource is not defined"] := by
  have hblock (behind : List Char) :
      Scans .blockComment ('<' :: '#' :: (commentedDefinitions ++ ['#', '>'])) behind :=
    (IsLexeme.blockComment (by decide +kernel)).scans trivial
  have hline : Scans .lineComment ('#' :: " Export-ModuleMember *-TargetResource".toList)
      (['\n'] ++ []) :=
    (IsLexeme.lineComment (by decide)).scans fun c hc => (Option.some.inj hc).symm
  have hnewline (behind : List Char) : Scans .plain ['\n'] behind :=
    (IsLexeme.plain (by decide)).scans ⟨nofun, nofun⟩
  have hlexemes : Lexemes commentedOut [] :=
    .cons (hblock _) (.cons (hnewline _) (.cons hline (.cons (hnewline _) (.nil []))))
  refine ⟨hlexemes, _, .comment (hblock _) rfl (forall₂_spaced _) (.code (hnewline _) rfl
    (.comment hline rfl (forall₂_spaced _) (.code (hnewline _) rfl .nil))), ?_, ?_⟩
  · decide +kernel
  · decide +kernel

end Resource.Module

end DscAudit

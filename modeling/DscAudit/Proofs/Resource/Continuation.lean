import DscAudit.Proofs.Resource.Export
import DscAudit.Proofs.Text.Line

/-!
# Exports on continued lines

A line that ends with a backtick goes on with the next one.  The arguments of an export do not: they end
with the line of the command, or with the bracket that closes a group which opens on that line.  So the
continued lines of an export are read exactly if such a group takes them in.
-/

namespace DscAudit.Resource.Module

open Text PowerShell

/-! ## Logical lines -/

/-- Does the line go on with the next one?  A carriage return may stand before the line feed. -/
def isContinued (line : List Char) : Bool := ['\x60'].isSuffixOf line || ['\x60', '\r'].isSuffixOf line

/-- The lines up to the first one that is not continued. -/
def upToUncontinued : List (List Char) → List (List Char)
  | [] => []
  | line :: lines => if isContinued line then line :: upToUncontinued lines else [line]

/-- The line that a text starts with. -/
def physicalLine (s : List Char) : List Char := s.takeWhile (· != '\n')

/-- The line that a text starts with, and those that continue it. -/
def logicalLines (s : List Char) : List (List Char) := upToUncontinued (splitAt '\n' s)

/-- The line that a text starts with, up to where it is not continued any more. -/
def logicalLine (s : List Char) : List Char := ['\n'].intercalate (logicalLines s)

theorem upToUncontinued_prefix (lines : List (List Char)) : upToUncontinued lines <+: lines := by
  induction lines with
  | nil => exact List.prefix_rfl
  | cons line lines ih =>
    rw [upToUncontinued]
    split
    · exact (List.prefix_cons_inj line).2 ih
    · exact List.prefix_append [line] lines

theorem exists_logicalLines_eq (s : List Char) : ∃ lines, logicalLines s = physicalLine s :: lines := by
  obtain ⟨lines, hlines⟩ := exists_splitAt_newline_eq s
  rw [logicalLines, hlines, upToUncontinued]
  split
  · exact ⟨_, rfl⟩
  · exact ⟨_, rfl⟩

/-- Behind a logical line the text ends or another line starts. -/
theorem exists_eq_logicalLine_append (s : List Char) :
    ∃ rest, s = logicalLine s ++ rest ∧ (rest = [] ∨ ∃ behind, rest = '\n' :: behind) := by
  obtain ⟨more, hmore⟩ := upToUncontinued_prefix (splitAt '\n' s)
  obtain ⟨lines, hlines⟩ := exists_logicalLines_eq s
  have hne : logicalLines s ≠ [] := by
    rw [hlines]
    exact List.cons_ne_nil _ _
  obtain ⟨rest, hrest, hend⟩ := @exists_intercalate_append _ more hne
  refine ⟨rest, ?_, hend⟩
  rw [logicalLine, ← hrest, logicalLines, hmore, intercalate_splitAt]

/-! ## Groups on the line of an export -/

/-- Going on from a place to another one, past whole groups in round brackets. -/
inductive GoesTo : Nat → List Char → Nat → List Char → Prop
  | here (offset : Nat) (s : List Char) : GoesTo offset s offset s
  | char {c : Char} {rest s : List Char} {offset stop : Nat} (hc : c ≠ '(')
      (h : GoesTo (offset + 1) rest stop s) : GoesTo offset (c :: rest) stop s
  | group {rest s : List Char} {offset close stop : Nat}
      (hclose : closing '(' ')' ⟨offset + 1, rest⟩ = .ok close)
      (h : GoesTo (close + 1) (rest.drop (close - offset)) stop s) : GoesTo offset ('(' :: rest) stop s

/-- A group that opens before `stop`, outside the groups that close before it, and closes at `close`,
not before `stop`. -/
def Carries (stop offset : Nat) (s : List Char) (close : Nat) : Prop :=
  ∃ opening rest, GoesTo offset s opening ('(' :: rest) ∧ opening < stop ∧
    closing '(' ')' ⟨opening + 1, rest⟩ = .ok close ∧ stop ≤ close

theorem GoesTo.le {s s' : List Char} {offset stop : Nat} (h : GoesTo offset s stop s') :
    offset ≤ stop := by
  induction h with
  | here => exact Nat.le_refl _
  | char _ _ ih => omega
  | group hclose _ ih =>
    have hbounds := (closing_eq_iff.1 hclose).bounds.1
    dsimp only at hbounds
    omega

theorem argumentsStop_of_carries {stop offset close : Nat} {s : List Char}
    (h : Carries stop offset s close) : argumentsStop stop offset s = close + 1 := by
  obtain ⟨opening, rest, hgoes, hlt, hclose, hle⟩ := h
  generalize hs : '(' :: rest = behind at hgoes
  induction hgoes with
  | here offset s =>
    subst hs
    rw [argumentsStop_bracket hlt, hclose]
    dsimp only
    rw [Nat.max_eq_right (by omega), argumentsStop_of_le (Nat.le_refl _)]
  | @char c _ _ _ _ hc h ih =>
    have hplace := h.le
    rw [argumentsStop_cons (by omega) hc]
    exact ih hlt hclose hs
  | @group _ _ offset close' opening hclose' h ih =>
    have hplace := h.le
    have hbounds := (closing_eq_iff.1 hclose').bounds.1
    dsimp only at hbounds
    rw [argumentsStop_bracket (by omega), hclose']
    dsimp only
    rw [Nat.max_eq_left (by omega)]
    exact ih hlt hclose hs

theorem argumentsStop_cases (stop offset : Nat) (s : List Char) :
    argumentsStop stop offset s = stop ∨ ∃ close, Carries stop offset s close := by
  induction hlength : s.length using Nat.strong_induction_on generalizing offset s with
  | _ length ih =>
    subst hlength
    by_cases hlt : offset < stop
    · cases s with
      | nil => exact .inl (by rw [argumentsStop])
      | cons c s =>
        by_cases hc : c = '('
        · subst hc
          cases hclose : closing '(' ')' ⟨offset + 1, s⟩ with
          | error fault =>
            left
            rw [argumentsStop_bracket hlt, hclose]
          | ok close =>
            by_cases hle : stop ≤ close
            · exact .inr ⟨close, offset, s, .here _ _, hlt, hclose, hle⟩
            · rw [argumentsStop_bracket hlt, hclose]
              dsimp only
              rw [Nat.max_eq_left (by omega)]
              refine (ih _ ?_ (close + 1) _ rfl).imp_right ?_
              · rw [List.length_drop, List.length_cons]
                omega
              · rintro ⟨last, opening, rest, hgoes, hcarries⟩
                exact ⟨last, opening, rest, .group hclose hgoes, hcarries⟩
        · rw [argumentsStop_cons hlt hc]
          refine (ih _ (Nat.lt_succ_self _) (offset + 1) s rfl).imp_right ?_
          rintro ⟨last, opening, rest, hgoes, hcarries⟩
          exact ⟨last, opening, rest, .char hc hgoes, hcarries⟩
    · exact .inl (argumentsStop_of_le (Nat.not_lt.1 hlt) s)

/-- A group that opens on the line of an export, outside the groups that close on it, and closes at an
offset behind the line. -/
def CarriesOver (s : List Char) (close : Nat) : Prop := Carries (physicalLine s).length 0 s close

/-- The arguments of an export end with its line, or with the group that carries them over. -/
theorem exportHere_cases (s : List Char) :
    exportHere s = physicalLine s ∨
      ∃ close, CarriesOver s close ∧ exportHere s = s.take (close + 1) := by
  rcases argumentsStop_cases (physicalLine s).length 0 s with hline | ⟨close, hclose⟩
  · left
    have hinitial : physicalLine s <+: s := List.takeWhile_prefix _
    rw [exportHere, ← physicalLine, hline]
    exact (List.prefix_iff_eq_take.1 hinitial).symm
  · exact .inr ⟨close, hclose, by rw [exportHere, ← physicalLine, argumentsStop_of_carries hclose]⟩

theorem physicalLine_prefix_exportHere (s : List Char) : physicalLine s <+: exportHere s := by
  have hinitial : physicalLine s <+: s := List.takeWhile_prefix _
  rcases exportHere_cases s with heq | ⟨close, ⟨_, _, _, _, _, hle⟩, heq⟩
  · rw [heq]
  · rw [heq, List.prefix_take_iff]
    exact ⟨hinitial, by omega⟩

theorem physicalLine_prefix_logicalLine (s : List Char) : physicalLine s <+: logicalLine s := by
  obtain ⟨lines, hlines⟩ := exists_logicalLines_eq s
  rw [logicalLine, hlines]
  cases lines with
  | nil => rw [List.intercalate_singleton]
  | cons second lines =>
    rw [List.intercalate_cons_cons, List.append_assoc]
    exact List.prefix_append _ _

/-- The arguments of an export reach to the end of its logical line exactly if the line is not continued
or a group carries them over to that end. -/
theorem logicalLine_prefix_exportHere_iff (s : List Char) :
    logicalLine s <+: exportHere s ↔ logicalLine s = physicalLine s ∨
      ∃ close, CarriesOver s close ∧ (logicalLine s).length ≤ close + 1 := by
  constructor
  · intro h
    rcases exportHere_cases s with heq | ⟨close, hclose, heq⟩
    · rw [heq] at h
      exact .inl (h.eq_of_length_le (physicalLine_prefix_logicalLine s).length_le)
    · rw [heq, List.prefix_take_iff] at h
      exact .inr ⟨close, hclose, h.2⟩
  · rintro (heq | ⟨close, hclose, hle⟩)
    · rw [heq]
      exact physicalLine_prefix_exportHere s
    · obtain ⟨rest, hrest, -⟩ := exists_eq_logicalLine_append s
      rw [exportHere, ← physicalLine, argumentsStop_of_carries hclose, List.prefix_take_iff]
      exact ⟨⟨rest, hrest.symm⟩, hle⟩

/-! ## Names on continued lines -/

theorem exportHere_prefix (s : List Char) : exportHere s <+: s := List.take_prefix _ _

/-- A name on a line that the arguments of an export reach is exported. -/
theorem mentions_of_mem_logicalLines {s line : List Char} {name : String}
    (hread : logicalLine s <+: exportHere s) (hline : line ∈ logicalLines s)
    (hname : lower name.toList <:+: lower line) : mentions name (exportHere s) = true := by
  obtain ⟨rest, hrest, hend⟩ := exists_eq_logicalLine_append s
  obtain ⟨more, hmore⟩ := hread
  have hinitial : more <+: rest := by
    have hwhole := exportHere_prefix s
    rw [← hmore] at hwhole
    nth_rewrite 2 [hrest] at hwhole
    exact (List.prefix_append_right_inj _).1 hwhole
  have hlogical : lower (logicalLine s) <:+: lower (exportHere s) := by
    rw [← hmore]
    rcases hend with rfl | ⟨behind, rfl⟩
    · rw [List.prefix_nil.1 hinitial, List.append_nil]
    · cases more with
      | nil => rw [List.append_nil]
      | cons c more =>
        obtain ⟨rfl, -⟩ := List.cons_prefix_cons.1 hinitial
        rw [lower_line]
        exact (List.prefix_append _ _).isInfix
  refine mentions_iff.2 ⟨lower name.toList, by simp [searched], ?_⟩
  exact hname.trans ((lower_infix_of_mem hline).trans hlogical)

/-! ## Calls -/

/-- The arguments of an export stand behind its command, which the search for exports finds. -/
inductive IsCall : List Char → List Char → Prop
  | here {s behind : List Char} (h : afterExport? s = some behind) : IsCall s behind
  | later {s first behind : List Char} (h : afterExport? s = some first)
      (hcall : IsCall (first.dropWhile (· != '\n')) behind) : IsCall s behind
  | skip {c : Char} {s behind : List Char} (h : afterExport? (c :: s) = none)
      (hcall : IsCall s behind) : IsCall (c :: s) behind

theorem IsCall.mem_exportArguments {s behind : List Char} (h : IsCall s behind) :
    exportHere behind ∈ exportArguments s := by
  induction h with
  | here h =>
    rw [exportArguments_of_some h]
    exact List.mem_cons_self
  | later h _ ih =>
    rw [exportArguments_of_some h]
    exact List.mem_cons_of_mem _ ih
  | skip h _ ih =>
    rw [exportArguments_of_none h]
    exact ih

/-- The command of an export is a word of one line. -/
theorem exists_command {s behind : List Char} (h : afterExport? s = some behind) :
    ∃ command, s = command ++ behind ∧ '\n' ∉ command ∧
      command.length = "export-modulemember".toList.length := by
  rw [afterExport?_eq] at h
  obtain ⟨hword, -⟩ := Option.filter_eq_some_iff.1 h
  obtain ⟨command, hspelled, hsplit⟩ := afterWord?_eq_some_iff.1 hword
  refine ⟨command, hsplit, fun hmem => ?_, hspelled.length_eq.symm⟩
  obtain ⟨i, hi, hnewline⟩ := List.getElem_of_mem hmem
  have hi' : i < "export-modulemember".toList.length := by rwa [hspelled.length_eq]
  have hstarts := startsCode_of_export _ (List.getElem_mem hi') _ (hspelled.get hi' hi)
  rw [List.get_eq_getElem, hnewline] at hstarts
  exact absurd hstarts.1 (by decide)

/-- A command behind a line end in a text stands on a later line than the text before it. -/
theorem exists_laterLine {front command between command' : List Char}
    (hsplit : front ++ command' = command ++ between) (hone : '\n' ∉ command')
    (hlength : command.length = command'.length) (hpos : 0 < command.length)
    (hline : '\n' ∈ between) :
    ∃ before, between.dropWhile (· != '\n') = before ++ command' ∧ before.length < front.length := by
  have hsuffix : between.dropWhile (· != '\n') <:+ between := List.dropWhile_suffix _
  obtain ⟨later, hlater⟩ : ∃ later, between.dropWhile (· != '\n') = '\n' :: later := by
    have hne : between.dropWhile (· != '\n') ≠ [] := by simpa [List.dropWhile_eq_nil_iff] using hline
    obtain ⟨c, later, hlater⟩ := List.exists_cons_of_ne_nil hne
    have hc := List.head_dropWhile_not (· != '\n') hne
    simp only [hlater, List.head_cons, bne_eq_false_iff_eq] at hc
    exact ⟨later, by rw [hlater, hc]⟩
  have hwhole : between.dropWhile (· != '\n') <:+ front ++ command' := by
    rw [hsplit]
    exact hsuffix.trans (List.suffix_append _ _)
  rcases List.suffix_or_suffix_of_suffix hwhole (List.suffix_append front command') with
    hwithin | ⟨before, hbefore⟩
  · rw [hlater] at hwithin
    exact absurd (hwithin.subset List.mem_cons_self) hone
  · refine ⟨before, hbefore.symm, ?_⟩
    have hsum := congrArg List.length hsplit
    have hle := hsuffix.length_le
    rw [← hbefore] at hle
    simp only [List.length_append] at hsum hle
    omega

/-- Every command in a text is that of a call, or stands on the line of one. -/
theorem exists_isCall {before s behind : List Char} (h : afterExport? s = some behind) :
    ∃ between, '\n' ∉ between ∧ IsCall (before ++ s) (between ++ behind) := by
  obtain ⟨command', rfl, hone', hlength'⟩ := exists_command h
  induction hlength : before.length using Nat.strong_induction_on generalizing before with
  | _ length ih =>
    subst hlength
    cases before with
    | nil => exact ⟨[], List.not_mem_nil, .here h⟩
    | cons c before =>
      cases hfirst : afterExport? (c :: before ++ (command' ++ behind)) with
      | none =>
        obtain ⟨between, hbetween, hcall⟩ := ih _ (Nat.lt_succ_self _) rfl
        exact ⟨between, hbetween, .skip hfirst hcall⟩
      | some first =>
        obtain ⟨command, hcommand, -, hlength⟩ := exists_command hfirst
        have hequal : command.length = command'.length := hlength.trans hlength'.symm
        -- both commands are equally long, so the second one ends behind the first one
        have hsum := congrArg List.length hcommand
        simp only [List.length_append, List.length_cons] at hsum
        have hbehind : behind <:+ command ++ first :=
          hcommand ▸ ((List.suffix_append _ _).trans (List.suffix_append _ _))
        obtain ⟨between, rfl⟩ : behind <:+ first :=
          List.suffix_of_suffix_length_le hbehind (List.suffix_append _ _) (by omega)
        by_cases hline : '\n' ∈ between
        · have hsplit : c :: before ++ command' = command ++ between := by
            refine (List.append_left_inj behind).1 ?_
            simpa only [List.append_assoc] using hcommand
          obtain ⟨before', hbefore', hshorter⟩ :=
            exists_laterLine hsplit hone' hequal (hlength ▸ by decide) hline
          obtain ⟨between', hbetween, hcall⟩ := ih _ hshorter rfl
          refine ⟨between', hbetween, .later hfirst ?_⟩
          have hlater : (between ++ behind).dropWhile (· != '\n') = before' ++ (command' ++ behind) := by
            have hne : (before' ++ command').isEmpty = false := by
              rw [List.isEmpty_eq_false_iff, ← List.length_pos_iff, List.length_append, hlength']
              exact Nat.add_pos_right _ (by decide)
            rw [List.dropWhile_append, hbefore', hne, List.append_assoc]
            rfl
          rw [hlater]
          exact hcall
        · exact ⟨between, hline, .here hfirst⟩

/-- Every command in a text stands on the line of a call.  The arguments of a call end with its line or
with a group that is carried over its end.  They reach to the end of its logical line exactly if this is
one physical line or the group closes at its end or behind it, and then every name on one of its lines is
exported. -/
theorem continued_lines_are_read_iff (text : List Char) :
    (∀ before s behind, text = before ++ s → afterExport? s = some behind →
      ∃ between, '\n' ∉ between ∧ IsCall text (between ++ behind)) ∧
    ∀ behind, IsCall text behind →
      exportHere behind ∈ exportArguments text ∧
      (exportHere behind = physicalLine behind ∨
        ∃ close, CarriesOver behind close ∧ exportHere behind = behind.take (close + 1)) ∧
      (logicalLine behind <+: exportHere behind ↔ logicalLine behind = physicalLine behind ∨
        ∃ close, CarriesOver behind close ∧ (logicalLine behind).length ≤ close + 1) ∧
      (logicalLine behind <+: exportHere behind → ∀ line ∈ logicalLines behind, ∀ name : String,
        lower name.toList <:+: lower line → exports text name = true) := by
  constructor
  · rintro before s behind rfl h
    exact exists_isCall h
  · intro behind hcall
    refine ⟨hcall.mem_exportArguments, exportHere_cases behind,
      logicalLine_prefix_exportHere_iff behind, fun hread line hline name hname => ?_⟩
    rw [exports_eq, List.any_eq_true]
    exact ⟨_, hcall.mem_exportArguments, mentions_of_mem_logicalLines hread hline hname⟩

/-- An export whose list is continued within a group. -/
def groupedExport : List Char :=
  "Export-ModuleMember ('Get-TargetResource', \x60\r\n 'SET-TARGETRESOURCE')\n".toList

theorem continued_lines_are_read_grouped :
    IsCall groupedExport (groupedExport.drop 19) ∧
      (logicalLines (groupedExport.drop 19)).length = 2 ∧
      exports groupedExport "Set-TargetResource" = true := by
  have hcall : IsCall groupedExport (groupedExport.drop 19) := .here (by decide)
  have hcarries : CarriesOver (groupedExport.drop 19) 48 := by
    refine ⟨1, groupedExport.drop 21, .char (by decide) (.here _ _), by decide, ?_,
      by decide⟩
    with_unfolding_all rfl
  obtain ⟨-, -, hread, hnames⟩ := (continued_lines_are_read_iff groupedExport).2 _ hcall
  refine ⟨hcall, by decide, ?_⟩
  refine hnames (hread.2 (.inr ⟨48, hcarries, by decide⟩)) " 'SET-TARGETRESOURCE')".toList
    (by decide) "Set-TargetResource" ?_
  rw [← hasInfix_iff]
  decide

/-- A backtick at the end of the line by itself adds nothing to the arguments. -/
theorem backtick_adds_no_line :
    exportArguments "Export-ModuleMember Get-TargetResource, \x60\n Set-TargetResource\n".toList =
      [" Get-TargetResource, \x60".toList] ∧
    logicalLine " Get-TargetResource, \x60\n Set-TargetResource\n".toList =
      " Get-TargetResource, \x60\n Set-TargetResource".toList ∧
    exports "Export-ModuleMember Get-TargetResource, \x60\n Set-TargetResource\n".toList
      "Set-TargetResource" = false := by
  refine ⟨?_, ?_, ?_⟩
  · with_unfolding_all rfl
  · decide
  · with_unfolding_all rfl

end DscAudit.Resource.Module

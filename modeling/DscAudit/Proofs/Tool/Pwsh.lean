import DscAudit.Proofs.File.Directory
import DscAudit.Proofs.Host.Attempt
import DscAudit.Proofs.Json.Extent
import DscAudit.Proofs.Text.Cutting
import DscAudit.Tool.Pwsh

/-!
# Scripts and their results

A script that runs with PowerShell starts one process.  It gives a value exactly if the process ends
well and has printed a result line that can be read; besides, it only writes to the log.  So the same
executable is found before and after it.

The result on the last marked line counts.  A result that a tool writes on one line is cut where it holds a
character that ends lines: JSON may have three such characters in its strings.  What is left of the result in
front of such a character cannot be read.
-/

/-! ## What a script does -/

namespace DscAudit.Tool.Pwsh

open DscAudit.Action

/-- The value that a process has for the script that it runs, if it ended well and printed one. -/
def answer? : ProcessResult → Option Value
  | .finished code output _ => if code = 0 then (ResultLine.read output.toList).toOption else none
  | _ => none

/-- The process of a script. -/
def scriptCall (session : Session) (script : String) (environment : List (String × String)) :
    ProcessCall :=
  Command.call
    ⟨session.executable :: options ++ [script], session.directory, session.timeout, some environment⟩

theorem answer?_eq (command : Command) (ending : ProcessResult) :
    answer? ending =
      if (command.resultOf ending).code = 0 then
        (ResultLine.read (command.resultOf ending).output.toList).toOption
      else none := by
  cases ending with
  | finished code output errors => rfl
  | timedOut output errors => rfl
  | missing name => rfl

/-- A process that prints nothing but a result line answers with its value. -/
theorem answer?_of_line {answer errors : String} {value : Value}
    (hline : (Text.lines (ResultLine.mark ++ answer).toList).reverse.findSome?
      ResultLine.behindMark? = some answer.toList)
    (hread : Json.read? answer.toList = some value) :
    answer? (.finished 0 (ResultLine.mark ++ answer) errors) = some value := by
  have hresult : ResultLine.read (ResultLine.mark ++ answer).toList = .ok value := by
    unfold ResultLine.read
    rw [hline]
    dsimp only
    rw [hread]
  exact congrArg Except.toOption hresult

/-- The value of a script is the answer of its process. -/
theorem exec_run (session : Session) (script : String) (overrides : List (String × String))
    (host : Host) :
    ∃ ending after,
      (run session script overrides).exec host = (ending, after) ∧
      ending.toOption = answer? (host.results.headD (.missing none)) ∧
      host.Starts [scriptCall session script (override host.environment overrides)] after := by
  let command : Command :=
    ⟨session.executable :: options ++ [script], session.directory, session.timeout,
      some (override host.environment overrides)⟩
  obtain ⟨after, hcommand, hstarts⟩ := command.exec_runOnce session.log host
  unfold run
  rw [exec_get_bind, exec_bind_ok hcommand, answer?_eq command]
  generalize command.resultOf _ = result
  -- the code decides first, and then the result line
  by_cases htimeout : result.code = timeoutCode
  · have hcode : result.code ≠ 0 := by simp [htimeout, timeoutCode]
    simp only [if_pos htimeout, if_neg hcode]
    exact ⟨_, after, rfl, rfl, hstarts⟩
  by_cases hcode : result.code = 0
  · simp only [hcode, ne_eq, not_true_eq_false, if_false, if_true]
    cases ResultLine.read result.output.toList with
    | ok value => exact ⟨_, after, rfl, rfl, hstarts⟩
    | error fault => exact ⟨_, after, rfl, rfl, hstarts⟩
  · simp only [if_neg htimeout, if_pos hcode, if_neg hcode]
    exact ⟨_, after, rfl, rfl, hstarts⟩

/-- An executable without an absolute path is looked for among the tools. -/
theorem exec_find_of_name {config : Config}
    (hname : config.powershell.executable.toList.head? ≠ some '/') (host : Host) :
    (find config).exec host =
      (.ok ((host.tools.find? fun tool => tool.1 == config.powershell.executable).map (·.2)),
        host) := by
  unfold find
  dsimp only
  rw [if_neg hname]
  rfl

/-- The executable of a configuration depends on the files and tools of the host alone. -/
theorem exec_find_of_starts {config : Config} {before after : Host} {calls : List ProcessCall}
    (hstarts : before.Starts calls after) :
    ((find config).exec after).1 = ((find config).exec before).1 := by
  obtain ⟨logs, rfl⟩ := hstarts
  unfold find
  dsimp only
  by_cases habsolute : config.powershell.executable.toList.head? = some '/'
  · let path := Path.ofString config.powershell.executable
    simp only [if_pos habsolute, isFile, exec_bind, exec_askVolume]
    by_cases hrefuses : (!path.hasNull && before.volume.refuses before.directory path) = true
    · simp only [path, if_pos hrefuses]
    · simp only [path, if_neg hrefuses]
      split <;> rfl
  · simp only [if_neg habsolute]
    rfl

def IsFound (config : Config) (host : Host) : Prop :=
  ∃ executable, ((find config).exec host).1 = .ok (some executable)

theorem isFound_of_starts {config : Config} {before after : Host} {calls : List ProcessCall}
    (hstarts : before.Starts calls after) : IsFound config after ↔ IsFound config before := by
  simp only [IsFound, exec_find_of_starts hstarts]

end DscAudit.Tool.Pwsh

namespace DscAudit.Tool.ResultLine

open Text (isLineBreak lines onLines)

/-! ## Marked lines -/

/-- The texts behind the marks. -/
def marked (output : List Char) : List (List Char) := onLines behindMark? output

/-- The result that a text behind the mark gives. -/
def resultOf (text : List Char) : Except Fault Value := (Json.read? text).elim (.error .unreadable) .ok

theorem read_eq (output : List Char) :
    read output = (marked output).getLast?.elim (.error .missing) resultOf := by
  rw [read, marked, onLines, List.getLast?_filterMap]
  cases (lines output).reverse.findSome? behindMark? with
  | none => rfl
  | some text =>
    dsimp only [Option.elim_some, resultOf]
    cases Json.read? text <;> rfl

theorem marked_append {c : Char} (hc : isLineBreak c = true) (s t : List Char) :
    marked (s ++ c :: t) = marked s ++ marked t :=
  Text.onLines_append rfl hc s t

/-- A marked line is trimmed at its end only. -/
theorem behindMark?_mark (s : List Char) : behindMark? (mark.toList ++ s) = some (Text.trimEnd s) := by
  obtain ⟨blanks, hs, hblanks, hlast⟩ := Text.exists_trimEnd s
  have hmark : ∃ c, mark.toList.getLast? = some c ∧ Text.isBlank c = false := ⟨':', rfl, rfl⟩
  obtain ⟨c, hc, hblank⟩ := Json.getLast?_append_of hmark hlast
  have htrim : Text.trim (mark.toList ++ s) = mark.toList ++ Text.trimEnd s := by
    conv_lhs => rw [hs, ← List.append_assoc]
    exact Text.trimEnd_append hc hblank hblanks
  have hprefix : mark.toList.isPrefixOf (mark.toList ++ Text.trimEnd s) = true :=
    List.isPrefixOf_iff_prefix.2 (List.prefix_append _ _)
  rw [behindMark?, htrim, if_pos hprefix]
  exact congrArg some List.drop_left

/-- The texts behind the marks on all lines but the first one. -/
def laterMarked (s : List Char) : List (List Char) := (lines s).tail.filterMap behindMark?

theorem unbroken_mark : ∀ c ∈ mark.toList, isLineBreak c = false := by
  simp [mark, isLineBreak]

theorem marked_unbroken {s : List Char} (hs : ∀ c ∈ s, isLineBreak c = false) :
    marked (mark.toList ++ s) = [Text.trimEnd s] := by
  have hline : lines (mark.toList ++ s) = [mark.toList ++ s] :=
    Text.lines_of_unbroken (by simp [mark]) (List.forall_mem_append.2 ⟨unbroken_mark, hs⟩)
  rw [marked, onLines, hline, List.filterMap_cons, behindMark?_mark]
  rfl

/-- Where a result is cut, only its first piece is sure to be marked. -/
theorem marked_of_break {front rest : List Char} (hfront : ∀ c ∈ front, isLineBreak c = false) {c : Char}
    (hc : isLineBreak c = true) (hreturn : c ≠ '\r') :
    marked (mark.toList ++ (front ++ c :: rest)) =
      Text.trimEnd front :: laterMarked (front ++ c :: rest) := by
  rw [laterMarked, Text.lines_of_break hfront hc hreturn, ← List.append_assoc, marked_append hc,
    marked_unbroken hfront]
  rfl

/-! ## Results -/

/-- The characters that end a line and may stand in a string of JSON as they are. -/
def separators : List Char := ['\u0085', '\u2028', '\u2029']

/-- A result on lines of its own, in output that has no marked line behind it. -/
structure StandsLast (before after : List Char) : Prop where
  begins : before = [] ∨ before.getLast? = some '\n'
  ends : after = [] ∨ after.head? = some '\n'
  unmarked : ∀ line ∈ lines after, ¬ mark.toList <+: Text.trim line

/-- A result in JSON, written on one line. -/
structure IsResultText (s : List Char) (value : Value) : Prop where
  reads : Json.read? s = some value
  feed : '\n' ∉ s
  returned : '\r' ∉ s

variable {before s after : List Char} {value : Value}

theorem StandsLast.marked_eq (houter : StandsLast before after) (s : List Char) :
    marked (before ++ s ++ after) = marked before ++ marked s := by
  have hbehind : marked after = [] := by
    rw [marked, onLines, List.filterMap_eq_nil_iff]
    intro line hline
    have hnot := houter.unmarked line hline
    rw [behindMark?, if_neg]
    rwa [List.isPrefixOf_iff_prefix]
  have hafter : marked (s ++ after) = marked s := by
    rcases houter.ends with rfl | hhead
    · rw [List.append_nil]
    · obtain ⟨rest, rfl⟩ := List.head?_eq_some_iff.1 hhead
      have hrest : marked ('\n' :: rest) = marked rest := marked_append rfl [] rest
      rw [marked_append rfl, ← hrest, hbehind, List.append_nil]
  rcases houter.begins with rfl | hlast
  · rw [List.nil_append, hafter]
    rfl
  · obtain ⟨front, rfl⟩ := List.getLast?_eq_some_iff.1 hlast
    have hfront : marked (front ++ ['\n']) = marked front := by
      rw [marked_append rfl]
      exact List.append_nil _
    rw [List.append_assoc, List.append_assoc, List.singleton_append, marked_append rfl, hafter, hfront]

theorem IsResultText.isLineBreak_iff (hs : IsResultText s value) {c : Char} (hc : c ∈ s) :
    isLineBreak c = true ↔ c ∈ separators := by
  constructor
  · intro hbreak
    have hlegal := Json.legal_of_read? hs.reads c hc
    simp only [isLineBreak, Bool.or_eq_true, beq_iff_eq] at hbreak
    rcases hbreak with (((((((((rfl | rfl) | rfl) | rfl) | rfl) | rfl) | rfl) | rfl) | rfl) | rfl)
    · exact absurd hc hs.feed
    · exact absurd hc hs.returned
    iterate 5 exact absurd hlegal (by decide)
    all_goals simp [separators]
  · intro hmem
    simp only [separators, List.mem_cons, List.not_mem_nil, or_false] at hmem
    rcases hmem with rfl | rfl | rfl <;> rfl

/-- No number goes on with the end of a line, nor with what is trimmed in front of it. -/
theorem goesOn_of_isBlank {c : Char} (hc : Text.isBlank c = true) : Json.goesOn c = false := by
  by_contra hcontra
  simp only [Json.goesOn, Bool.not_eq_false, Bool.or_eq_true, beq_iff_eq] at hcontra
  rcases hcontra with ((hdigit | rfl) | rfl) | rfl
  · rw [Text.isBlank_of_isDigit (Text.isDigit_of_ascii hdigit)] at hc
    cases hc
  all_goals exact absurd hc (by decide)

theorem isBlank_separator {c : Char} (hc : c ∈ separators) :
    Text.isBlank c = true ∧ Json.isBlank c = false := by
  simp only [separators, List.mem_cons, List.not_mem_nil, or_false] at hc
  rcases hc with rfl | rfl | rfl <;> exact ⟨rfl, rfl⟩

/-- The piece of a result in front of a separator cannot be read. -/
theorem read?_piece {front rest : List Char} {c : Char}
    (hread : Json.read? (front ++ c :: rest) = some value) (hc : c ∈ separators) :
    Json.read? (Text.trimEnd front) = none := by
  obtain ⟨blanks, hfront, hblanks, -⟩ := Text.exists_trimEnd front
  rw [hfront, List.append_assoc] at hread
  refine Json.read?_eq_none_of_append hread ?_ ⟨c, by simp, (isBlank_separator hc).2⟩
  refine Json.head?_append_of (fun d hd => ?_) fun d hd => ?_
  · exact goesOn_of_isBlank (hblanks d (List.mem_of_head? hd))
  · cases hd
    exact goesOn_of_isBlank (isBlank_separator hc).1

/-- A result without a separator is found. -/
theorem read_unbroken (houter : StandsLast before after) (hs : IsResultText s value)
    (hunbroken : ∀ c ∈ separators, c ∉ s) :
    read (before ++ (mark.toList ++ s) ++ after) = .ok value := by
  have hlines : ∀ c ∈ s, isLineBreak c = false := by
    intro c hc
    rw [← Bool.not_eq_true, hs.isLineBreak_iff hc]
    exact fun hmem => hunbroken c hmem hc
  rw [read_eq, houter.marked_eq, marked_unbroken hlines, List.getLast?_concat, Option.elim_some, resultOf,
    Json.read?_trimEnd hs.reads]
  rfl

/-- Of a result with a separator the last marked piece is read, the first one if no later one is marked; and
the first one cannot be read. -/
theorem read_broken (houter : StandsLast before after) (hs : IsResultText s value)
    (hbroken : ∃ c ∈ separators, c ∈ s) :
    read (before ++ (mark.toList ++ s) ++ after) =
      (laterMarked s).getLast?.elim (.error .unreadable) resultOf := by
  obtain ⟨c, hc, hmem⟩ := hbroken
  obtain ⟨front, d, rest, rfl, hfront, hd⟩ := Text.exists_first_break ⟨c, hmem, (hs.isLineBreak_iff hmem).2 hc⟩
  have hreturn : d ≠ '\r' := by
    rintro rfl
    exact hs.returned (by simp)
  have hpiece : resultOf (Text.trimEnd front) = .error .unreadable := by
    rw [resultOf, read?_piece hs.reads ((hs.isLineBreak_iff (by simp)).1 hd)]
    rfl
  rw [read_eq, houter.marked_eq, marked_of_break hfront hd hreturn]
  cases hlater : (laterMarked (front ++ d :: rest)).getLast? with
  | none =>
    rw [List.getLast?_eq_none_iff] at hlater
    rw [hlater, List.getLast?_concat, Option.elim_some, hpiece]
    rfl
  | some text =>
    rw [List.getLast?_append, List.getLast?_cons, hlater]
    rfl

theorem resultOf_eq_ok_iff {text : List Char} :
    resultOf text = .ok value ↔ Json.read? text = some value := by
  rw [resultOf]
  cases Json.read? text <;> simp

/-- A result on a line of its own, with no marked line behind it, is found exactly if it holds no separator
or, by accident, the last of its later pieces that are marked is read as the same value.  If it holds a
separator and no later piece is marked, there is no result that can be read. -/
theorem read_result_iff (houter : StandsLast before after) (hs : IsResultText s value) :
    (read (before ++ (mark.toList ++ s) ++ after) = .ok value ↔
      (∀ c ∈ separators, c ∉ s) ∨
        ∃ text, (laterMarked s).getLast? = some text ∧ Json.read? text = some value) ∧
    ((∃ c ∈ separators, c ∈ s) → laterMarked s = [] →
      read (before ++ (mark.toList ++ s) ++ after) = .error .unreadable) := by
  refine ⟨⟨fun hfound => ?found, ?finds⟩, fun hbroken hlater => ?lost⟩
  case found =>
    by_cases hbroken : ∃ c ∈ separators, c ∈ s
    · rw [read_broken houter hs hbroken] at hfound
      cases hlater : (laterMarked s).getLast? with
      | none =>
        rw [hlater] at hfound
        cases hfound
      | some text =>
        rw [hlater, Option.elim_some, resultOf_eq_ok_iff] at hfound
        exact .inr ⟨text, rfl, hfound⟩
    · exact .inl fun c hc hmem => hbroken ⟨c, hc, hmem⟩
  case finds =>
    by_cases hbroken : ∃ c ∈ separators, c ∈ s
    · rintro (hunbroken | ⟨text, hlater, hread⟩)
      · obtain ⟨c, hc, hmem⟩ := hbroken
        exact absurd hmem (hunbroken c hc)
      · rw [read_broken houter hs hbroken, hlater, Option.elim_some, resultOf_eq_ok_iff]
        exact hread
    · exact fun _ => read_unbroken houter hs fun c hc hmem => hbroken ⟨c, hc, hmem⟩
  case lost =>
    rw [read_broken houter hs hbroken, hlater]
    rfl

/-- A result behind a line of noise, and in front of another one. -/
theorem read_result_iff_accented :
    StandsLast ['x', '\n'] ['\n', 'y'] ∧ IsResultText ['"', 'é', '"'] (.text "é") ∧
      read (['x', '\n'] ++ (mark.toList ++ ['"', 'é', '"']) ++ ['\n', 'y']) = .ok (.text "é") := by
  have houter : StandsLast ['x', '\n'] ['\n', 'y'] := by
    refine ⟨.inr rfl, .inr rfl, ?_⟩
    decide
  have hstring : Json.out (Json.string? ['é', '"']) = some ("é", []) := by
    rw [Json.out_string?]
    decide
  have hs : IsResultText ['"', 'é', '"'] (.text "é") :=
    ⟨Json.read?_eq_some_iff.2 ⟨[], (Json.ValueForm.text rfl hstring).out, List.forall_mem_nil _⟩, by decide, by decide⟩
  have hunbroken : ∀ c ∈ separators, c ∉ ['"', 'é', '"'] := by simp [separators]
  exact ⟨houter, hs, (read_result_iff houter hs).1.2 (.inl hunbroken)⟩

/-- A string with a line separator in it. -/
def separatedText : List Char := ['"', 'a', '\u2028', 'b', '"']

theorem isResultText_separatedText : IsResultText separatedText (.text "a\u2028b") where
  reads := by
    have hstring : Json.out (Json.string? ['a', '\u2028', 'b', '"']) = some ("a\u2028b", []) := by
      rw [Json.out_string?]
      decide
    exact Json.read?_eq_some_iff.2 ⟨[], (Json.ValueForm.text rfl hstring).out, List.forall_mem_nil _⟩
  feed := by decide
  returned := by decide

/-- Such a string is a result on one line, and it is the only output, but it cannot be read. -/
theorem separated_result_is_lost :
    IsResultText separatedText (.text "a\u2028b") ∧ StandsLast [] [] ∧
      read ([] ++ (mark.toList ++ separatedText) ++ []) = .error .unreadable := by
  have houter : StandsLast [] [] := ⟨.inl rfl, .inl rfl, List.forall_mem_nil _⟩
  have hlater : laterMarked separatedText = [] := by decide
  refine ⟨isResultText_separatedText, houter, ?_⟩
  rw [read_broken houter isResultText_separatedText ⟨'\u2028', by simp [separators], by simp [separatedText]⟩,
    hlater]
  rfl

end DscAudit.Tool.ResultLine

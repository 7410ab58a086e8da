import DscAudit.Proofs.Text.Cutting

/-!
# The numbers of lines

Readers differ in the characters that end a line for them, but for all of them a carriage return and a line
feed behind it end one line together.  The number of a line is the number of line ends before it, and the
lines that a text is cut into stand in the order of their numbers.
-/

namespace DscAudit.Text

variable {s t before rest line : List Char} {c : Char} {ends ends' : Char → Bool}

/-! ## Line ends written as line feeds -/

theorem head?_ne_newline (hs : ∀ rest, s ≠ '\n' :: rest) : s.head? ≠ some '\n' := by
  intro hhead
  obtain ⟨rest, hrest⟩ := List.head?_eq_some_iff.mp hhead
  exact hs rest hrest

theorem head?_append_ne_newline (hs : s.head? ≠ some '\n') (ht : t.head? ≠ some '\n') :
    (s ++ t).head? ≠ some '\n' := by
  cases s with
  | nil => exact ht
  | cons c s => exact hs

theorem head?_unbroken_ne_newline (hnewline : ends '\n' = true) (hs : ∀ c ∈ s, ends c = false) :
    s.head? ≠ some '\n' := by
  intro hhead
  have hplain : ends '\n' = false := hs '\n' (List.mem_of_mem_head? hhead)
  rw [hnewline] at hplain
  cases hplain

theorem normalizeNewlines_cons (hc : c ≠ '\r') (s : List Char) :
    normalizeNewlines (c :: s) = c :: normalizeNewlines s := by
  rw [normalizeNewlines]
  · exact fun rest heq _ => hc heq
  · exact hc

theorem normalizeNewlines_return (hs : s.head? ≠ some '\n') :
    normalizeNewlines ('\r' :: s) = '\n' :: normalizeNewlines s := by
  rw [normalizeNewlines]
  rintro rest rfl
  exact hs rfl

theorem normalizeNewlines_of_not_mem (hs : '\r' ∉ s) (t : List Char) :
    normalizeNewlines (s ++ t) = s ++ normalizeNewlines t := by
  induction s with
  | nil => rfl
  | cons c s ih =>
    rw [List.mem_cons, not_or] at hs
    rw [List.cons_append, normalizeNewlines_cons (Ne.symm hs.1), ih hs.2, List.cons_append]

/-- A carriage return brings a line feed, whatever comes behind it. -/
theorem exists_normalizeNewlines_return (s : List Char) :
    ∃ rest, normalizeNewlines ('\r' :: s) = '\n' :: rest := by
  by_cases hs : s.head? = some '\n'
  · obtain ⟨rest, rfl⟩ := List.head?_eq_some_iff.mp hs
    exact ⟨_, rfl⟩
  · exact ⟨_, normalizeNewlines_return hs⟩

theorem normalizeNewlines_le_append (s t : List Char) :
    normalizeNewlines s <+: normalizeNewlines (s ++ t) := by
  induction s using normalizeNewlines.induct with
  | case1 => exact List.nil_prefix
  | case2 s ih => exact (List.prefix_cons_inj '\n').mpr ih
  | case3 s hs ih =>
    cases s with
    | nil =>
      obtain ⟨rest, hrest⟩ := exists_normalizeNewlines_return t
      exact ⟨rest, hrest.symm⟩
    | cons d s =>
      have hhead : (d :: s).head? ≠ some '\n' := head?_ne_newline hs
      have hjoined : (d :: s ++ t).head? ≠ some '\n' := hhead
      rw [List.cons_append, normalizeNewlines_return hhead, normalizeNewlines_return hjoined]
      exact (List.prefix_cons_inj '\n').mpr ih
  | case4 c s _ hc ih =>
    rw [List.cons_append, normalizeNewlines_cons hc, normalizeNewlines_cons hc]
    exact (List.prefix_cons_inj c).mpr ih

theorem mem_normalizeNewlines (hmem : c ∈ s) (hc : c ≠ '\r') : c ∈ normalizeNewlines s := by
  induction s using normalizeNewlines.induct with
  | case1 => cases hmem
  | case2 s ih =>
    rw [List.mem_cons, List.mem_cons] at hmem
    rcases hmem with rfl | rfl | hmem
    · exact absurd rfl hc
    · exact List.mem_cons_self
    · exact List.mem_cons_of_mem _ (ih hmem)
  | case3 s hs ih =>
    rw [normalizeNewlines_return (head?_ne_newline hs)]
    exact List.mem_cons_of_mem _ (ih ((List.mem_cons.mp hmem).resolve_left hc))
  | case4 d s _ hd ih =>
    rw [normalizeNewlines_cons hd]
    rcases List.mem_cons.mp hmem with rfl | hmem
    · exact List.mem_cons_self
    · exact List.mem_cons_of_mem _ (ih hmem)

theorem mem_or_eq_of_mem_normalizeNewlines (hmem : c ∈ normalizeNewlines s) : c ∈ s ∨ c = '\n' := by
  induction s using normalizeNewlines.induct with
  | case1 => cases hmem
  | case2 s ih =>
    rcases List.mem_cons.mp hmem with rfl | hmem
    · exact .inr rfl
    · exact (ih hmem).imp_left fun h => List.mem_cons_of_mem _ (List.mem_cons_of_mem _ h)
  | case3 s hs ih =>
    rw [normalizeNewlines_return (head?_ne_newline hs)] at hmem
    rcases List.mem_cons.mp hmem with rfl | hmem
    · exact .inr rfl
    · exact (ih hmem).imp_left (List.mem_cons_of_mem _)
  | case4 d s _ hd ih =>
    rw [normalizeNewlines_cons hd] at hmem
    rcases List.mem_cons.mp hmem with rfl | hmem
    · exact .inl List.mem_cons_self
    · exact (ih hmem).imp_left (List.mem_cons_of_mem _)

/-! ## Line ends that are counted -/

/-- The number of line ends in a text, a carriage return and a line feed behind it being one. -/
def lineEnds (ends : Char → Bool) (s : List Char) : Nat := (normalizeNewlines s).countP ends

/-- The text is empty or ends with a line end, so that a line starts behind it. -/
def EndsWithLine (ends : Char → Bool) (s : List Char) : Prop :=
  ∀ c, s.getLast? = some c → ends c = true

theorem endsWithLine_of_cons {s : List Char} (h : EndsWithLine ends (c :: s)) : EndsWithLine ends s := by
  intro d hd
  exact h d (by rw [List.getLast?_cons, hd, Option.getD_some])

theorem EndsWithLine.cons {s : List Char} (h : EndsWithLine ends s) (hc : ends c = true) :
    EndsWithLine ends (c :: s) := by
  intro d hd
  rw [List.getLast?_cons] at hd
  cases hlast : s.getLast? with
  | none =>
    rw [hlast] at hd
    exact Option.some.inj hd ▸ hc
  | some e =>
    rw [hlast] at hd
    exact Option.some.inj hd ▸ h e hlast

theorem EndsWithLine.append {s t : List Char} (h : EndsWithLine ends t) (ht : t ≠ []) :
    EndsWithLine ends (s ++ t) := by
  intro d hd
  rw [List.getLast?_append_of_ne_nil s ht] at hd
  exact h d hd

/-- What a text has behind its last line end. -/
theorem exists_last_line (ends : Char → Bool) (s : List Char) :
    ∃ before line, s = before ++ line ∧ EndsWithLine ends before ∧ ∀ c ∈ line, ends c = false := by
  induction s using List.reverseRecOn with
  | nil => exact ⟨[], [], rfl, nofun, List.forall_mem_nil _⟩
  | append_singleton s c ih =>
    by_cases hc : ends c = true
    · refine ⟨s ++ [c], [], (List.append_nil _).symm, fun d hd => ?_, List.forall_mem_nil _⟩
      rw [List.getLast?_concat] at hd
      exact Option.some.inj hd ▸ hc
    · obtain ⟨before, line, rfl, hbefore, hline⟩ := ih
      refine ⟨before, line ++ [c], List.append_assoc _ _ _, hbefore, ?_⟩
      exact List.forall_mem_append.mpr
        ⟨hline, List.forall_mem_singleton.mpr (Bool.of_not_eq_true hc)⟩

theorem lineEnds_le_append (ends : Char → Bool) (s t : List Char) :
    lineEnds ends s ≤ lineEnds ends (s ++ t) :=
  (normalizeNewlines_le_append s t).sublist.countP_le

theorem lineEnds_congr (hnewline : ends '\n' = ends' '\n') (hs : ∀ c ∈ s, ends c = ends' c) :
    lineEnds ends s = lineEnds ends' s := by
  refine List.countP_congr fun c hc => ?_
  rcases mem_or_eq_of_mem_normalizeNewlines hc with hc | rfl
  · rw [hs c hc]
  · rw [hnewline]

/-- One more character that ends lines makes more line ends, wherever it stands. -/
theorem lineEnds_lt (hmono : ∀ c, ends c = true → ends' c = true) (hmem : c ∈ s) (hreturn : c ≠ '\r')
    (hc : ends c = false) (hc' : ends' c = true) : lineEnds ends s < lineEnds ends' s := by
  obtain ⟨front, behind, hsplit⟩ := List.append_of_mem (mem_normalizeNewlines hmem hreturn)
  have hfront : front.countP ends ≤ front.countP ends' := List.countP_mono_left fun d _ => hmono d
  have hbehind : behind.countP ends ≤ behind.countP ends' := List.countP_mono_left fun d _ => hmono d
  simp only [lineEnds, hsplit, List.countP_append, List.countP_cons, hc, hc', Bool.false_eq_true,
    if_false, if_true]
  omega

/-- A character that ends a line counts, unless the next one does it with it. -/
theorem lineEnds_cons_break (hnewline : ends '\n' = true) (hc : ends c = true)
    (hpair : c = '\r' → s.head? ≠ some '\n') : lineEnds ends (c :: s) = lineEnds ends s + 1 := by
  by_cases hreturn : c = '\r'
  · subst hreturn
    rw [lineEnds, normalizeNewlines_return (hpair rfl), List.countP_cons_of_pos hnewline, lineEnds]
  · rw [lineEnds, normalizeNewlines_cons hreturn, List.countP_cons_of_pos hc, lineEnds]

theorem lineEnds_pair (hnewline : ends '\n' = true) (s : List Char) :
    lineEnds ends ('\r' :: '\n' :: s) = lineEnds ends s + 1 :=
  List.countP_cons_of_pos hnewline

/-- Characters that end no line do not count. -/
theorem lineEnds_unbroken_append (hreturn : ends '\r' = true) (hs : ∀ c ∈ s, ends c = false)
    (t : List Char) : lineEnds ends (s ++ t) = lineEnds ends t := by
  have hplain : '\r' ∉ s := fun hmem => by simp [hs _ hmem] at hreturn
  rw [lineEnds, normalizeNewlines_of_not_mem hplain, List.countP_append, lineEnds,
    List.countP_eq_zero.mpr fun c hc => by simp [hs c hc], Nat.zero_add]

theorem lineEnds_append_unbroken (hreturn : ends '\r' = true) (hnewline : ends '\n' = true)
    (ht : ∀ c ∈ t, ends c = false) (s : List Char) : lineEnds ends (s ++ t) = lineEnds ends s := by
  induction s using normalizeNewlines.induct with
  | case1 => exact (congrArg _ (List.append_nil t).symm).trans (lineEnds_unbroken_append hreturn ht [])
  | case2 s ih =>
    rw [List.cons_append, List.cons_append, lineEnds_pair hnewline, lineEnds_pair hnewline, ih]
  | case3 s hs ih =>
    have hhead : s.head? ≠ some '\n' := head?_ne_newline hs
    have hjoined : (s ++ t).head? ≠ some '\n' :=
      head?_append_ne_newline hhead (head?_unbroken_ne_newline hnewline ht)
    rw [List.cons_append, lineEnds_cons_break hnewline hreturn fun _ => hjoined,
      lineEnds_cons_break hnewline hreturn fun _ => hhead, ih]
  | case4 c s _ hc ih =>
    rw [List.cons_append, lineEnds, lineEnds, normalizeNewlines_cons hc, normalizeNewlines_cons hc,
      List.countP_cons, List.countP_cons]
    exact congrArg (· + _) ih

/-! ## The lines of a text by their numbers -/

/-- The lines behind line ends are what is left when as many lines are taken away. -/
theorem drop_linesFrom (begun : List Char) (hbefore : EndsWithLine isLineBreak before)
    (hbegun : before = [] → begun = []) (hrest : rest.head? ≠ some '\n') :
    (linesFrom begun (before ++ rest)).drop (lineEnds isLineBreak before) = lines rest := by
  fun_induction linesFrom begun before with
  | case1 begun hempty =>
    obtain rfl := hbegun rfl
    rfl
  | case2 begun hempty => exact absurd (hbegun rfl) (by simpa using hempty)
  | case3 begun before ih =>
    rw [lineEnds_pair rfl]
    exact ih (endsWithLine_of_cons (endsWithLine_of_cons hbefore)) (fun _ => rfl)
  | case4 begun c before hpair hc ih =>
    have hhere : c = '\r' → before.head? ≠ some '\n' := by
      rintro rfl
      exact head?_ne_newline fun behind => hpair behind rfl
    have hjoined : c = '\r' → (before ++ rest).head? ≠ some '\n' := fun hreturn =>
      head?_append_ne_newline (hhere hreturn) hrest
    rw [lineEnds_cons_break rfl hc hhere, List.cons_append, linesFrom_break hc hjoined,
      List.drop_succ_cons]
    exact ih (endsWithLine_of_cons hbefore) fun _ => rfl
  | case5 begun c before _ hc ih =>
    have hne : before ≠ [] := by
      rintro rfl
      exact hc (hbefore c rfl)
    have hunbroken : isLineBreak c = false := Bool.of_not_eq_true hc
    have hends : lineEnds isLineBreak (c :: before) = lineEnds isLineBreak before :=
      lineEnds_unbroken_append rfl (List.forall_mem_singleton.mpr hunbroken) before
    rw [hends, List.cons_append, linesFrom_unbroken hunbroken]
    exact ih (endsWithLine_of_cons hbefore) fun hnil => absurd hnil hne

theorem head?_linesFrom (begun : List Char) (hne : begun ≠ [] ∨ s ≠ []) :
    (linesFrom begun s).head? = some (begun.reverse ++ firstLine s) := by
  fun_induction linesFrom begun s with
  | case1 begun hempty => simp_all
  | case2 begun hempty => simp [firstLine]
  | case3 begun s ih => simp [firstLine, isLineBreak]
  | case4 begun c s _ hc ih => simp [firstLine, hc]
  | case5 begun c s _ hc ih =>
    have hmore : firstLine (c :: s) = c :: firstLine s :=
      List.takeWhile_cons_of_pos (by simpa using hc)
    rw [ih (.inl (List.cons_ne_nil _ _)), hmore, List.reverse_cons, List.append_assoc]
    rfl

/-- The line that starts behind line ends has the number of them. -/
theorem getElem?_lines_append (hbefore : EndsWithLine isLineBreak before) (hne : rest ≠ [])
    (hrest : rest.head? ≠ some '\n') :
    (lines (before ++ rest))[lineEnds isLineBreak before]? = some (firstLine rest) := by
  rw [← List.head?_drop, lines, drop_linesFrom [] hbefore (fun _ => rfl) hrest, lines,
    head?_linesFrom [] (.inr hne)]
  rfl

theorem exists_of_getElem?_linesFrom (begun : List Char) (hbegun : ∀ c ∈ begun, isLineBreak c = false)
    {i : Nat} (hline : (linesFrom begun s)[i]? = some line) :
    ∃ before rest, begun.reverse ++ s = before ++ line ++ rest ∧ EndsWithLine isLineBreak before ∧
      (∀ c ∈ line, isLineBreak c = false) ∧ i = lineEnds isLineBreak before := by
  have hfirst : ∀ (begun s : List Char), (∀ c ∈ begun, isLineBreak c = false) →
      ∃ before rest, begun.reverse ++ s = before ++ begun.reverse ++ rest ∧
        EndsWithLine isLineBreak before ∧ (∀ c ∈ begun.reverse, isLineBreak c = false) ∧
        0 = lineEnds isLineBreak before :=
    fun begun s hbegun => ⟨[], s, rfl, nofun, by simpa using hbegun, rfl⟩
  fun_induction linesFrom begun s generalizing i with
  | case1 begun hempty => cases hline
  | case2 begun hempty =>
    cases i with
    | zero =>
      obtain rfl := Option.some.inj hline
      exact hfirst begun [] hbegun
    | succ i => cases hline
  | case3 begun s ih =>
    cases i with
    | zero =>
      obtain rfl := Option.some.inj hline
      exact hfirst begun _ hbegun
    | succ i =>
      obtain ⟨before, rest, hsplit, hbefore, hunbroken, rfl⟩ :=
        ih (List.forall_mem_nil _) hline
      obtain rfl : s = before ++ line ++ rest := hsplit
      refine ⟨begun.reverse ++ '\r' :: '\n' :: before, rest, by simp, ?_, hunbroken, ?_⟩
      · exact ((hbefore.cons rfl).cons rfl).append (List.cons_ne_nil _ _)
      · rw [lineEnds_unbroken_append rfl (by simpa using hbegun), lineEnds_pair rfl]
  | case4 begun c s hpair hc ih =>
    cases i with
    | zero =>
      obtain rfl := Option.some.inj hline
      exact hfirst begun _ hbegun
    | succ i =>
      obtain ⟨before, rest, hsplit, hbefore, hunbroken, rfl⟩ :=
        ih (List.forall_mem_nil _) hline
      obtain rfl : s = before ++ line ++ rest := hsplit
      refine ⟨begun.reverse ++ c :: before, rest, by simp, ?_, hunbroken, ?_⟩
      · exact (hbefore.cons hc).append (List.cons_ne_nil _ _)
      · rw [lineEnds_unbroken_append rfl (by simpa using hbegun), lineEnds_cons_break rfl hc]
        rintro rfl
        refine head?_ne_newline fun behind heq => hpair (behind ++ line ++ rest) rfl ?_
        rw [heq]
        rfl
  | case5 begun c s _ hc ih =>
    have hunbroken : ∀ d ∈ c :: begun, isLineBreak d = false :=
      List.forall_mem_cons.mpr ⟨Bool.of_not_eq_true hc, hbegun⟩
    obtain ⟨before, rest, hsplit, hmore⟩ := ih hunbroken hline
    exact ⟨before, rest, by simpa using hsplit, hmore⟩

/-- Before a line of a text stand as many line ends as its number says. -/
theorem exists_of_getElem?_lines {i : Nat} (hline : (lines s)[i]? = some line) :
    ∃ before rest, s = before ++ line ++ rest ∧ EndsWithLine isLineBreak before ∧
      (∀ c ∈ line, isLineBreak c = false) ∧ i = lineEnds isLineBreak before :=
  exists_of_getElem?_linesFrom [] (List.forall_mem_nil _) hline

end DscAudit.Text

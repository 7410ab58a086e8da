import DscAudit.Proofs.PowerShell.Fault
import DscAudit.Proofs.Rule.Order
import DscAudit.Proofs.Text.Scan

/-!
# Where findings lie

Whatever is reported of a script lies at two offsets of it, the end included, and holds the text between
them.  A position and its offset determine each other, and later offsets have later positions.  So findings
that are listed by line and column are listed by offset, and the lines and columns of a finding are enough
to cut its text out of the script.
-/

namespace DscAudit

/-! ## Positions and offsets -/

namespace Text

/-- The position of an offset: its line comes after as many line feeds as stand before the offset, and its
column is counted from the place behind the last of them. -/
structure IsPosition (text : List Char) (offset : Nat) (position : Position) : Prop where
  line : position.line = 1 + (text.take offset).count '\n'
  column : ∃ before onLine, text.take offset = before ++ onLine ∧ '\n' ∉ onLine ∧
    (before = [] ∨ ∃ earlier, before = earlier ++ ['\n']) ∧
    position.column = offset - before.length + 1

/-- The position is on an earlier line, or farther left on the same line. -/
def Position.Before (p q : Position) : Prop := p.line < q.line ∨ p.line = q.line ∧ p.column < q.column

/-- The offset of a position, by the table of the places where lines start. -/
def offsetOf (text : List Char) (position : Position) : Nat :=
  (lineStarts text).getD (position.line - 1) 0 + (position.column - 1)

/-- The text between two positions. -/
def cut (text : List Char) (first last : Position) : List Char :=
  (text.drop (offsetOf text first)).take (offsetOf text last - offsetOf text first)

/-- How many numbers of a sorted list are not greater than a given one, where those before `low` are not and
those from `high` on are: the place between is halved until nothing is left of it. -/
def countLE (numbers : List Nat) (bound low high : Nat) : Nat :=
  if low < high then
    if bound < numbers.getD ((low + high) / 2) 0 then countLE numbers bound low ((low + high) / 2)
    else countLE numbers bound ((low + high) / 2 + 1) high
  else low
termination_by high - low

/-- The position of an offset by a search among the places where lines start. -/
def searchPosition (text : List Char) (offset : Nat) : Position :=
  let line := countLE (lineStarts text) offset 0 (lineStarts text).length
  ⟨line, offset - (lineStarts text).getD (line - 1) 0 + 1⟩

variable {text : List Char} {offset : Nat}

theorem columnOf_append {onLine : List Char} (hline : '\n' ∉ onLine) {before : List Char}
    (hbefore : before = [] ∨ ∃ earlier, before = earlier ++ ['\n']) :
    columnOf (before ++ onLine) = onLine.length := by
  have hall : ∀ c ∈ onLine.reverse, (c != '\n') = true := by
    intro c hc
    rw [bne_iff_ne]
    rintro rfl
    exact hline (List.mem_reverse.1 hc)
  rw [columnOf, List.reverse_append, List.takeWhile_append_of_pos hall, List.length_append,
    List.length_reverse]
  rcases hbefore with rfl | ⟨earlier, rfl⟩
  · rfl
  · rw [List.reverse_append]
    rfl

theorem isPosition_positionAt (h : offset ≤ text.length) :
    IsPosition text offset (positionAt text offset) := by
  refine ⟨rfl, ?_⟩
  have hsplit := List.takeWhile_append_dropWhile (p := (· != '\n')) (l := (text.take offset).reverse)
  refine ⟨((text.take offset).reverse.dropWhile (· != '\n')).reverse,
    ((text.take offset).reverse.takeWhile (· != '\n')).reverse, ?_, ?_, ?_, ?_⟩
  · rw [← List.reverse_append, hsplit, List.reverse_reverse]
  · intro hmem
    simpa using List.mem_takeWhile_imp (List.mem_reverse.1 hmem)
  · cases hrest : (text.take offset).reverse.dropWhile (· != '\n') with
    | nil => exact .inl rfl
    | cons c rest =>
      have hc := List.head?_dropWhile_not (· != '\n') (text.take offset).reverse
      rw [hrest] at hc
      obtain rfl : c = '\n' := by simpa using hc
      exact .inr ⟨rest.reverse, List.reverse_cons⟩
  · have hlength := congrArg List.length hsplit
    rw [List.length_append, List.length_reverse, List.length_take, Nat.min_eq_left h] at hlength
    rw [List.length_reverse, positionAt]
    dsimp only
    omega

/-- An offset has one position. -/
theorem IsPosition.eq_positionAt {position : Position} (h : IsPosition text offset position)
    (hle : offset ≤ text.length) : position = positionAt text offset := by
  obtain ⟨hline, before, onLine, hsplit, hfeed, hbefore, hcolumn⟩ := h
  have hcount : (positionAt text offset).column = 1 + columnOf (text.take offset) := rfl
  have hlength := congrArg List.length hsplit
  rw [List.length_append, List.length_take, Nat.min_eq_left hle] at hlength
  rw [hsplit, columnOf_append hfeed hbefore] at hcount
  obtain ⟨line, column⟩ := position
  dsimp only at hline hcolumn
  obtain rfl : column = (positionAt text offset).column := by omega
  rw [hline]
  rfl

/-- A position has one offset, and later offsets have later positions. -/
theorem positionAt_before_iff {offset' : Nat} (h : offset ≤ text.length) (h' : offset' ≤ text.length) :
    (positionAt text offset).Before (positionAt text offset') ↔ offset < offset' := by
  constructor
  · intro hbefore
    by_contra hle
    rcases Nat.lt_or_eq_of_le (Nat.le_of_not_lt hle) with hlt | rfl
    · have hafter := positionAt_lt hlt h
      simp only [Position.Before] at hbefore
      omega
    · simp only [Position.Before] at hbefore
      omega
  · exact fun hlt => positionAt_lt hlt h'

theorem positionAt_injective {offset' : Nat} (h : offset ≤ text.length) (h' : offset' ≤ text.length)
    (heq : positionAt text offset = positionAt text offset') : offset = offset' := by
  have hirrefl : ¬ (positionAt text offset').Before (positionAt text offset') := by
    simp only [Position.Before]
    omega
  have hlt := (positionAt_before_iff h h').not.1 (heq ▸ hirrefl)
  have hgt := (positionAt_before_iff h' h).not.1 (heq ▸ hirrefl)
  omega

/-- Two offsets compare as the lines and columns of their positions do. -/
theorem compare_positionAt {offset' : Nat} (h : offset ≤ text.length) (h' : offset' ≤ text.length) :
    (compare (positionAt text offset).line (positionAt text offset').line).then
        (compare (positionAt text offset).column (positionAt text offset').column) =
      compare offset offset' := by
  rcases Nat.lt_trichotomy offset offset' with hlt | rfl | hlt
  · rw [Nat.compare_eq_lt.2 hlt]
    rcases positionAt_lt hlt h' with hline | ⟨hline, hcolumn⟩
    · rw [Nat.compare_eq_lt.2 hline]
      rfl
    · rw [Nat.compare_eq_eq.2 hline, Nat.compare_eq_lt.2 hcolumn]
      rfl
  · simp
  · rw [Nat.compare_eq_gt.2 hlt]
    rcases positionAt_lt hlt h with hline | ⟨hline, hcolumn⟩
    · rw [Nat.compare_eq_gt.2 hline]
      rfl
    · rw [Nat.compare_eq_eq.2 hline.symm, Nat.compare_eq_gt.2 hcolumn]
      rfl

/-! ## The table of lines -/

/-- A line starts at an offset from which the characters to a place behind it make up the column. -/
theorem exists_lineStart (h : offset ≤ text.length) :
    ∃ start, ((lineStarts text).takeWhile (· ≤ offset)).length = (positionAt text offset).line ∧
      (lineStarts text)[(positionAt text offset).line - 1]? = some start ∧
      start + (positionAt text offset).column = offset + 1 := by
  obtain ⟨start, hlines, hstart, hcolumn⟩ := @lineStarts_split [] text 0 offset rfl h
  rw [List.length_nil, Nat.zero_add] at hlines hcolumn
  refine ⟨start, ?_, ?_, ?_⟩
  · rw [length_lineStarts, hlines, Nat.add_comm]
    rfl
  · rw [positionAt, Nat.add_sub_cancel_left]
    exact hstart
  · rw [List.nil_append] at hcolumn
    have hposition : (positionAt text offset).column = 1 + columnOf (text.take offset) := rfl
    omega

theorem offsetOf_positionAt (h : offset ≤ text.length) :
    offsetOf text (positionAt text offset) = offset := by
  obtain ⟨start, -, hstart, hcolumn⟩ := exists_lineStart h
  have hpos : 1 ≤ (positionAt text offset).column := Nat.le_add_right _ _
  rw [offsetOf, List.getD_eq_getElem?_getD, hstart, Option.getD_some]
  omega

theorem pairwise_lineStarts (text : List Char) : (lineStarts text).Pairwise (· < ·) := by
  have hfrom : ∀ (offset : Nat) (s : List Char), (lineStartsFrom offset s).Pairwise (· < ·) := by
    intro offset s
    induction s generalizing offset with
    | nil => exact .nil
    | cons c rest ih =>
      rw [lineStartsFrom]
      split
      · exact .cons (fun place hplace => lt_of_mem_lineStartsFrom hplace) (ih _)
      · exact ih _
  exact .cons (fun place hplace => lt_of_mem_lineStartsFrom hplace) (hfrom 0 text)

theorem length_takeWhile_eq {p : Nat → Bool} {numbers : List Nat} {count : Nat}
    (hcount : count ≤ numbers.length) (hbefore : ∀ i < count, p (numbers.getD i 0) = true)
    (hbehind : count < numbers.length → p (numbers.getD count 0) = false) :
    (numbers.takeWhile p).length = count := by
  induction numbers generalizing count with
  | nil => exact (Nat.le_zero.1 hcount).symm
  | cons number numbers ih =>
    cases count with
    | zero =>
      rw [List.takeWhile_cons_of_neg (by simpa using hbehind (Nat.succ_pos _))]
      rfl
    | succ count =>
      have hfirst : p number = true := hbefore 0 (Nat.succ_pos _)
      rw [List.takeWhile_cons_of_pos hfirst, List.length_cons,
        ih (Nat.le_of_succ_le_succ hcount) (fun i hi => hbefore (i + 1) (Nat.succ_lt_succ hi))
          fun hlt => hbehind (Nat.succ_lt_succ hlt)]

/-- The search keeps the numbers before `low` not greater than the bound and those from `high` on greater. -/
theorem countLE_eq {numbers : List Nat} {bound low high : Nat} (hsorted : numbers.Pairwise (· < ·))
    (hle : low ≤ high) (hhigh : high ≤ numbers.length)
    (hbefore : ∀ i < low, numbers.getD i 0 ≤ bound)
    (hbehind : ∀ i, high ≤ i → i < numbers.length → bound < numbers.getD i 0) :
    countLE numbers bound low high = (numbers.takeWhile (· ≤ bound)).length := by
  have hmono : ∀ i j, i ≤ j → j < numbers.length → numbers.getD i 0 ≤ numbers.getD j 0 := by
    intro i j hij hj
    rcases Nat.lt_or_eq_of_le hij with hlt | rfl
    · rw [List.getD_eq_getElem _ _ hj, List.getD_eq_getElem _ _ (hlt.trans hj)]
      exact (List.pairwise_iff_getElem.1 hsorted i j _ hj hlt).le
    · exact Nat.le_refl _
  fun_induction countLE numbers bound low high with
  | case1 low high hlt hmiddle ih =>
    refine ih (by omega) (by omega) hbefore fun i hi hlength => ?_
    exact hmiddle.trans_le (hmono _ _ hi hlength)
  | case2 low high hlt hmiddle ih =>
    refine ih (by omega) hhigh (fun i hi => ?_) hbehind
    exact (hmono _ _ (Nat.le_of_lt_succ hi) (by omega)).trans (Nat.le_of_not_lt hmiddle)
  | case3 low high hnot =>
    obtain rfl : low = high := by omega
    refine (length_takeWhile_eq hhigh (fun i hi => decide_eq_true (hbefore i hi)) fun hlt => ?_).symm
    exact decide_eq_false (Nat.not_le.2 (hbehind low (Nat.le_refl _) hlt))

/-- The search among the places where lines start finds the position. -/
theorem searchPosition_eq (h : offset ≤ text.length) :
    searchPosition text offset = positionAt text offset := by
  obtain ⟨start, hlines, hstart, hcolumn⟩ := exists_lineStart h
  have hcount : countLE (lineStarts text) offset 0 (lineStarts text).length =
      (positionAt text offset).line := by
    rw [← hlines]
    exact countLE_eq (pairwise_lineStarts text) (Nat.zero_le _) (Nat.le_refl _) (by simp) (by omega)
  rw [searchPosition, hcount, List.getD_eq_getElem?_getD, hstart, Option.getD_some]
  have hdistance : offset - start + 1 = (positionAt text offset).column := by
    have hpos : 1 ≤ (positionAt text offset).column := Nat.le_add_right _ _
    omega
  rw [hdistance]

end Text

/-! ## Extents -/

namespace PowerShell

/-- The extent tells where two offsets of the text are, the end included, and what stands between them. -/
structure Extent.IsOf (text : List Char) (start stop : Nat) (extent : Extent) : Prop where
  start_le : start ≤ stop
  stop_le : stop ≤ text.length
  first : Text.IsPosition text start extent.first
  last : Text.IsPosition text stop extent.last
  text : extent.text = String.ofList ((text.drop start).take (stop - start))

/-- Where the block and all that is declared in it are. -/
def ParameterBlock.locations {ρ : Type} (block : ParameterBlock ρ) : List ρ :=
  block.location :: block.parameters.flatMap fun parameter =>
    parameter.location :: parameter.attributes.flatMap fun owner =>
      owner.location :: owner.named.map (·.location)

theorem ParameterBlock.locations_map {ρ σ : Type} (f : ρ → σ) (block : ParameterBlock ρ) :
    (block.map f).locations = block.locations.map f := by
  simp only [locations, ParameterBlock.map, Parameter.map, Attribute.map, NamedArgument.map,
    List.map_cons, List.flatMap_map, List.map_flatMap, List.map_map]
  rfl

/-- The span ends in the text, and not before it starts. -/
def Span.Fits (text : List Char) (span : Span) : Prop := span.start ≤ span.stop ∧ span.stop ≤ text.length

theorem Span.Fits.extent {text : List Char} {span : Span} (h : span.Fits text) :
    (span.extent text).IsOf text span.start span.stop where
  start_le := h.1
  stop_le := h.2
  first := Text.isPosition_positionAt (h.1.trans h.2)
  last := Text.isPosition_positionAt h.2
  text := rfl

/-- The lines and columns of an extent are enough to find its text. -/
theorem Extent.IsOf.cut {text : List Char} {start stop : Nat} {extent : Extent}
    (h : extent.IsOf text start stop) :
    String.ofList (Text.cut text extent.first extent.last) = extent.text := by
  have hstart := h.start_le.trans h.stop_le
  rw [Text.cut, h.first.eq_positionAt hstart, h.last.eq_positionAt h.stop_le,
    Text.offsetOf_positionAt hstart, Text.offsetOf_positionAt h.stop_le, h.text]

/-- All that is declared is found at spans of the text. -/
theorem fits_of_mem_locations {text : List Char} {blocks : List (ParameterBlock Span)}
    (h : parameterBlocks text = .ok blocks) {block : ParameterBlock Span} (hblock : block ∈ blocks)
    {span : Span} (hspan : span ∈ block.locations) : span.Fits text := by
  obtain ⟨hordered, hblocks⟩ : Nests text (ArgumentsFound text) blocks :=
    @blocksFrom_found text text none 0 blocks rfl (Nat.zero_le _) h
  have hfits {first last : Nat} {α : Type} {items : List α} {span : α → Span} {item : α}
      (hspans : Ordered first last (items.map span)) (hlast : last ≤ text.length)
      (hitem : item ∈ items) : (span item).Fits text := by
    have hmem := List.mem_map_of_mem (f := span) hitem
    exact ⟨(hspans.start_lt_stop _ hmem).le, (hspans.bounds _ hmem).2.trans hlast⟩
  have hwhole := hfits hordered (Nat.le_refl _) hblock
  obtain ⟨opening, _, _, _, hparameters, hnests⟩ := hblocks block hblock
  simp only [ParameterBlock.locations, List.mem_cons, List.mem_flatMap, List.mem_map] at hspan
  rcases hspan with rfl | ⟨parameter, hparameter, hspan⟩
  · exact hwhole
  have hone := hfits hparameters ((Nat.sub_le _ 1).trans hwhole.2) hparameter
  obtain ⟨hattributes, howners⟩ := hnests parameter hparameter
  rcases hspan with rfl | ⟨owner, howner, rfl | ⟨argument, hargument, rfl⟩⟩
  · exact hone
  · exact hfits hattributes hone.2 howner
  · obtain ⟨_, _, hfound⟩ := howners owner howner
    obtain ⟨last, hnamed⟩ := hfound.ordered
    exact ⟨(hnamed.start_lt_stop _ (List.mem_map_of_mem hargument)).le, hfound.within argument hargument⟩

end PowerShell

/-! ## Findings -/

namespace Rule

open PowerShell

/-- The order of findings by the offset where they start, and by rule. -/
def startsBefore (a b : Diagnostic Span) : Bool :=
  ((compare a.location.start b.location.start).then (compare a.rule.text b.rule.text)).isLE

theorem mem_locations_of_mem_diagnostics {ρ : Type} {block : ParameterBlock ρ}
    {parameter : Parameter ρ} (hparameter : parameter ∈ block.parameters) {found : Diagnostic ρ}
    (hfound : found ∈ diagnostics parameter) : found.location ∈ block.locations := by
  rw [ParameterBlock.locations, List.mem_cons, List.mem_flatMap]
  refine .inr ⟨parameter, hparameter, ?_⟩
  rw [diagnostics, filterMap_if, List.mem_append, List.mem_map] at hfound
  rcases hfound with hplaced | ⟨argument, hargument, rfl⟩
  · cases hrule : placement? (parameter.attributes.map (·.name)) with
    | none => simp [hrule] at hplaced
    | some rule =>
      rw [hrule] at hplaced
      cases List.mem_singleton.1 hplaced
      exact List.mem_cons_self
  · obtain ⟨owner, howner, hmem⟩ := List.mem_flatMap.1 (List.mem_of_mem_filter hargument)
    refine List.mem_cons_of_mem _ (List.mem_flatMap.2 ⟨owner, howner, ?_⟩)
    exact List.mem_cons_of_mem _ (List.mem_map_of_mem hmem)

theorem precedes_eq_startsBefore {text : List Char} {a b : Diagnostic Span}
    (ha : a.location.start ≤ text.length) (hb : b.location.start ≤ text.length) :
    precedes (a.map (·.extent text)) (b.map (·.extent text)) = startsBefore a b := by
  have hpositions := Text.compare_positionAt ha hb
  simp only [precedes, Diagnostic.map, Span.extent, startsBefore, hpositions]

/-- To list findings by line and column is to list them by offset. -/
theorem analyze_eq_of_offsets {text : List Char} {blocks : List (ParameterBlock Span)}
    (hread : parameterBlocks text = .ok blocks) :
    analyze text =
      (((blocks.flatMap (·.parameters)).flatMap diagnostics).mergeSort startsBefore).map
        (Diagnostic.map (·.extent text)) := by
  have hparameters : parameters text = .ok (blocks.flatMap (·.parameters)) := by
    rw [parameters, hread]
    rfl
  have hstart : ∀ found ∈ (blocks.flatMap (·.parameters)).flatMap diagnostics,
      found.location.start ≤ text.length := by
    intro found hfound
    obtain ⟨parameter, hparameter, hmem⟩ := List.mem_flatMap.1 hfound
    obtain ⟨block, hblock, hparameter⟩ := List.mem_flatMap.1 hparameter
    have hfits := fits_of_mem_locations hread hblock (mem_locations_of_mem_diagnostics hparameter hmem)
    exact hfits.1.trans hfits.2
  rw [analyze, hparameters, List.map_mergeSort fun a ha b hb =>
    (precedes_eq_startsBefore (hstart a ha) (hstart b hb)).symm, ← flatMap_diagnostics_map]

/-- Whatever is reported lies at offsets of the text, with what stands between them: the extents of all that
is declared, those of findings, and the place of a fault.  Positions are found by a search among the places
where lines start; they rise with the offsets, so findings are listed by offset; and an extent's text can be
cut out by its lines and columns. -/
theorem reported_places_are_real (text : List Char) :
    (∀ blocks, parameterBlocks text = .ok blocks →
      (∀ block ∈ blocks, ∀ extent ∈ (block.map (·.extent text)).locations,
        ∃ start stop, extent.IsOf text start stop) ∧
      analyze text =
        (((blocks.flatMap (·.parameters)).flatMap diagnostics).mergeSort startsBefore).map
          (Diagnostic.map (·.extent text))) ∧
    (∀ fault, parameterBlocks text = .error fault →
      fault.offset ≤ text.length ∧ Text.IsPosition text fault.offset (fault.position text)) ∧
    (∀ found ∈ analyze text, ∃ start stop, found.location.IsOf text start stop) ∧
    (∀ offset ≤ text.length, ∀ position, Text.IsPosition text offset position ↔
      position = Text.searchPosition text offset) ∧
    (∀ first ≤ text.length, ∀ last ≤ text.length,
      ((Text.searchPosition text first).Before (Text.searchPosition text last) ↔ first < last) ∧
      (Text.searchPosition text first = Text.searchPosition text last → first = last)) ∧
    ∀ start stop (extent : Extent), extent.IsOf text start stop →
      String.ofList (Text.cut text extent.first extent.last) = extent.text := by
  have hfault : ∀ fault, parameterBlocks text = .error fault →
      fault.offset ≤ text.length ∧ Text.IsPosition text fault.offset (fault.position text) :=
    fun fault hread => ⟨offset_le_of_fault hread, Text.isPosition_positionAt (offset_le_of_fault hread)⟩
  refine ⟨fun blocks hread => ⟨?_, analyze_eq_of_offsets hread⟩, hfault, ?_, ?_, ?_,
    fun _ _ _ h => h.cut⟩
  · intro block hblock extent hextent
    rw [ParameterBlock.locations_map] at hextent
    obtain ⟨span, hspan, rfl⟩ := List.mem_map.1 hextent
    exact ⟨_, _, (fits_of_mem_locations hread hblock hspan).extent⟩
  · intro found hfound
    cases hread : parameterBlocks text with
    | error fault =>
      have hparameters : parameters text = .error fault := by
        rw [parameters, hread]
        rfl
      rw [analyze, hparameters] at hfound
      cases List.mem_singleton.1 hfound
      obtain ⟨hle, hposition⟩ := hfault fault hread
      exact ⟨fault.offset, fault.offset, Nat.le_refl _, hle, hposition, hposition, by
        rw [Nat.sub_self, List.take_zero]
        rfl⟩
    | ok blocks =>
      rw [analyze_eq_of_offsets hread] at hfound
      obtain ⟨spanned, hmem, rfl⟩ := List.mem_map.1 hfound
      obtain ⟨parameter, hparameter, hmem⟩ := List.mem_flatMap.1 (List.mem_mergeSort.1 hmem)
      obtain ⟨block, hblock, hparameter⟩ := List.mem_flatMap.1 hparameter
      have hlocation := mem_locations_of_mem_diagnostics hparameter hmem
      exact ⟨_, _, (fits_of_mem_locations hread hblock hlocation).extent⟩
  · intro offset hle position
    rw [Text.searchPosition_eq hle]
    refine ⟨fun h => h.eq_positionAt hle, ?_⟩
    rintro rfl
    exact Text.isPosition_positionAt hle
  · intro first hfirst last hlast
    rw [Text.searchPosition_eq hfirst, Text.searchPosition_eq hlast]
    exact ⟨Text.positionAt_before_iff hfirst hlast, Text.positionAt_injective hfirst hlast⟩

end Rule

end DscAudit

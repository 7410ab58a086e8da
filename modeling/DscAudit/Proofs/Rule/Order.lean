import DscAudit.Proofs.PowerShell.Nesting
import DscAudit.Rule.Script

/-!
# The order of findings

Findings are listed by line, column and rule.  Where every argument list closes inside its attribute they
are found in that order already: a parameter before its arguments, and one parameter after the other.  So
which rules a script breaks, and in which order, depends on what it declares and not on where.
-/

namespace DscAudit

/-! ## Positions -/

namespace Text

/-- A place farther on is on a later line, or farther right on the same line. -/
theorem positionAt_lt {text : List Char} {first last : Nat} (hlt : first < last)
    (hle : last ≤ text.length) :
    (positionAt text first).line < (positionAt text last).line ∨
      (positionAt text first).line = (positionAt text last).line ∧
        (positionAt text first).column < (positionAt text last).column := by
  obtain ⟨between, hbetween⟩ : ∃ between, text.take last = text.take first ++ between :=
    (List.take_prefix_take_left (Nat.le_of_lt hlt)).imp fun _ h => h.symm
  have hpos : 0 < between.length := by
    have hlength := congrArg List.length hbetween
    rw [List.length_append, List.length_take, List.length_take] at hlength
    omega
  simp only [positionAt, hbetween, List.count_append, List.reverse_append]
  by_cases hfeeds : between.count '\n' = 0
  · refine .inr ⟨by omega, ?_⟩
    have hnone : ∀ c ∈ between.reverse, (c != '\n') = true := by
      intro c hc
      rw [bne_iff_ne]
      rintro rfl
      exact List.count_eq_zero.mp hfeeds (List.mem_reverse.mp hc)
    rw [List.takeWhile_append_of_pos hnone, List.length_append, List.length_reverse]
    omega
  · exact .inl (by omega)

end Text

/-! ## Rising offsets -/

namespace PowerShell

/-- Offsets from `first` up to but without `last`, each behind the one before it. -/
structure Rising (first last : Nat) (offsets : List Nat) : Prop where
  pairwise : offsets.Pairwise (· < ·)
  bounds : ∀ offset ∈ offsets, first ≤ offset ∧ offset < last

namespace Rising

variable {first last : Nat} {offsets more : List Nat}

theorem nil (first last : Nat) : Rising first last [] := ⟨.nil, nofun⟩

theorem sublist (h : Rising first last offsets) (hsub : more.Sublist offsets) :
    Rising first last more :=
  ⟨h.pairwise.sublist hsub, fun offset hoffset => h.bounds offset (hsub.mem hoffset)⟩

theorem widen {first' last' : Nat} (h : Rising first last offsets) (hfirst : first' ≤ first)
    (hlast : last ≤ last') : Rising first' last' offsets := by
  refine ⟨h.pairwise, fun offset hoffset => ?_⟩
  have hbounds := h.bounds offset hoffset
  omega

theorem append {middle : Nat} (h : Rising first middle offsets) (hmore : Rising middle last more)
    (hfirst : first ≤ middle) (hlast : middle ≤ last) : Rising first last (offsets ++ more) := by
  refine ⟨List.pairwise_append.mpr ⟨h.pairwise, hmore.pairwise, ?_⟩, fun offset hoffset => ?_⟩
  · intro offset hoffset other hother
    exact Nat.lt_of_lt_of_le (h.bounds offset hoffset).2 (hmore.bounds other hother).1
  · rcases List.mem_append.mp hoffset with hoffset | hoffset
    · have hbounds := h.bounds offset hoffset
      omega
    · have hbounds := hmore.bounds offset hoffset
      omega

/-- Offsets that rise within each of several spans rise along them. -/
theorem flatMap {α : Type} {items : List α} {span : α → Span} {offsetsOf : α → List Nat}
    (hordered : Ordered first last (items.map span))
    (h : ∀ item ∈ items, Rising (span item).start (span item).stop (offsetsOf item)) :
    Rising first last (items.flatMap offsetsOf) := by
  induction items generalizing first with
  | nil => exact nil first last
  | cons item items ih =>
    rw [List.forall_mem_cons] at h
    obtain ⟨hfirst, hspan, hordered⟩ := hordered
    have hlast := hordered.le
    rw [List.flatMap_cons]
    exact (h.1.widen hfirst (Nat.le_refl _)).append (ih hordered h.2)
      (by omega) hlast

end Rising

theorem Ordered.rising {first last : Nat} {spans : List Span} (h : Ordered first last spans) :
    Rising first last (spans.map (·.start)) := by
  induction spans generalizing first with
  | nil => exact .nil first last
  | cons span spans ih =>
    obtain ⟨hfirst, hspan, hordered⟩ := h
    have hlast := hordered.le
    have hone : Rising first span.stop [span.start] :=
      ⟨List.pairwise_singleton _ _, fun offset hoffset => by
        cases List.mem_singleton.mp hoffset
        exact ⟨hfirst, hspan⟩⟩
    exact hone.append (ih hordered) (by omega) hlast

end PowerShell

/-! ## Findings -/

namespace Rule

open PowerShell

theorem filterMap_if {α β : Type} (p : α → Bool) (f : α → β) (items : List α) :
    (items.filterMap fun item => if p item then some (f item) else none) =
      (items.filter p).map f := by
  induction items with
  | nil => rfl
  | cons item items ih =>
    rw [List.filterMap_cons, List.filter_cons, ih]
    cases p item <;> rfl

section

variable {ρ σ : Type} (f : ρ → σ)

/-- What is found depends on the place of a parameter and its arguments only as far as it is found
there. -/
theorem diagnostics_map (parameter : Parameter ρ) :
    diagnostics (parameter.map f) = (diagnostics parameter).map (Diagnostic.map f) := by
  have hnames : (parameter.map f).attributes.map (·.name) = parameter.attributes.map (·.name) := by
    simp only [Parameter.map, List.map_map]
    rfl
  have hnamed : (parameter.map f).attributes.flatMap (·.named) =
      (parameter.attributes.flatMap (·.named)).map (·.map f) := by
    simp only [Parameter.map, List.flatMap_map, List.map_flatMap]
    rfl
  simp only [diagnostics, hnames, hnamed, filterMap_if, List.map_append, List.filter_map,
    List.map_map]
  congr 1
  cases placement? (parameter.attributes.map (·.name)) <;> rfl

theorem flatMap_diagnostics_map (parameters : List (Parameter ρ)) :
    (parameters.map fun parameter => parameter.map f).flatMap diagnostics =
      (parameters.flatMap diagnostics).map (Diagnostic.map f) := by
  rw [List.flatMap_map, List.map_flatMap]
  simp only [diagnostics_map]

theorem diagnostics_map_rule (parameter : Parameter ρ) :
    (diagnostics (parameter.map f)).map (·.rule) = (diagnostics parameter).map (·.rule) := by
  rw [diagnostics_map, List.map_map]
  rfl

end

/-- The findings for a parameter come in order: where it starts, then where its arguments do. -/
theorem diagnostics_rising {text : List Char} {parameter : Parameter Span}
    (hnests : ParameterNests text (ArgumentsInside text) parameter)
    (hspan : parameter.location.start < parameter.location.stop) :
    Rising parameter.location.start parameter.location.stop
      ((diagnostics parameter).map (·.location.start)) := by
  obtain ⟨hordered, howners⟩ := hnests
  have hinside : ∀ owner ∈ parameter.attributes,
      Rising (owner.location.start + 1) (owner.location.stop - 1)
        (owner.named.map (·.location.start)) := by
    intro owner howner
    have hrising := (howners owner howner).2.2.1.rising
    rwa [List.map_map] at hrising
  have hnamed : Rising parameter.location.start parameter.location.stop
      (parameter.attributes.flatMap fun owner => owner.named.map (·.location.start)) :=
    Rising.flatMap hordered fun owner howner =>
      (hinside owner howner).widen (Nat.le_succ _) (Nat.sub_le _ _)
  have hbehind : Rising (parameter.location.start + 1) parameter.location.stop
      ((parameter.attributes.flatMap (·.named)).map (·.location.start)) := by
    rw [List.map_flatMap]
    refine ⟨hnamed.pairwise, fun offset hoffset => ⟨?_, (hnamed.bounds offset hoffset).2⟩⟩
    obtain ⟨owner, howner, hmem⟩ := List.mem_flatMap.mp hoffset
    have hfirst := (hordered.bounds _ (List.mem_map_of_mem howner)).1
    have hargument := ((hinside owner howner).bounds offset hmem).1
    omega
  have hplace : Rising parameter.location.start (parameter.location.start + 1)
      ((((placement? (parameter.attributes.map (·.name))).map
        (warning · parameter.location)).toList).map (·.location.start)) := by
    cases placement? (parameter.attributes.map (·.name)) with
    | none => exact .nil _ _
    | some rule =>
      exact ⟨List.pairwise_singleton _ _, fun offset hoffset => by
        cases List.mem_singleton.mp hoffset
        exact ⟨Nat.le_refl _, Nat.lt_succ_self _⟩⟩
  rw [diagnostics, List.map_append, filterMap_if, List.map_map]
  refine hplace.append (hbehind.sublist ?_) (Nat.le_succ _) hspan
  exact List.filter_sublist.map _

/-- The findings for all parameters of a script come in order. -/
theorem findings_rising {text : List Char} {blocks : List (ParameterBlock Span)}
    (hnests : Nests text (ArgumentsInside text) blocks) :
    Rising 0 text.length
      (((blocks.flatMap (·.parameters)).flatMap diagnostics).map (·.location.start)) := by
  obtain ⟨hordered, hblocks⟩ := hnests
  have hflat : ((blocks.flatMap (·.parameters)).flatMap diagnostics).map (·.location.start) =
      blocks.flatMap fun block => block.parameters.flatMap fun parameter =>
        (diagnostics parameter).map (·.location.start) := by
    simp only [List.flatMap_assoc, List.map_flatMap]
  rw [hflat]
  refine Rising.flatMap hordered fun block hblock => ?_
  obtain ⟨opening, hopening, -, -, hparameters, hall⟩ := hblocks block hblock
  refine Rising.widen ?_ (Nat.le_succ_of_le (Nat.le_of_lt hopening)) (Nat.sub_le _ 1)
  refine Rising.flatMap hparameters fun parameter hparameter => ?_
  refine diagnostics_rising (hall parameter hparameter) ?_
  exact hparameters.start_lt_stop _ (List.mem_map_of_mem hparameter)

theorem precedes_of_lt {text : List Char} {a b : Diagnostic Span}
    (hlt : a.location.start < b.location.start) (hle : b.location.start ≤ text.length) :
    precedes (a.map (·.extent text)) (b.map (·.extent text)) = true := by
  have hposition := Text.positionAt_lt hlt hle
  simp only [precedes, Diagnostic.map, Span.extent]
  rcases hposition with hline | ⟨hline, hcolumn⟩
  · rw [Nat.compare_eq_lt.mpr hline]
    rfl
  · rw [hline, Nat.compare_eq_lt.mpr hcolumn, Nat.compare_eq_eq.mpr rfl]
    rfl

/-- The rules that a script breaks are those that its parameters break, one after the other. -/
theorem analyze_rules {text : List Char} {blocks : List (ParameterBlock Span)}
    (h : parameterBlocks text = .ok blocks) (hnests : Nests text (ArgumentsInside text) blocks) :
    (analyze text).map (·.rule) =
      (blocks.flatMap (·.parameters)).flatMap fun parameter =>
        (diagnostics parameter).map (·.rule) := by
  have hparameters : parameters text = .ok (blocks.flatMap (·.parameters)) := by
    rw [parameters, h]
    rfl
  have hrising := findings_rising hnests
  have hsorted : (((blocks.flatMap (·.parameters)).flatMap diagnostics).map
      (Diagnostic.map (·.extent text))).Pairwise fun a b => precedes a b = true := by
    refine List.pairwise_map.mpr ((List.pairwise_map.mp hrising.pairwise).imp_of_mem ?_)
    intro a b _ hb hlt
    exact precedes_of_lt hlt (Nat.le_of_lt (hrising.bounds _ (List.mem_map_of_mem hb)).2)
  simp only [analyze, hparameters, flatMap_diagnostics_map]
  rw [List.mergeSort_of_pairwise hsorted, List.map_map, List.map_flatMap]
  rfl

end Rule

end DscAudit

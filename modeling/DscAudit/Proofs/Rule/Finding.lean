import DscAudit.Proofs.Rule.Order
import DscAudit.Proofs.Text.LowerCase

/-!
# What is found in a script

A script that can be read has one finding for each parameter that does not start with an attribute named
`Parameter`, and one for each `Mandatory` argument that does not read `Mandatory = $true`.  They are listed
by line, column and rule, each as often as it is found, and there are no others.
-/

namespace DscAudit.Text

/-- The name is the word, letter by letter, whatever their case. -/
def IsSpelling (word name : String) : Prop :=
  name.toList.map Char.toLower = word.toList.map Char.toLower

instance (word name : String) : Decidable (IsSpelling word name) :=
  inferInstanceAs (Decidable (_ = _))

/-- A name is a word in lower case exactly if it spells it. -/
theorem lowerString_eq_iff {word lowered name : String}
    (hword : word.toList.map Char.toLower = lowered.toList)
    (hplain : (lowered.toList.all fun p => p.toNat < 128 && p != 'i' && p != 'k') = true) :
    lowerString name = lowered ↔ IsSpelling word name := by
  rw [IsSpelling, hword, ← lower_eq_iff (isPlainLower_of_all hplain), lowerString,
    ← String.toList_inj, String.toList_ofList]

end DscAudit.Text

namespace DscAudit.Rule

open PowerShell (NamedArgument Attribute Parameter Extent Span)

/-! ## What is to be found -/

section

variable {ρ : Type}

/-- The rules on the first attribute. -/
def placementRules : List Name := [.attributeMissing, .attributeWrongPlace, .attributeLowerCase]

/-- The parameter breaks a rule on the first attribute: it has no attribute named `Parameter` in any case, it
has one but does not start with it, or it starts with one in another case. -/
def BreaksPlacement (parameter : Parameter ρ) : Name → Prop
  | .attributeMissing => ∀ owner ∈ parameter.attributes, ¬ Text.IsSpelling "Parameter" owner.name
  | .attributeWrongPlace =>
    (∃ owner ∈ parameter.attributes, Text.IsSpelling "Parameter" owner.name) ∧
      ∀ first ∈ parameter.attributes.head?, ¬ Text.IsSpelling "Parameter" first.name
  | .attributeLowerCase =>
    ∃ first ∈ parameter.attributes.head?,
      Text.IsSpelling "Parameter" first.name ∧ first.name ≠ "Parameter"
  | .mandatoryArgument => False
  | .unreadable => False

instance (parameter : Parameter ρ) : (rule : Name) → Decidable (BreaksPlacement parameter rule)
  | .attributeMissing => inferInstanceAs (Decidable (∀ owner ∈ parameter.attributes, _))
  | .attributeWrongPlace => inferInstanceAs (Decidable (_ ∧ ∀ first ∈ parameter.attributes.head?, _))
  | .attributeLowerCase => inferInstanceAs (Decidable (∃ first ∈ parameter.attributes.head?, _))
  | .mandatoryArgument => inferInstanceAs (Decidable False)
  | .unreadable => inferInstanceAs (Decidable False)

/-- The first attribute of the parameter is named `Parameter`. -/
def StartsWell (parameter : Parameter ρ) : Prop :=
  ∃ first ∈ parameter.attributes.head?, first.name = "Parameter"

instance (parameter : Parameter ρ) : Decidable (StartsWell parameter) :=
  inferInstanceAs (Decidable (∃ first ∈ parameter.attributes.head?, _))

/-- The argument is named `Mandatory`, in any case. -/
def IsMandatory (argument : NamedArgument ρ) : Prop := Text.IsSpelling "Mandatory" argument.name

/-- The argument reads `Mandatory = $true`. -/
def IsExact (argument : NamedArgument ρ) : Prop :=
  argument.name = "Mandatory" ∧ argument.valueOmitted = false ∧ argument.value = "$true"

instance (argument : NamedArgument ρ) : Decidable (IsMandatory argument) :=
  inferInstanceAs (Decidable (Text.IsSpelling _ _))

instance (argument : NamedArgument ρ) : Decidable (IsExact argument) :=
  inferInstanceAs (Decidable (_ ∧ _))

/-- What is to be found for a parameter: the rule on the first attribute that it breaks, where the parameter
is, and each argument in a wrong form, where the argument is. -/
def expected (parameter : Parameter ρ) : List (Diagnostic ρ) :=
  (placementRules.filter fun rule => BreaksPlacement parameter rule).map
      (warning · parameter.location) ++
    parameter.attributes.flatMap fun owner =>
      (owner.named.filter fun argument => IsMandatory argument ∧ ¬ IsExact argument).map
        fun argument => warning .mandatoryArgument argument.location

end

/-- The first finding is on an earlier line, or on the same line and farther left, or at the same place and
its rule does not come later by name. -/
def ListedBefore (a b : Diagnostic Extent) : Prop :=
  a.location.first.line < b.location.first.line ∨
    a.location.first.line = b.location.first.line ∧
      (a.location.first.column < b.location.first.column ∨
        a.location.first.column = b.location.first.column ∧ a.rule.text ≤ b.rule.text)

/-! ## What is found -/

section

variable {ρ : Type}

theorem lowerString_eq_parameter_iff {name : String} :
    Text.lowerString name = "parameter" ↔ Text.IsSpelling "Parameter" name :=
  @Text.lowerString_eq_iff "Parameter" "parameter" name (by decide) (by decide)

theorem lowerString_eq_mandatory_iff {name : String} :
    Text.lowerString name = "mandatory" ↔ Text.IsSpelling "Mandatory" name :=
  @Text.lowerString_eq_iff "Mandatory" "mandatory" name (by decide) (by decide)

theorem placement?_cons (first : String) (more : List String) :
    placement? (first :: more) =
      if Text.IsSpelling "Parameter" first then
        if first = "Parameter" then none else some .attributeLowerCase
      else if ∃ name ∈ more, Text.IsSpelling "Parameter" name then some .attributeWrongPlace
      else some .attributeMissing := by
  have hany : ((first :: more).any fun name => Text.lowerString name == "parameter") =
      decide (Text.IsSpelling "Parameter" first ∨ ∃ name ∈ more, Text.IsSpelling "Parameter" name) := by
    rw [Bool.eq_iff_iff, decide_eq_true_iff, List.any_cons, Bool.or_eq_true, List.any_eq_true]
    simp only [beq_iff_eq, lowerString_eq_parameter_iff]
  rw [placement?.eq_def, hany]
  simp only [decide_eq_true_eq, ne_eq, lowerString_eq_parameter_iff, ite_not]
  by_cases hfirst : Text.IsSpelling "Parameter" first
  · rw [if_pos (.inl hfirst), if_pos hfirst, if_pos hfirst]
  · simp only [hfirst, false_or, if_false]

/-- Of the rules on the first attribute at most one is broken, and it is the one that is found. -/
theorem placement?_eq_some_iff {parameter : Parameter ρ} {rule : Name} :
    placement? (parameter.attributes.map (·.name)) = some rule ↔ BreaksPlacement parameter rule := by
  obtain ⟨name, owners, default, location⟩ := parameter
  cases owners with
  | nil => cases rule <;> simp [placement?.eq_def, BreaksPlacement]
  | cons first more =>
    rw [List.map_cons, placement?_cons]
    by_cases hfirst : Text.IsSpelling "Parameter" first.name
    · by_cases hexact : first.name = "Parameter"
      · have hword : Text.IsSpelling "Parameter" "Parameter" := rfl
        cases rule <;> simp [BreaksPlacement, hexact, hword]
      · cases rule <;> simp [BreaksPlacement, hfirst, hexact]
    · by_cases hmore : ∃ owner ∈ more, Text.IsSpelling "Parameter" owner.name
      · cases rule <;> simp [BreaksPlacement, hfirst, hmore]
      · cases rule with
        | attributeMissing => simp [BreaksPlacement, hfirst]
        | attributeWrongPlace => simp [BreaksPlacement, hfirst]
        | _ => simp [BreaksPlacement, hfirst, hmore]

theorem placement?_eq_none_iff {parameter : Parameter ρ} :
    placement? (parameter.attributes.map (·.name)) = none ↔ StartsWell parameter := by
  obtain ⟨name, owners, default, location⟩ := parameter
  cases owners with
  | nil => simp [placement?.eq_def, StartsWell]
  | cons first more =>
    rw [List.map_cons, placement?_cons]
    by_cases hexact : first.name = "Parameter"
    · have hword : Text.IsSpelling "Parameter" "Parameter" := rfl
      simp [StartsWell, hexact, hword]
    · simp only [StartsWell, List.head?_cons, Option.mem_some_iff, exists_eq_left', hexact, if_false,
        iff_false]
      split
      · exact Option.some_ne_none _
      · split <;> exact Option.some_ne_none _

theorem toList_placement? (parameter : Parameter ρ) :
    (placement? (parameter.attributes.map (·.name))).toList =
      placementRules.filter fun rule => BreaksPlacement parameter rule := by
  simp only [← placement?_eq_some_iff]
  cases hplaced : placement? (parameter.attributes.map (·.name)) with
  | none => simp
  | some rule =>
    have hbroken := placement?_eq_some_iff.1 hplaced
    cases rule with
    | mandatoryArgument => exact hbroken.elim
    | unreadable => exact hbroken.elim
    | _ => rfl

theorem isWrongMandatory_eq (argument : NamedArgument ρ) :
    isWrongMandatory argument = decide (IsMandatory argument ∧ ¬ IsExact argument) := by
  rw [Bool.eq_iff_iff, decide_eq_true_iff, isWrongMandatory, Bool.and_eq_true, beq_iff_eq,
    lowerString_eq_mandatory_iff, Bool.not_eq_true', IsMandatory, IsExact, ← Bool.not_eq_true]
  simp only [Bool.and_eq_true, beq_iff_eq, Bool.not_eq_true', and_assoc]

/-- What is found for a parameter is what is to be found. -/
theorem diagnostics_eq (parameter : Parameter ρ) : diagnostics parameter = expected parameter := by
  have hplaced : ((placement? (parameter.attributes.map (·.name))).map
      (warning · parameter.location)).toList =
        (placementRules.filter fun rule => BreaksPlacement parameter rule).map
          (warning · parameter.location) := by
    rw [← toList_placement?]
    cases placement? (parameter.attributes.map (·.name)) <;> rfl
  have hwrong : isWrongMandatory (ρ := ρ) =
      fun argument => decide (IsMandatory argument ∧ ¬ IsExact argument) :=
    funext isWrongMandatory_eq
  rw [diagnostics, expected, hplaced, filterMap_if, List.filter_flatMap, List.map_flatMap, hwrong]

end

/-! ## The list of findings -/

theorem precedes_iff (a b : Diagnostic Extent) : precedes a b = true ↔ ListedBefore a b := by
  rw [precedes, ListedBefore, Ordering.isLE_then_iff_or, Ordering.then_eq_lt, Ordering.then_eq_eq,
    Nat.compare_eq_lt, Nat.compare_eq_eq, Nat.compare_eq_lt, Nat.compare_eq_eq,
    Std.LawfulBCmp.isLE_iff_le]
  tauto

theorem ListedBefore.trans {a b c : Diagnostic Extent} (hab : ListedBefore a b)
    (hbc : ListedBefore b c) : ListedBefore a c := by
  rcases hab with hline | ⟨hline, hcolumn | ⟨hcolumn, hrule⟩⟩
  · rcases hbc with hline' | ⟨hline', -⟩
    · exact .inl (hline.trans hline')
    · exact .inl (hline'.symm ▸ hline)
  · rcases hbc with hline' | ⟨hline', hcolumn' | ⟨hcolumn', -⟩⟩
    · exact .inl (hline ▸ hline')
    · exact .inr ⟨hline.trans hline', .inl (hcolumn.trans hcolumn')⟩
    · exact .inr ⟨hline.trans hline', .inl (hcolumn' ▸ hcolumn)⟩
  · rcases hbc with hline' | ⟨hline', hcolumn' | ⟨hcolumn', hrule'⟩⟩
    · exact .inl (hline ▸ hline')
    · exact .inr ⟨hline.trans hline', .inl (hcolumn ▸ hcolumn')⟩
    · exact .inr ⟨hline.trans hline', .inr ⟨hcolumn.trans hcolumn', le_trans hrule hrule'⟩⟩

theorem ListedBefore.total (a b : Diagnostic Extent) : ListedBefore a b ∨ ListedBefore b a := by
  rcases lt_trichotomy a.location.first.line b.location.first.line with hline | hline | hline
  · exact .inl (.inl hline)
  · rcases lt_trichotomy a.location.first.column b.location.first.column with
      hcolumn | hcolumn | hcolumn
    · exact .inl (.inr ⟨hline, .inl hcolumn⟩)
    · rcases le_total a.rule.text b.rule.text with hrule | hrule
      · exact .inl (.inr ⟨hline, .inr ⟨hcolumn, hrule⟩⟩)
      · exact .inr (.inr ⟨hline.symm, .inr ⟨hcolumn.symm, hrule⟩⟩)
    · exact .inr (.inr ⟨hline.symm, .inl hcolumn⟩)
  · exact .inr (.inl hline)

theorem pairwise_mergeSort_precedes (found : List (Diagnostic Extent)) :
    (found.mergeSort precedes).Pairwise ListedBefore := by
  have hsorted : (found.mergeSort precedes).Pairwise fun a b => precedes a b = true := by
    refine List.pairwise_mergeSort (fun a b c => ?_) (fun a b => ?_) found
    · simp only [precedes_iff]
      exact ListedBefore.trans
    · rw [Bool.or_eq_true, precedes_iff, precedes_iff]
      exact ListedBefore.total a b
  exact hsorted.imp fun h => (precedes_iff _ _).1 h

theorem length_filter_placementRules {ρ : Type} (parameter : Parameter ρ) :
    (placementRules.filter fun rule => BreaksPlacement parameter rule).length =
      if StartsWell parameter then 0 else 1 := by
  rw [← toList_placement?]
  by_cases hwell : StartsWell parameter
  · rw [placement?_eq_none_iff.2 hwell, if_pos hwell]
    rfl
  · obtain ⟨rule, hrule⟩ := Option.ne_none_iff_exists'.1 fun hnone =>
      hwell (placement?_eq_none_iff.1 hnone)
    rw [hrule, if_neg hwell]
    rfl

theorem expected_eq_nil_iff {ρ : Type} (parameter : Parameter ρ) :
    expected parameter = [] ↔ StartsWell parameter ∧
      ∀ owner ∈ parameter.attributes, ∀ argument ∈ owner.named,
        IsMandatory argument → IsExact argument := by
  rw [expected, List.append_eq_nil_iff, List.map_eq_nil_iff, ← toList_placement?,
    Option.toList_eq_nil_iff, placement?_eq_none_iff, List.flatMap_eq_nil_iff]
  simp only [List.map_eq_nil_iff, List.filter_eq_nil_iff, decide_eq_true_eq, not_and, not_not]

/-- A script that can be read has exactly the findings that its parameters give rise to, in order.  Each
parameter that does not start with an attribute named `Parameter` gives rise to one on its first attribute,
so there are none exactly if every parameter starts with one and every `Mandatory` argument reads
`Mandatory = $true`.  A script that cannot be read has one finding, where reading fails. -/
theorem analyze_exact (text : List Char) :
    (∀ fault, PowerShell.parameters text = .error fault →
      analyze text = [⟨.unreadable, .parseError, fault.cause.message,
        ⟨fault.position text, fault.position text, ""⟩⟩]) ∧
    ∀ found, PowerShell.parameters text = .ok found →
      let parameters := found.map fun parameter => parameter.map (·.extent text)
      (analyze text).Pairwise ListedBefore ∧ (analyze text).Perm (parameters.flatMap expected) ∧
        (∀ parameter ∈ parameters,
          (placementRules.filter fun rule => BreaksPlacement parameter rule).length =
            if StartsWell parameter then 0 else 1) ∧
        (analyze text = [] ↔ ∀ parameter ∈ parameters, StartsWell parameter ∧
          ∀ owner ∈ parameter.attributes, ∀ argument ∈ owner.named,
            IsMandatory argument → IsExact argument) := by
  refine ⟨fun fault hread => ?_, fun found hread => ?_⟩
  · rw [analyze, hread]
    rfl
  intro parameters
  have hanalyze : analyze text = (parameters.flatMap expected).mergeSort precedes := by
    rw [analyze, hread, ← funext diagnostics_eq]
  have hperm : (analyze text).Perm (parameters.flatMap expected) := by
    rw [hanalyze]
    exact List.mergeSort_perm _ _
  refine ⟨?_, hperm, fun parameter _ => length_filter_placementRules parameter, ?_⟩
  · rw [hanalyze]
    exact pairwise_mergeSort_precedes _
  · rw [← List.isEmpty_iff, hperm.isEmpty_eq, List.isEmpty_iff, List.flatMap_eq_nil_iff]
    simp only [expected_eq_nil_iff]

end DscAudit.Rule

import DscAudit.Proofs.PowerShell.TwinAttribute

/-!
# Offsets within the text

Every declaration is found at a span within the text, and every fault is reported at an offset of it, the
end included.  Each reader is given a text that ends at a bound, and so is each reader that it calls: none
gets beyond the end of its text.
-/

namespace DscAudit.PowerShell

/-! ## Readings within a bound -/

section

variable {α β : Type} {bound : Nat}

/-- What is read has a property, or there is a fault, which lies at an offset up to a bound. -/
def ReadsWithin (bound : Nat) (good : α → Prop) : Except Fault α → Prop
  | .ok found => good found
  | .error fault => fault.offset ≤ bound

theorem ReadsWithin.bind {good : α → Prop} {good' : β → Prop} {read : Except Fault α}
    {further : α → Except Fault β} (h : ReadsWithin bound good read)
    (hfurther : ∀ found, read = .ok found → good found → ReadsWithin bound good' (further found)) :
    ReadsWithin bound good' (read >>= further) := by
  rcases read with fault | found
  · exact h
  · exact hfurther found rfl h

/-- The text at a cursor ends at the bound or before it. -/
def Cursor.Within (bound : Nat) (cursor : Cursor) : Prop :=
  cursor.offset + cursor.rest.length ≤ bound

theorem Cursor.Within.tail {cursor : Cursor} {c : Char} {rest : List Char} (h : cursor.Within bound)
    (hrest : cursor.rest = c :: rest) : Cursor.Within bound ⟨cursor.offset + 1, rest⟩ := by
  simp only [Cursor.Within, hrest, List.length_cons] at h ⊢
  omega

theorem Cursor.Within.advance {cursor : Cursor} {count : Nat} (h : cursor.Within bound)
    (hcount : count ≤ cursor.rest.length) : (cursor.advance count).Within bound := by
  simp only [Cursor.Within, Cursor.advance, List.length_drop] at h ⊢
  omega

/-- Behind brackets of which the first one stands before the cursor. -/
theorem Cursor.Within.behind {expected : Char} {inside : List Char} {offset close : Nat}
    (h : Cursor.Within bound ⟨offset + 1, inside⟩)
    (hclose : Closes expected [] (offset + 1) inside close) :
    Cursor.Within bound ⟨close + 1, inside.drop (close - offset)⟩ := by
  have hbounds := hclose.bounds
  simp only [Cursor.Within, List.length_drop] at h ⊢
  omega

end

variable {bound stop offset : Nat} {s : List Char}

theorem readsWithin_scanAt {c : Char} {rest : List Char} (h : offset ≤ bound) :
    ReadsWithin bound (fun _ => True) (Lexeme.scanAt offset c rest) := by
  rw [Lexeme.scanAt]
  cases Lexeme.scan c rest with
  | error cause => exact h
  | ok lexeme => trivial

/-! ## Code and brackets -/

theorem readsWithin_skipTriviaFrom (h : Cursor.Within bound ⟨offset, s⟩) :
    ReadsWithin bound (Cursor.Within bound) (skipTriviaFrom stop offset s) := by
  have hclip : ∀ {cursor : Cursor}, cursor.Within bound → (cursor.clip stop).Within bound := by
    intro cursor hcursor
    exact (Nat.add_le_add_right (Nat.min_le_left _ _) _).trans hcursor
  fun_induction skipTriviaFrom stop offset s with
  | case1 => exact hclip h
  | case2 _ _ _ _ _ ih => exact ih (h.tail rfl)
  | case3 offset c rest _ _ _ ih =>
      exact (readsWithin_scanAt (Nat.le_of_add_right_le h)).bind fun lexeme _ _ =>
        ih lexeme (h.advance lexeme.length_le)
  | case4 offset c rest _ _ _ hcontinues ih =>
      obtain ⟨lexeme, _, _, hlength⟩ :=
        exists_scan_of_continuesLine (Bool.and_eq_true_iff.1 hcontinues).1
      exact ih (h.advance (hlength ▸ lexeme.length_le))
  | case5 => exact h
  | case6 => exact hclip h

theorem readsWithin_skipTrivia {start : Cursor} (h : start.Within bound) :
    ReadsWithin bound (Cursor.Within bound) (skipTrivia start stop) :=
  readsWithin_skipTriviaFrom h

theorem readsWithin_codeEndFrom {last : Nat} (h : Cursor.Within bound ⟨offset, s⟩) :
    ReadsWithin bound (fun _ => True) (codeEndFrom stop last offset s) := by
  fun_induction codeEndFrom stop last offset s with
  | case1 => trivial
  | case2 last offset c rest _ hcontinues ih =>
      obtain ⟨lexeme, _, _, hlength⟩ := exists_scan_of_continuesLine hcontinues
      exact ih (h.advance (hlength ▸ lexeme.length_le))
  | case3 last offset c rest _ _ ih =>
      exact (readsWithin_scanAt (Nat.le_of_add_right_le h)).bind fun lexeme _ _ =>
        ih lexeme (h.advance lexeme.length_le)
  | case4 => trivial

theorem readsWithin_codeTextFrom (h : Cursor.Within bound ⟨offset, s⟩) :
    ReadsWithin bound (fun _ => True) (codeTextFrom stop offset s) := by
  fun_induction codeTextFrom stop offset s with
  | case1 => trivial
  | case2 offset c rest _ ih =>
      exact (readsWithin_scanAt (Nat.le_of_add_right_le h)).bind fun lexeme _ _ =>
        (ih lexeme (h.advance lexeme.length_le)).bind fun _ _ _ => trivial
  | case3 => trivial

theorem readsWithin_closingFrom {expected : Char} {outer : List Char}
    (h : Cursor.Within bound ⟨offset, s⟩) :
    ReadsWithin bound (fun _ => True) (closingFrom expected outer offset s) := by
  fun_induction closingFrom expected outer offset s with
  | case1 => trivial
  | case2 expected outer offset c rest ihOpener ihCloser ihPlain ihLexeme =>
      refine (readsWithin_scanAt (Nat.le_of_add_right_le h)).bind fun lexeme _ _ => ?_
      dsimp only
      split
      · split
        · next inner _ => exact ihOpener lexeme inner (h.tail rfl)
        · split
          · split
            · split
              · trivial
              · next next outer => exact ihCloser lexeme next outer (h.tail rfl)
            · exact Nat.le_of_add_right_le h
          · exact ihPlain lexeme (h.tail rfl)
      · exact ihLexeme lexeme (h.advance lexeme.length_le)

theorem readsWithin_closing {opening expected : Char} {inside : Cursor}
    (h : inside.Within bound) :
    ReadsWithin bound (fun _ => True) (closing opening expected inside) := by
  refine (readsWithin_closingFrom h).bind fun found _ _ => ?_
  cases found with
  | none => exact (Nat.sub_le _ _).trans (Nat.le_of_add_right_le h)
  | some close => trivial

theorem readsWithin_splitFrom {part : Cursor} (hpart : part.Within bound)
    (h : Cursor.Within bound ⟨offset, s⟩) :
    ReadsWithin bound (fun parts => ∀ part ∈ parts, part.start.Within bound)
      (splitFrom stop part offset s) := by
  fun_induction splitFrom stop part offset s with
  | case1 => exact List.forall_mem_singleton.2 hpart
  | case2 part offset c rest _ ihGroup ihComma ihPlain ihLexeme =>
      refine (readsWithin_scanAt (Nat.le_of_add_right_le h)).bind fun lexeme _ _ => ?_
      dsimp only
      split
      · split
        · next expected _ =>
          exact (readsWithin_closing (h.tail rfl)).bind fun close hclose _ =>
            ihGroup lexeme close hpart ((h.tail rfl).behind (closing_eq_iff.1 hclose))
        · split
          · exact (ihComma lexeme (h.tail rfl) (h.tail rfl)).bind fun parts _ hparts =>
              List.forall_mem_cons.2 ⟨hpart, hparts⟩
          · exact ihPlain lexeme hpart (h.tail rfl)
      · exact ihLexeme lexeme hpart (h.advance lexeme.length_le)
  | case3 => exact List.forall_mem_singleton.2 hpart

theorem readsWithin_splitTopLevel {start : Cursor} (h : start.Within bound) :
    ReadsWithin bound (fun parts => ∀ part ∈ parts, part.start.Within bound)
      (splitTopLevel start stop) :=
  readsWithin_splitFrom h h

/-! ## Declarations -/

theorem readsWithin_readArgument {part : Part} (h : part.start.Within bound) :
    ReadsWithin bound (fun _ => True) (readArgument part) := by
  refine (readsWithin_skipTrivia h).bind fun start _ hstart => ?_
  refine (readsWithin_codeEndFrom hstart).bind fun last _ _ => ?_
  split
  · exact (readsWithin_codeTextFrom hstart).bind fun _ _ _ => trivial
  · trivial

theorem readsWithin_readArguments {parts : List Part}
    (h : ∀ part ∈ parts, part.start.Within bound) :
    ReadsWithin bound (fun _ => True) (parts.mapM readArgument) := by
  induction parts with
  | nil => trivial
  | cons part parts ih =>
      obtain ⟨hpart, hparts⟩ := List.forall_mem_cons.1 h
      rw [List.mapM_cons]
      exact (readsWithin_readArgument hpart).bind fun _ _ _ =>
        (ih hparts).bind fun _ _ _ => trivial

theorem readsWithin_findArguments (h : Cursor.Within bound ⟨offset, s⟩) :
    ReadsWithin bound
      (fun found => ∀ opening ∈ found, opening.Within bound ∧ ∃ inside, opening.rest = '(' :: inside)
      (findArguments stop offset s) := by
  have hnone : ∀ opening ∈ (none : Option Cursor),
      opening.Within bound ∧ ∃ inside, opening.rest = '(' :: inside :=
    fun _ hopening => by cases hopening
  fun_induction findArguments stop offset s with
  | case1 => exact hnone
  | case2 offset rest =>
      rintro opening ⟨⟩
      exact ⟨h, rest, rfl⟩
  | case3 offset rest _ _ ih =>
      exact (readsWithin_closing (h.tail rfl)).bind fun close hclose _ =>
        ih close ((h.tail rfl).behind (closing_eq_iff.1 hclose))
  | case4 offset c rest _ _ _ ih => exact ih (h.tail rfl)
  | case5 => exact hnone

theorem readsWithin_readAttribute {start : Cursor} {close : Nat} {c : Char} {rest : List Char}
    (hrest : start.rest = c :: rest) (h : start.Within bound) :
    ReadsWithin bound (fun _ => True) (readAttribute start close) := by
  have hpos : 1 ≤ start.rest.length := by
    rw [hrest]
    exact Nat.succ_pos _
  refine (readsWithin_skipTrivia (h.advance hpos)).bind fun inner _ hinner => ?_
  refine (readsWithin_findArguments hinner).bind fun found _ hopening => ?_
  cases found with
  | none => trivial
  | some opening =>
      obtain ⟨hwithin, inside, hround⟩ := hopening opening rfl
      have hinside := hwithin.tail hround
      dsimp only
      rw [advance_one hround]
      refine (readsWithin_closing hinside).bind fun argumentsClose hclosing _ => ?_
      have hclose := closing_eq_iff.1 hclosing
      rw [advance_group hround hclose.bounds.1]
      refine (readsWithin_skipTrivia (hinside.behind hclose)).bind fun tail _ htail => ?_
      split
      · exact Nat.le_of_add_right_le htail
      · exact (readsWithin_splitTopLevel hinside).bind fun parts _ hparts =>
          (readsWithin_readArguments hparts).bind fun _ _ _ => trivial

/-- The induction is on the length of the text at the cursor. -/
theorem readsWithin_readAttributes {start : Cursor} (h : start.Within bound) :
    ReadsWithin bound (fun found => found.2.Within bound) (readAttributes stop start) := by
  induction hlength : start.rest.length using Nat.strong_induction_on generalizing start with
  | _ length ih =>
    subst hlength
    by_cases hsquare : start.offset < stop ∧ ∃ rest, start.rest = '[' :: rest
    · obtain ⟨hlt, rest, hrest⟩ := hsquare
      have hinside := h.tail hrest
      rw [readAttributes_square hrest hlt]
      refine (readsWithin_closing hinside).bind fun close hclosing _ => ?_
      refine (readsWithin_readAttribute hrest h).bind fun first _ _ => ?_
      have hclose := closing_eq_iff.1 hclosing
      rw [advance_group hrest hclose.bounds.1]
      refine (readsWithin_skipTrivia (hinside.behind hclose)).bind fun next hnext hwithin => ?_
      have hshorter : next.rest.length < start.rest.length := by
        have hle := skipTrivia_length_le hnext
        rw [List.length_drop] at hle
        rw [hrest, List.length_cons]
        omega
      exact (ih _ hshorter hwithin rfl).bind fun _ _ hbehind => hbehind
    · rw [readAttributes_other fun hlt rest hrest => hsquare ⟨hlt, rest, hrest⟩]
      exact h

theorem readsWithin_readDefault (name : String) {behind : Cursor} (h : behind.Within bound) :
    ReadsWithin bound (fun _ => True) (readDefault name behind stop) := by
  refine (readsWithin_skipTrivia h).bind fun place _ hplace => ?_
  split
  · split
    · next rest hrest =>
      obtain ⟨offset, s⟩ := place
      cases hrest
      refine (readsWithin_skipTrivia (hplace.tail rfl)).bind fun value _ hvalue => ?_
      refine (readsWithin_codeEndFrom hvalue).bind fun last _ _ => ?_
      split
      · exact Nat.le_of_add_right_le hplace
      · exact (readsWithin_codeTextFrom hvalue).bind fun _ _ _ => trivial
    · exact Nat.le_of_add_right_le hplace
    · trivial
  · trivial

theorem readsWithin_readParameter {start : Cursor} (h : start.Within bound) :
    ReadsWithin bound (fun _ => True) (readParameter start stop) := by
  refine (readsWithin_readAttributes h).bind fun found _ hplace => ?_
  obtain ⟨owners, place⟩ := found
  dsimp only at hplace ⊢
  split
  · exact Nat.le_of_add_right_le hplace
  · next name length hname =>
    have hlength : length ≤ place.rest.length :=
      (variableName?_length hname).2.trans (List.length_take_le' _ _)
    exact (readsWithin_readDefault name (hplace.advance hlength)).bind fun _ _ _ => trivial

theorem readsWithin_readParameters (found : Bool) {parts : List Part}
    (h : ∀ part ∈ parts, part.start.Within bound) :
    ReadsWithin bound (fun _ => True) (readParameters found parts) := by
  induction parts generalizing found with
  | nil => trivial
  | cons part parts ih =>
      obtain ⟨hpart, hparts⟩ := List.forall_mem_cons.1 h
      refine (readsWithin_skipTrivia hpart).bind fun start _ hstart => ?_
      split
      · exact (readsWithin_readParameter hstart).bind fun _ _ _ =>
          (ih true hparts).bind fun _ _ _ => trivial
      · split
        · exact Nat.le_of_add_right_le hpart
        · exact ih found hparts

theorem readsWithin_readBlock {keyword close : Nat} {inside : Cursor} (h : inside.Within bound) :
    ReadsWithin bound (fun _ => True) (readBlock keyword inside close) :=
  (readsWithin_splitTopLevel h).bind fun _ _ hparts =>
    (readsWithin_readParameters false hparts).bind fun _ _ _ => trivial

theorem readsWithin_blocksFrom {previous : Option Char} (h : Cursor.Within bound ⟨offset, s⟩) :
    ReadsWithin bound (fun _ => True) (blocksFrom previous offset s) := by
  fun_induction blocksFrom previous offset s with
  | case1 => trivial
  | case2 previous offset c rest ihBlock ihName ihWord ihPlain ihLexeme =>
      refine (readsWithin_scanAt (Nat.le_of_add_right_le h)).bind fun lexeme _ _ => ?_
      have hbehind : Cursor.Within bound ⟨offset + (c :: rest.takeWhile isNamePart).length,
          rest.drop ((c :: rest.takeWhile isNamePart).length - 1)⟩ := by
        have hword := (List.takeWhile_sublist isNamePart (l := rest)).length_le
        simp only [Cursor.Within, List.length_cons, List.length_drop] at h ⊢
        omega
      dsimp only
      split
      · split
        · split
          · have hskip := @readsWithin_skipTrivia bound (offset + rest.length + 1) _ hbehind
            split
            · next fault hfault =>
              rw [hfault] at hskip
              exact hskip
            · next next hnext =>
              rw [hnext] at hskip
              split
              · next inside hinside =>
                have hwithin := Cursor.Within.tail hskip hinside
                refine (readsWithin_closing hwithin).bind fun close hclosing _ => ?_
                refine (readsWithin_readBlock hwithin).bind fun block _ _ => ?_
                exact (ihBlock lexeme next hnext inside hinside close
                  (hwithin.behind (closing_eq_iff.1 hclosing))).bind fun _ _ _ => trivial
              · exact ihName lexeme [] hbehind
          · exact ihWord lexeme hbehind
        · exact ihPlain lexeme (h.tail rfl)
      · exact ihLexeme lexeme (h.advance lexeme.length_le)

/-- Every fault lies in the text or at its end. -/
theorem offset_le_of_fault {text : List Char} {fault : Fault}
    (h : parameterBlocks text = .error fault) : fault.offset ≤ text.length := by
  have hwithin := @readsWithin_blocksFrom text.length 0 text none (Nat.zero_add _).le
  rw [parameterBlocks] at h
  rw [h] at hwithin
  exact hwithin

/-! ## Spans within the text -/

def Span.Within (bound : Nat) (span : Span) : Prop := span.start ≤ bound ∧ span.stop ≤ bound

theorem Ordered.within {first last bound : Nat} {spans : List Span} (h : Ordered first last spans)
    (hle : last ≤ bound) : ∀ span ∈ spans, span.Within bound := by
  intro span hspan
  have hstop := (h.bounds span hspan).2.trans hle
  exact ⟨(h.start_lt_stop span hspan).le.trans hstop, hstop⟩

/-- All that is declared with a parameter is found up to a bound. -/
structure Parameter.Within (bound : Nat) (parameter : Parameter Span) : Prop where
  location : parameter.location.Within bound
  attributes : ∀ owner ∈ parameter.attributes, owner.location.Within bound
  arguments : ∀ owner ∈ parameter.attributes, ∀ argument ∈ owner.named,
    argument.location.Within bound

/-- All declarations lie within the text. -/
theorem parameter_within {text : List Char} {blocks : List (ParameterBlock Span)}
    (h : parameterBlocks text = .ok blocks) {block : ParameterBlock Span} (hblock : block ∈ blocks)
    {parameter : Parameter Span} (hparameter : parameter ∈ block.parameters) :
    parameter.Within text.length := by
  obtain ⟨hordered, hblocks⟩ : Nests text (ArgumentsFound text) blocks :=
    @blocksFrom_found text text none 0 blocks rfl (Nat.zero_le _) h
  obtain ⟨opening, _, _, _, hparameters, hnests⟩ := hblocks block hblock
  have hend := (hordered.bounds _ (List.mem_map_of_mem hblock)).2
  have hlocation := hparameters.within ((Nat.sub_le _ 1).trans hend) _ (List.mem_map_of_mem hparameter)
  obtain ⟨hattributes, howners⟩ := hnests parameter hparameter
  refine ⟨hlocation, fun owner howner => ?_, fun owner howner argument hargument => ?_⟩
  · exact hattributes.within hlocation.2 _ (List.mem_map_of_mem howner)
  · obtain ⟨_, _, hfound⟩ := howners owner howner
    obtain ⟨last, hnamed⟩ := hfound.ordered
    have hlt := hnamed.start_lt_stop _ (List.mem_map_of_mem hargument)
    have hstop := hfound.within argument hargument
    exact ⟨hlt.le.trans hstop, hstop⟩

end DscAudit.PowerShell

import DscAudit.Proofs.PowerShell.Fitting

/-!
# Lists of arguments

A written list is split at its commas, and each argument is read as what it means.
-/

namespace DscAudit.PowerShell

/-! ## Arguments -/

theorem textOf_ne_nil {pieces : List Piece} (h : pieces ≠ []) : textOf pieces ≠ [] := by
  obtain ⟨piece, rest, rfl⟩ := List.exists_cons_of_ne_nil h
  exact List.append_ne_nil_of_left_ne_nil piece.text_ne_nil _

theorem Apart.of_append {front pieces : List Piece} {gap : Gap} (h : Apart (front ++ pieces) gap)
    (hpieces : pieces ≠ []) : Apart pieces gap := by
  unfold Apart at h
  rw [List.getLast?_append_of_ne_nil _ hpieces] at h
  exact h

/-- What may stand behind an item of a list. -/
def EndsItem (behind : List Char) : Prop := ∀ c ∈ behind.head?, c = ',' ∨ c = ')'

theorem Value.fits_gap (value : Value) {gap : Gap} {behind : List Char}
    (hapart : Apart value.pieces gap) (hbehind : EndsItem behind) :
    Fits value.pieces (gap.text ++ behind) := by
  refine fits_behind value.fits value.noComment ?_ ?_
  · intro c hc
    rcases gap.head_append behind c hc with (hblank | rfl | rfl) | hc
    · constructor
      · rintro rfl
        revert hblank
        decide
      · rintro rfl
        revert hblank
        decide
    · decide
    · decide
    · rcases hbehind c hc with rfl | rfl
      · decide
      · decide
  · intro piece hpiece hplain htext hhash
    apply hapart piece hpiece hplain htext
    cases hgap : gap.text with
    | nil =>
        rw [hgap] at hhash
        rcases hbehind _ hhash with heq | heq
        · cases heq
        · cases heq
    | cons d rest =>
        rw [hgap] at hhash
        exact hhash

theorem wordPieces_isSolid {s : List Char} {hs : ∀ c ∈ s, Text.isWordChar c = true}
    (hne : s ≠ []) : IsSolid (wordPieces s hs) := by
  constructor
  · cases s with
    | nil => exact absurd rfl hne
    | cons c s =>
        exact ⟨_, _, rfl, char_not_trivia (Text.isBlank_of_isWordChar (hs c List.mem_cons_self))⟩
  · obtain ⟨front, c, hs'⟩ := (List.eq_nil_or_concat s).resolve_left hne
    rw [List.concat_eq_append] at hs'
    subst hs'
    have hc : Text.isWordChar c = true := hs c (by simp)
    refine ⟨wordPieces front fun d hd => hs d (List.mem_append_left _ hd), Piece.char c _,
      List.pmap_append _, char_not_trivia (Text.isBlank_of_isWordChar hc)⟩

theorem Identifier.ne_nil (name : Identifier) : name.text ≠ [] := by
  have h := name.isIdentifier
  intro hnil
  rw [hnil] at h
  cases h

theorem isIdentifier_iff {name : List Char} : isIdentifier name = true ↔
    ∃ c rest, name = c :: rest ∧ isIdentifierStart c = true ∧
      ∀ d ∈ rest, isIdentifierPart d = true := by
  cases name with
  | nil => simp [isIdentifier]
  | cons c rest => simp [isIdentifier]

theorem assignment?_identifier {name : List Char} (h : isIdentifier name = true) :
    assignment? name = none := by
  obtain ⟨c, rest, rfl, hc, hrest⟩ := isIdentifier_iff.1 h
  obtain ⟨_, hdrop⟩ := @Text.takeWhile_append_of_head? _ rest [] hrest nofun
  rw [List.append_nil] at hdrop
  rw [assignment?, if_pos hc, hdrop]
  rfl

theorem not_isIdentifierPart {c : Char} (h : Text.isBlank c = true ∨ c = '=') :
    isIdentifierPart c = false := by
  rcases h with hblank | rfl
  · by_contra hcontra
    have hword := isWordChar_of_isIdentifierPart (Bool.of_not_eq_false hcontra)
    rw [Text.isBlank_of_isWordChar hword] at hblank
    cases hblank
  · decide

theorem assignment?_pair {name before after value : List Char} (hname : isIdentifier name = true)
    (hbefore : ∀ c ∈ before, Text.isBlank c = true) (hafter : ∀ c ∈ after, Text.isBlank c = true)
    (hvalue : value.head? ≠ some '=') :
    assignment? (name ++ (before ++ '=' :: (after ++ value))) =
      some (name, Text.trim (after ++ value)) := by
  obtain ⟨c, rest, rfl, hc, hrest⟩ := isIdentifier_iff.1 hname
  have hhead : ∀ d ∈ (before ++ '=' :: (after ++ value)).head?, isIdentifierPart d = false := by
    intro d hd
    apply not_isIdentifierPart
    cases before with
    | nil =>
        cases hd
        exact .inr rfl
    | cons b before =>
        cases hd
        exact .inl (hbefore _ List.mem_cons_self)
  have hblank : ∀ d ∈ ('=' :: (after ++ value)).head?, Text.isBlank d = false := by
    rintro _ ⟨⟩
    decide
  have hnot : ∀ more, after ++ value ≠ '=' :: more := by
    intro more heq
    cases after with
    | nil =>
        rw [List.nil_append] at heq
        rw [heq] at hvalue
        exact hvalue rfl
    | cons b after =>
        have hb := hafter b List.mem_cons_self
        rw [(List.cons.inj heq).1] at hb
        revert hb
        decide
  obtain ⟨htake, hdrop⟩ := Text.takeWhile_append_of_head? hrest hhead
  have htrim := (Text.takeWhile_append_of_head? hbefore hblank).2
  rw [List.cons_append, assignment?, if_pos hc, hdrop, htake, Text.trimStart, htrim]
  split
  · next heq => exact absurd (List.cons.inj heq).2 (hnot _)
  · next heq =>
    cases heq
    rfl
  · next _ hnone => exact absurd rfl (hnone _)

theorem assignment?_eq_none {text : List Char}
    (h : ∀ name blanks rest, isIdentifier name = true → (∀ c ∈ blanks, Text.isBlank c = true) →
      text = name ++ (blanks ++ '=' :: rest) → rest.head? = some '=') :
    assignment? text = none := by
  cases text with
  | nil => rfl
  | cons c rest =>
      rw [assignment?]
      split
      · next hc =>
        split
        · rfl
        · next value hnot heq =>
          -- the name, the blanks and the value would be of the form that is excluded
          exfalso
          have hname : isIdentifier (c :: rest.takeWhile isIdentifierPart) = true :=
            isIdentifier_iff.2 ⟨c, _, rfl, hc, List.all_eq_true.1 List.all_takeWhile⟩
          have hblanks := List.all_eq_true.1
            (List.all_takeWhile (p := Text.isBlank) (l := rest.dropWhile isIdentifierPart))
          have hsplit := List.takeWhile_append_dropWhile (p := Text.isBlank)
            (l := rest.dropWhile isIdentifierPart)
          have hwhole := List.takeWhile_append_dropWhile (p := isIdentifierPart) (l := rest)
          rw [Text.trimStart] at heq
          rw [heq] at hsplit
          have hhead := h _ _ value hname hblanks (by rw [hsplit, List.cons_append, hwhole])
          obtain ⟨more, rfl⟩ : ∃ more, value = '=' :: more := by
            cases value with
            | nil => cases hhead
            | cons d more =>
                cases hhead
                exact ⟨more, rfl⟩
          exact hnot more rfl
        · rfl
      · rfl

namespace WrittenArgument

theorem fits (argument : WrittenArgument) {gap : Gap} {behind : List Char}
    (hapart : Apart argument.pieces gap) (hbehind : EndsItem behind) :
    Fits argument.pieces (gap.text ++ behind) := by
  cases argument with
  | bare name =>
      exact fits_chars (fun c hc => (ordinary_of_isWordChar (name.isWordChar c hc)).1) _
  | pair name before after value hvalue =>
      have hlast : Apart value.pieces gap := by
        have hpieces : (pair name before after value hvalue).pieces =
            (name.pieces ++ (before.pieces ++ Piece.equals :: after.pieces)) ++ value.pieces := by
          simp [pieces]
        rw [hpieces] at hapart
        exact hapart.of_append value.ne_nil
      refine fits_append.2 ⟨fits_chars
        (fun c hc => (ordinary_of_isWordChar (name.isWordChar c hc)).1) _, ?_⟩
      refine fits_append.2 ⟨before.fits _, ends_ordinary (by decide) _, ?_⟩
      exact fits_append.2 ⟨after.fits _, value.fits_gap hlast hbehind⟩
  | positional value => exact value.fits_gap hapart hbehind

theorem balanced (argument : WrittenArgument) : Balanced false argument.pieces := by
  cases argument with
  | bare name =>
      exact balanced_chars (fun c hc => (ordinary_of_isWordChar (name.isWordChar c hc)).2) _
  | pair name before after value hvalue =>
      refine (balanced_chars
        (fun c hc => (ordinary_of_isWordChar (name.isWordChar c hc)).2) _).append ?_
      exact (before.balanced _).append
        (.char rfl (fun _ => by decide) ((after.balanced _).append value.balanced))
  | positional value => exact value.balanced

theorem isSolid (argument : WrittenArgument) : IsSolid argument.pieces := by
  cases argument with
  | bare name => exact @wordPieces_isSolid name.text name.isWordChar name.ne_nil
  | pair name before after value hvalue =>
      have hpieces : (pair name before after value hvalue).pieces =
          name.pieces ++ ((before.pieces ++ Piece.equals :: after.pieces) ++ value.pieces) := by
        simp [pieces]
      rw [hpieces]
      exact (@wordPieces_isSolid name.text name.isWordChar name.ne_nil).around value.isSolid _
  | positional value => exact value.isSolid

theorem ofText_shown (argument : WrittenArgument) (offset : Nat) :
    Argument.ofText (shownOf argument.pieces)
        ⟨offset, offset + (textOf argument.pieces).length⟩ = argument.meaning offset := by
  cases argument with
  | bare name =>
      have hshown : shownOf (bare name).pieces = name.text := shownOf_chars
      rw [hshown, Argument.ofText, assignment?_identifier name.isIdentifier,
        if_pos name.isIdentifier]
      rfl
  | pair name before after value hvalue =>
      have hshown : shownOf (pair name before after value hvalue).pieces =
          name.text ++ (shownOf before.pieces ++ '=' :: (shownOf after.pieces ++ value.text)) := by
        have hname : shownOf name.pieces = name.text := shownOf_chars
        have hequals : shownOf (Piece.equals :: (after.pieces ++ value.pieces)) =
            '=' :: (shownOf after.pieces ++ shownOf value.pieces) := by
          rw [← shownOf_append]
          rfl
        rw [pieces, shownOf_append, shownOf_append, hname, hequals, value.shown]
      rw [hshown, Argument.ofText,
        assignment?_pair name.isIdentifier before.shown after.shown hvalue, value.trim after.shown]
      rfl
  | positional value hname hpair =>
      have hshown : shownOf (positional value hname hpair).pieces = value.text := value.shown
      rw [hshown, Argument.ofText, assignment?_eq_none hpair, hname]
      rfl

end WrittenArgument

/-! ## Lists -/

section Lists

variable {α : Type} {f : α → List Piece}

theorem Spaced.textOf_pieces (entry : Spaced α) : textOf (entry.pieces f) =
    entry.before.text ++ (textOf (f entry.item) ++ entry.behind.text) := by
  rw [Spaced.pieces, textOf_append, textOf_append]
  rfl

theorem Spaced.fits (entry : Spaced α) {behind : List Char}
    (h : Fits (f entry.item) (entry.behind.text ++ behind)) : Fits (entry.pieces f) behind :=
  fits_append.2 ⟨entry.before.fits _, fits_append.2 ⟨h, entry.behind.fits _⟩⟩

theorem Spaced.balanced (entry : Spaced α) {commas : Bool}
    (h : Balanced commas (f entry.item)) : Balanced commas (entry.pieces f) :=
  (entry.before.balanced commas).append (h.append (entry.behind.balanced commas))

theorem Spaced.item_fits {entry : Spaced α} {behind : List Char}
    (h : Fits (entry.pieces f) behind) :
    Fits (f entry.item) (entry.behind.text ++ behind) :=
  (fits_append.1 (fits_append.1 h).2).1

/-- Every item can stand where a list has it. -/
def FitsItems (f : α → List Piece) (list : Listed α) : Prop :=
  ∀ entry ∈ list.entries, ∀ behind, EndsItem behind →
    Fits (f entry.item) (entry.behind.text ++ behind)

theorem endsItem_comma (s : List Char) : EndsItem (',' :: s) := by
  rintro _ ⟨⟩
  exact .inl rfl

theorem endsItem_close (s : List Char) : EndsItem (')' :: s) := by
  rintro _ ⟨⟩
  exact .inr rfl

theorem Listed.fits {list : Listed α} (h : FitsItems f list) {behind : List Char}
    (hbehind : EndsItem behind) : Fits (list.pieces f) behind := by
  cases list with
  | empty gap => exact gap.fits behind
  | items first more =>
      have hmore : ∀ entries : List (Spaced α), (∀ entry ∈ entries, ∀ behind, EndsItem behind →
          Fits (f entry.item) (entry.behind.text ++ behind)) →
          Fits (entries.flatMap fun entry => Piece.comma :: entry.pieces f) behind ∧
            EndsItem (textOf (entries.flatMap fun entry => Piece.comma :: entry.pieces f) ++
              behind) := by
        intro entries hentries
        induction entries with
        | nil => exact ⟨trivial, hbehind⟩
        | cons entry entries ih =>
            rw [List.forall_mem_cons] at hentries
            obtain ⟨hfits, hends⟩ := ih hentries.2
            refine ⟨?_, endsItem_comma _⟩
            rw [List.flatMap_cons]
            refine fits_append.2 ⟨⟨ends_ordinary (by decide) _, ?_⟩, hfits⟩
            exact entry.fits (hentries.1 _ hends)
      have hall : ∀ entry ∈ first :: more, ∀ behind, EndsItem behind →
          Fits (f entry.item) (entry.behind.text ++ behind) := h
      rw [List.forall_mem_cons] at hall
      obtain ⟨hfits, hends⟩ := hmore more hall.2
      exact fits_append.2 ⟨first.fits (hall.1 _ hends), hfits⟩

theorem Listed.balanced {list : Listed α} (h : ∀ item, Balanced false (f item)) :
    Balanced true (list.pieces f) := by
  cases list with
  | empty gap => exact gap.balanced true
  | items first more =>
      refine (first.balanced (h first.item)).weaken.append ?_
      induction more with
      | nil => exact .nil
      | cons entry more ih =>
          rw [List.flatMap_cons, List.cons_append]
          exact .char rfl nofun ((entry.balanced (h entry.item)).weaken.append ih)

/-- The parts into which a list is split. -/
inductive PartsFor (f : α → List Piece) : Nat → List Part → List (Spaced α) → Prop
  | nil {offset : Nat} : PartsFor f offset [] []
  | cons {offset : Nat} {entry : Spaced α} {behind : List Char} {parts : List Part}
      {entries : List (Spaced α)} (hfits : Fits (entry.pieces f) behind)
      (h : PartsFor f (offset + (textOf (entry.pieces f)).length + 1) parts entries) :
      PartsFor f offset
        (⟨⟨offset, textOf (entry.pieces f) ++ behind⟩,
          offset + (textOf (entry.pieces f)).length⟩ :: parts) (entry :: entries)

theorem exists_parts_of_items {first : Spaced α} {more : List (Spaced α)} {behind : List Char}
    {offset stop : Nat} (hbalanced : ∀ item, Balanced false (f item))
    (hfits : Fits ((Listed.items first more).pieces f) behind)
    (hstop : offset + (textOf ((Listed.items first more).pieces f)).length = stop) :
    ∃ parts, splitTopLevel
        ⟨offset, textOf ((Listed.items first more).pieces f) ++ behind⟩ stop = .ok parts ∧
      PartsFor f offset parts (first :: more) := by
  induction more generalizing first offset with
  | nil =>
      have hpieces : (Listed.items first []).pieces f = first.pieces f := by simp [Listed.pieces]
      rw [hpieces] at hfits hstop ⊢
      have hwalk := (first.balanced (hbalanced first.item)).walk hfits offset
      refine ⟨[⟨⟨offset, textOf (first.pieces f) ++ behind⟩, stop⟩], ?_, ?_⟩
      · rw [splitTopLevel, (hwalk.weaken fun _ _ h => h rfl).splitFrom_eq (by omega), hstop,
          splitFrom_stop]
      · subst hstop
        exact .cons hfits .nil
  | cons next more ih =>
      have hpieces : (Listed.items first (next :: more)).pieces f =
          first.pieces f ++ Piece.comma :: (Listed.items next more).pieces f := by
        simp [Listed.pieces]
      rw [hpieces] at hfits hstop ⊢
      obtain ⟨hfirst, _, hnext⟩ := fits_append.1 hfits
      have htext : textOf (first.pieces f ++ Piece.comma :: (Listed.items next more).pieces f) ++
          behind = textOf (first.pieces f) ++
            ',' :: (textOf ((Listed.items next more).pieces f) ++ behind) := by
        simp [Piece.comma, Piece.char]
      have hfirst' : Fits (first.pieces f)
          (',' :: (textOf ((Listed.items next more).pieces f) ++ behind)) := hfirst
      have hlength : offset + (textOf (first.pieces f)).length + 1 +
          (textOf ((Listed.items next more).pieces f)).length = stop := by
        rw [← hstop, textOf_append, textOf_cons, List.length_append, List.length_append]
        simp only [Piece.comma, Piece.char, List.length_singleton]
        omega
      obtain ⟨parts, hparts, hentries⟩ := ih hnext hlength
      have hwalk := (first.balanced (hbalanced first.item)).walk hfirst' offset
      rw [htext]
      refine ⟨⟨⟨offset, _⟩, offset + (textOf (first.pieces f)).length⟩ :: parts, ?_,
        .cons hfirst' hentries⟩
      rw [splitTopLevel, (hwalk.weaken fun _ _ h => h rfl).splitFrom_eq (by omega),
        splitFrom_comma (by omega)]
      rw [splitTopLevel] at hparts
      rw [hparts]
      rfl

end Lists

theorem splitTopLevel_gap (gap : Gap) {behind : List Char} {offset stop : Nat}
    (hstop : offset + gap.text.length = stop) :
    splitTopLevel ⟨offset, gap.text ++ behind⟩ stop =
      .ok [⟨⟨offset, gap.text ++ behind⟩, stop⟩] := by
  have hwalk := (gap.balanced false).walk (gap.fits behind) offset
  have hlength : offset + (textOf gap.pieces).length = stop := hstop
  have hsplit : splitFrom stop ⟨offset, gap.text ++ behind⟩ offset (gap.text ++ behind) =
      splitFrom stop ⟨offset, gap.text ++ behind⟩ (offset + (textOf gap.pieces).length) behind :=
    (hwalk.weaken fun _ _ h => h rfl).splitFrom_eq (by omega)
  rw [hlength, splitFrom_stop] at hsplit
  exact hsplit

/-! ## Argument lists -/

theorem readArgument_gap (gap : Gap) {behind : List Char} {offset stop : Nat}
    (hstop : offset + gap.text.length = stop) :
    readArgument ⟨⟨offset, gap.text ++ behind⟩, stop⟩ = .ok none := by
  have hskip := gap.skip behind (by omega : offset + gap.text.length ≤ stop)
  rw [hstop, skipTriviaFrom_past (Nat.le_refl _)] at hskip
  simp only [readArgument, skipTrivia, hskip, bind, Except.bind, codeEnd, codeEndFrom_stop]
  rw [if_neg (Nat.lt_irrefl stop)]
  rfl

theorem readArgument_entry (entry : Spaced WrittenArgument) {behind : List Char} {offset : Nat}
    (hfits : Fits (entry.pieces WrittenArgument.pieces) behind) :
    readArgument ⟨⟨offset, textOf (entry.pieces WrittenArgument.pieces) ++ behind⟩,
        offset + (textOf (entry.pieces WrittenArgument.pieces)).length⟩ =
      .ok (some (entry.item.meaning (offset + entry.before.text.length))) := by
  have hitem := Spaced.item_fits hfits
  have hpos := entry.item.isSolid.length_pos
  rw [entry.textOf_pieces, List.append_assoc, List.append_assoc]
  generalize hstop : offset + (entry.before.text ++ (textOf entry.item.pieces ++
    entry.behind.text)).length = stop
  simp only [List.length_append] at hstop
  obtain ⟨hskip, hend, htext⟩ := @IsSolid.read _ behind offset stop entry.item.isSolid entry.before
    entry.behind hitem (by omega)
  simp only [readArgument, skipTrivia, hskip, bind, Except.bind, hend]
  rw [if_pos (by omega)]
  simp only [htext, entry.item.ofText_shown]
  rfl

theorem readArguments_parts {offset : Nat} {parts : List Part}
    {entries : List (Spaced WrittenArgument)}
    (h : PartsFor WrittenArgument.pieces offset parts entries) :
    parts.mapM readArgument =
      .ok ((meanings WrittenArgument.pieces WrittenArgument.meaning offset entries).map some) := by
  induction h with
  | nil => rfl
  | cons hfits _ ih =>
      rw [List.mapM_cons, readArgument_entry _ hfits, ih]
      rfl

theorem readArguments_list {list : Listed WrittenArgument} {behind : List Char} {offset : Nat}
    (hfits : Fits (list.pieces WrittenArgument.pieces) behind) :
    ∃ parts found, splitTopLevel ⟨offset, textOf (list.pieces WrittenArgument.pieces) ++ behind⟩
        (offset + (textOf (list.pieces WrittenArgument.pieces)).length) = .ok parts ∧
      parts.mapM readArgument = .ok found ∧
      found.filterMap id =
        meanings WrittenArgument.pieces WrittenArgument.meaning offset list.entries := by
  cases list with
  | empty gap =>
      have hread : readArgument ⟨⟨offset, gap.text ++ behind⟩, offset + gap.text.length⟩ =
          .ok none := readArgument_gap gap rfl
      refine ⟨[⟨⟨offset, _⟩, offset + gap.text.length⟩], [none], splitTopLevel_gap gap rfl, ?_, rfl⟩
      rw [List.mapM_cons, hread]
      rfl
  | items first more =>
      obtain ⟨parts, hparts, hentries⟩ :=
        exists_parts_of_items WrittenArgument.balanced hfits rfl
      refine ⟨parts, _, hparts, readArguments_parts hentries, ?_⟩
      rw [List.filterMap_map]
      exact List.filterMap_some

end DscAudit.PowerShell

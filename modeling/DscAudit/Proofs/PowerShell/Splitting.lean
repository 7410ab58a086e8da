import DscAudit.Proofs.PowerShell.OffsetBlock

/-!
# What is separated by commas

What stands between two brackets is split at its commas, those within inner brackets apart.  The split
never fails, though it looks for the end of every inner group anew: it goes from lexeme to lexeme and from
group to group just as the search for the closing bracket did.  Nothing is lost, and no lexeme is cut.
-/

namespace DscAudit.PowerShell

variable {text s s' rest : List Char} {offset stop place : Nat}

/-! ## The parts -/

/-- A split that goes along a walk does not fail. -/
theorem Walk.exists_splitFrom (h : Walk anyCode offset s stop s') (part : Cursor) :
    ∃ parts, splitFrom stop part offset s = .ok parts := by
  induction h generalizing part with
  | nil => exact ⟨_, splitFrom_stop _ _ _⟩
  | @lexeme c rest _ offset stop lexeme hscan hbracket _ h ih =>
    have hpos := lexeme.length_pos
    have hle := h.le
    by_cases hcomma : noComma lexeme.kind c
    · rw [splitFrom_lexeme hscan hbracket hcomma (by omega)]
      exact ih part
    · simp only [noComma, Classical.not_imp, not_not] at hcomma
      obtain ⟨hkind, rfl⟩ := hcomma
      rw [length_of_plain hscan hkind] at ih
      obtain ⟨parts, hparts⟩ := ih ⟨offset + 1, rest⟩
      rw [splitFrom_comma (by omega)]
      exact ⟨_, congrArg (Except.map _) hparts⟩
  | group hscan hkind hopener hclose h ih =>
    have hfirst := hclose.bounds.1
    have hle := h.le
    rw [splitFrom_group hscan hkind hopener hclose (by omega)]
    exact ih part

/-- A part ends at every comma outside inner groups. -/
theorem Walk.exists_part {comma : Nat} {part : Cursor} {parts : List Part}
    (h : Walk anyCode offset s comma (',' :: rest)) (hlt : comma < stop)
    (hparts : splitFrom stop part offset s = .ok parts) : ∃ found ∈ parts, found.stop = comma := by
  generalize hs' : ',' :: rest = s' at h
  induction h generalizing part parts with
  | nil offset s =>
    subst hs'
    rw [splitFrom_comma hlt] at hparts
    obtain ⟨more, -, rfl⟩ := map_eq_ok.mp hparts
    exact ⟨_, List.mem_cons_self, rfl⟩
  | @lexeme c rest _ offset _ lexeme hscan hbracket _ h ih =>
    have hpos := lexeme.length_pos
    have hle := h.le
    by_cases hcomma : noComma lexeme.kind c
    · rw [splitFrom_lexeme hscan hbracket hcomma (by omega)] at hparts
      exact ih hlt hparts hs'
    · simp only [noComma, Classical.not_imp, not_not] at hcomma
      obtain ⟨hkind, rfl⟩ := hcomma
      rw [length_of_plain hscan hkind] at ih
      rw [splitFrom_comma (by omega)] at hparts
      obtain ⟨more, hmore, rfl⟩ := map_eq_ok.mp hparts
      obtain ⟨found, hfound, hstop⟩ := ih hlt hmore hs'
      exact ⟨found, List.mem_cons_of_mem _ hfound, hstop⟩
  | group hscan hkind hopener hclose h ih =>
    have hfirst := hclose.bounds.1
    have hle := h.le
    rw [splitFrom_group hscan hkind hopener hclose (by omega)] at hparts
    exact ih hlt hparts hs'

/-! ## Inner groups -/

theorem Closes.reaches {expected : Char} {outer : List Char} (h : Closes expected outer offset s stop) :
    Reaches offset s stop := by
  induction h with
  | lexeme hscan _ _ ih => exact .next hscan ih
  | opener hscan hkind _ _ ih =>
    have hlength := length_of_plain hscan hkind
    exact .next hscan (by rw [hlength]; exact ih)
  | closer hscan hkind _ _ ih =>
    have hlength := length_of_plain hscan hkind
    exact .next hscan (by rw [hlength]; exact ih)
  | outermost => exact .here _ _

/-- At the end of a group its closing bracket stands. -/
theorem Closes.exists_at {expected : Char} (h : Closes expected [] offset s stop)
    (hat : Cursor.At text ⟨offset, s⟩) : ∃ behind, Cursor.At text ⟨stop, expected :: behind⟩ := by
  obtain ⟨behind, hbehind⟩ := List.head?_eq_some_iff.mp h.head?
  have hclosing := hat.drop (stop - offset)
  rw [hbehind, Nat.add_sub_cancel' h.bounds.1] at hclosing
  exact ⟨behind, hclosing⟩

/-- A lexeme starts behind a group. -/
theorem Closes.reaches_behind {expected : Char} (h : Closes expected [] (offset + 1) s stop)
    (hcloser : isCloser expected = true) : Reaches (offset + 1) s (stop + 1) := by
  obtain ⟨behind, hbehind⟩ := List.head?_eq_some_iff.mp h.head?
  have hbracket : isBracket expected = true := by rw [isBracket, hcloser, Bool.or_true]
  refine h.reaches.trans ?_
  rw [hbehind]
  exact .next (scan_bracket hbracket behind) (.here _ _)

/-- A place between lexemes lies in a group, at its end or behind it. -/
theorem Reaches.lt_or_behind {expected : Char} {close : Nat} (h : Reaches (offset + 1) s place)
    (hclose : Closes expected [] (offset + 1) s close) (hcloser : isCloser expected = true) :
    place < close ∨ place = close ∨ Reaches (close + 1) (s.drop (close - offset)) place := by
  rcases Nat.lt_trichotomy place close with hlt | heq | hgt
  · exact .inl hlt
  · exact .inr (.inl heq)
  · have hbetween := (hclose.reaches_behind hcloser).between h hgt
    rw [Nat.add_sub_add_right] at hbetween
    exact .inr (.inr hbetween)

/-- An inner group closes before the one around it. -/
theorem Reaches.close_lt {expected : Char} {stop close : Nat} (h : Reaches offset s place)
    (hclose : Closes expected [] offset s stop) (hlt : place < stop) (hat : Cursor.At text ⟨offset, s⟩)
    (hfind : findClosing text place = .ok close) : close < stop := by
  obtain ⟨innermost, outer, hbehind⟩ := h.closes hclose hlt
  have hplace := hat.drop (place - offset)
  rw [Nat.add_sub_cancel' h.le] at hplace
  cases hrest : s.drop (place - offset) with
  | nil =>
    rw [hrest] at hbehind
    cases hbehind
  | cons c rest =>
    rw [hrest] at hbehind hplace
    obtain ⟨inner, hopener, hgroup⟩ := closes_of_findClosing hplace hfind
    exact hbehind.group_lt hopener hgroup

/-- An inner group is around a place: lexemes lead to the bracket that opens it. -/
def Enclosed (text : List Char) (start place : Nat) : Prop :=
  ∃ opening close, Reaches start (text.drop start) opening ∧ findClosing text opening = .ok close ∧
    opening < place ∧ place < close

/-- A group that opens before a place to which a walk leads closes before it. -/
theorem Walk.close_lt {opening close : Nat} (h : Walk anyCode offset s place s')
    (hat : Cursor.At text ⟨offset, s⟩) (hopening : Reaches offset s opening) (hlt : opening < place)
    (hfind : findClosing text opening = .ok close) : close < place := by
  induction h with
  | nil => exact absurd hopening.le (Nat.not_le.mpr hlt)
  | @lexeme c rest _ offset place lexeme hscan hbracket _ h ih =>
    cases hopening with
    | here =>
      -- the lexeme here is no bracket, so nothing is closed
      obtain ⟨expected, hopener, -⟩ := closes_of_findClosing hat hfind
      have hc : isBracket c = true := by rw [isBracket, hopener]; rfl
      cases hscan.symm.trans (scan_bracket hc rest)
      cases hc.symm.trans (hbracket rfl)
    | next hscan' hopening =>
      cases hscan.symm.trans hscan'
      exact ih (hat.drop _) hopening hlt
  | @group c expected rest _ offset closeHere place lexeme hscan hkind hopener hclose h ih =>
    have hle := h.le
    have hfirst := hclose.bounds.1
    cases hopening with
    | here =>
      have hsame := hclose.unique ((findClosing_eq_iff hat hopener).mp hfind)
      omega
    | next hscan' hopening =>
      cases hscan.symm.trans hscan'
      rw [length_of_plain hscan hkind] at hopening
      have hinside : Cursor.At text ⟨offset + 1, rest⟩ := hat.cons.2.2
      have hcloser := isCloser_of_closer? hopener
      rcases hopening.lt_or_behind hclose hcloser with hinner | rfl | hbehind
      · have hshut := hopening.close_lt hclose hinner hinside hfind
        omega
      · -- no bracket opens where the group closes
        obtain ⟨behind, hclosing⟩ := hclose.exists_at hinside
        obtain ⟨inner, hinner, -⟩ := closes_of_findClosing hclosing hfind
        cases (isCloser_not_opener hcloser).symm.trans hinner
      · exact ih (ByOffset.drop_group hinside.symm hfirst) hbehind hlt

/-- To a place in no inner group there is a walk. -/
theorem Walk.to_place {c : Char} (h : Walk anyCode offset s stop s') (hat : Cursor.At text ⟨offset, s⟩)
    (hplace : Reaches offset s place) (hlt : place < stop) (hc : text[place]? = some c)
    (hcloser : isCloser c = false)
    (hfree : ∀ opening close, Reaches offset s opening → findClosing text opening = .ok close →
      opening < place → close ≤ place) : ∃ behind, Walk anyCode offset s place behind := by
  induction h with
  | nil => exact absurd hplace.le (Nat.not_le.mpr hlt)
  | @lexeme first rest _ offset stop lexeme hscan hbracket hallowed h ih =>
    cases hplace with
    | here => exact ⟨_, .nil _ _⟩
    | next hscan' hplace =>
      cases hscan.symm.trans hscan'
      obtain ⟨behind, hwalk⟩ := ih (hat.drop _) hplace hlt
        fun opening close hopening => hfree opening close (.next hscan hopening)
      exact ⟨behind, .lexeme hscan hbracket hallowed hwalk⟩
  | @group first expected rest _ offset close stop lexeme hscan hkind hopener hclose h ih =>
    have hfirst := hclose.bounds.1
    cases hplace with
    | here => exact ⟨_, .nil _ _⟩
    | next hscan' hplace =>
      cases hscan.symm.trans hscan'
      have hlength := length_of_plain hscan hkind
      rw [hlength] at hplace
      have hle : offset + 1 ≤ place := hplace.le
      have hinside : Cursor.At text ⟨offset + 1, rest⟩ := hat.cons.2.2
      have hclosing := isCloser_of_closer? hopener
      have hshut := hfree offset close (.here _ _) ((findClosing_eq_iff hat hopener).mpr hclose)
      rcases hplace.lt_or_behind hclose hclosing with hinner | rfl | hbehind
      · have hclosed := hshut (by omega)
        omega
      · -- the place is not the closing bracket itself
        obtain ⟨behind, hat'⟩ := hclose.exists_at hinside
        cases hat'.cons.1.symm.trans hc
        cases hclosing.symm.trans hcloser
      · have hgroup := hclose.reaches_behind hclosing
        obtain ⟨behind, hwalk⟩ := ih (ByOffset.drop_group hinside.symm hfirst) hbehind hlt
          fun opening close' hopening => hfree opening close' (.next hscan (by
            rw [hlength]
            refine hgroup.trans ?_
            rw [Nat.add_sub_add_right]
            exact hopening))
        exact ⟨behind, .group hscan hkind hopener hclose hwalk⟩

/-! ## Parts and spans -/

open ByOffset (spanOf)

theorem Walk.reaches {allowed : LexemeKind → Char → Prop} (h : Walk allowed offset s stop s') :
    Reaches offset s stop := by
  induction h with
  | nil => exact .here _ _
  | lexeme hscan _ _ _ ih => exact .next hscan ih
  | @group c expected rest _ offset close stop lexeme hscan hkind hopener hclose _ ih =>
    refine .next hscan ?_
    rw [length_of_plain hscan hkind, List.drop_succ_cons, List.drop_zero]
    refine (hclose.reaches_behind (isCloser_of_closer? hopener)).trans ?_
    rw [Nat.add_sub_add_right]
    exact ih

/-- A place to which a walk leads is in no inner group. -/
theorem Walk.not_enclosed {start : Cursor} (h : Walk anyCode start.offset start.rest place s')
    (hat : Cursor.At text start) : ¬ Enclosed text start.offset place := by
  rintro ⟨opening, close, hopening, hfind, hlt, hclose⟩
  rw [← (hat : start.rest = text.drop start.offset)] at hopening
  exact absurd (h.close_lt hat hopening hlt hfind) (Nat.lt_asymm hclose)

variable {start : Cursor} {parts : List Part}

/-- Every part lies at the end of a walk from the first one. -/
theorem Parts.walks_from (h : Parts stop start parts) : ∀ part ∈ parts,
    part.start.offset ≤ part.stop ∧
      (∃ s, Walk anyCode start.offset start.rest part.start.offset s) ∧
      ∃ s, Walk anyCode start.offset start.rest part.stop s := by
  induction h with
  | last hwalk => exact List.forall_mem_singleton.mpr ⟨hwalk.le, ⟨_, .nil _ _⟩, _, hwalk⟩
  | @more start comma rest parts hwalk _ _ ih =>
    refine List.forall_mem_cons.mpr ⟨⟨hwalk.le, ⟨_, .nil _ _⟩, _, hwalk⟩, fun part hpart => ?_⟩
    have hcomma : Walk anyCode comma (',' :: rest) (comma + 1) rest :=
      .lexeme (scan_plain (by decide) rest) (fun _ => rfl) trivial (.nil _ _)
    obtain ⟨hle, ⟨_, hstart⟩, _, hstop⟩ := ih part hpart
    exact ⟨hle, ⟨_, hwalk.trans (hcomma.trans hstart)⟩, _, hwalk.trans (hcomma.trans hstop)⟩

theorem Parts.exists_cons (h : Parts stop start parts) :
    ∃ first others, parts = first :: others ∧ first.start = start := by
  cases h <;> exact ⟨_, _, rfl, rfl⟩

theorem Parts.last_stop (h : Parts stop start parts) :
    (parts.map spanOf).getLast?.map Span.stop = some stop := by
  induction h with
  | last => rfl
  | more _ _ h ih =>
    obtain ⟨next, others, rfl, -⟩ := h.exists_cons
    exact ih

theorem Parts.isChain (h : Parts stop start parts) (hat : Cursor.At text start) :
    (parts.map spanOf).IsChain fun span next =>
      text[span.stop]? = some ',' ∧ next.start = span.stop + 1 := by
  induction h with
  | last => exact .singleton _
  | more hwalk _ h ih =>
    obtain ⟨hcomma, -, hbehind⟩ := (hat.walk hwalk).cons
    have hchain := ih hbehind
    obtain ⟨next, others, rfl, hnext⟩ := h.exists_cons
    exact .cons_cons ⟨hcomma, congrArg Cursor.offset hnext⟩ hchain

theorem Parts.joined (h : Parts stop start parts) (hat : Cursor.At text start) :
    [','].intercalate ((parts.map spanOf).map (Span.slice · text)) =
      Span.slice ⟨start.offset, stop⟩ text := by
  induction h with
  | last =>
    rw [List.map_singleton, List.map_singleton, List.intercalate_singleton]
    rfl
  | @more start comma rest parts hwalk hlt h ih =>
    have hcomma := hat.walk hwalk
    have hmore := ih hcomma.cons.2.2
    have hfirst := ByOffset.slice_succ hwalk.le hcomma.symm
    have hwhole := @ByOffset.slice_add text (comma + 1) _ (hwalk.le.trans (Nat.le_succ comma))
      (stop - (comma + 1))
    rw [Nat.add_sub_cancel' hlt, hfirst] at hwhole
    obtain ⟨next, others, rfl, -⟩ := h.exists_cons
    rw [List.map_cons, List.map_cons] at hmore
    rw [List.map_cons, List.map_cons, List.map_cons, List.map_cons, List.intercalate_cons_cons, hmore]
    exact hwhole.symm

/-! ## The statement -/

/-- The spans lie one behind the other from a place to another one, with one comma between two of them, and
their texts with commas between them are the text there.  A span ends at a comma exactly if no inner pair
of brackets is around it, and no span cuts a lexeme or a group. -/
structure SplitsAtCommas (text : List Char) (start stop : Nat) (spans : List Span) : Prop where
  first : spans.head?.map Span.start = some start
  last : spans.getLast?.map Span.stop = some stop
  consecutive : spans.IsChain fun span next =>
    text[span.stop]? = some ',' ∧ next.start = span.stop + 1
  joined : [','].intercalate (spans.map (Span.slice · text)) = Span.slice ⟨start, stop⟩ text
  whole : ∀ span ∈ spans, span.start ≤ span.stop ∧ ∀ place, place = span.start ∨ place = span.stop →
    Reaches start (text.drop start) place ∧ ¬ Enclosed text start place
  commas : ∀ place, Reaches start (text.drop start) place → place < stop → text[place]? = some ',' →
    ((∃ span ∈ spans, span.stop = place) ↔ ¬ Enclosed text start place)

theorem splitsAtCommas_of_closes {expected : Char} {start : Cursor} {stop : Nat}
    (hat : Cursor.At text start) (h : Closes expected [] start.offset start.rest stop) :
    ∃ parts, splitTopLevel start stop = .ok parts ∧
      SplitsAtCommas text start.offset stop (parts.map spanOf) := by
  obtain ⟨parts, hparts⟩ := h.walk.exists_splitFrom start
  have hfound := parts_of_splitTopLevel h.walk hparts
  have hrest : start.rest = text.drop start.offset := hat
  have hwhole : ∀ span ∈ parts.map spanOf, span.start ≤ span.stop ∧
      ∀ place, place = span.start ∨ place = span.stop →
        Reaches start.offset (text.drop start.offset) place ∧ ¬ Enclosed text start.offset place := by
    intro span hspan
    obtain ⟨part, hpart, rfl⟩ := List.mem_map.mp hspan
    obtain ⟨hle, ⟨_, hstart⟩, _, hstop⟩ := hfound.walks_from part hpart
    rw [← hrest]
    refine ⟨hle, ?_⟩
    rintro place (rfl | rfl)
    · exact ⟨hstart.reaches, hstart.not_enclosed hat⟩
    · exact ⟨hstop.reaches, hstop.not_enclosed hat⟩
  obtain ⟨first, others, heq, hfirst⟩ := hfound.exists_cons
  refine ⟨parts, hparts, by rw [heq, ← hfirst]; rfl, hfound.last_stop, hfound.isChain hat,
    hfound.joined hat, hwhole, ?_⟩
  intro place hplace hlt hcomma
  constructor
  · rintro ⟨span, hspan, rfl⟩
    exact ((hwhole span hspan).2 _ (.inr rfl)).2
  · intro hfree
    rw [← hrest] at hplace
    obtain ⟨behind, hwalk⟩ := h.walk.to_place hat hplace hlt hcomma rfl
      fun opening close hopening hfind hopens => Nat.not_lt.mp fun hcloses =>
        hfree ⟨opening, close, hrest ▸ hopening, hfind, hopens, hcloses⟩
    have hbehind := (hat.walk hwalk).exists_cons hcomma
    obtain ⟨rest, rfl⟩ := hbehind
    obtain ⟨part, hpart, hstop⟩ := hwalk.exists_part hlt hparts
    exact ⟨_, List.mem_map_of_mem hpart, hstop⟩

/-- What stands between two brackets is split at the commas that no inner pair of brackets is around.  The
split finds spans that lose nothing and cut no lexeme. -/
theorem brackets_split_at_commas (text : List Char) (opening close : Nat)
    (h : findClosing text opening = .ok close) :
    ∃ parts, splitTopLevel ⟨opening + 1, text.drop (opening + 1)⟩ close = .ok parts ∧
      ByOffset.splitTopLevel text (opening + 1) close = .ok (parts.map spanOf) ∧
      SplitsAtCommas text (opening + 1) close (parts.map spanOf) := by
  have hat : Cursor.At text ⟨opening + 1, text.drop (opening + 1)⟩ := rfl
  have hcloses : ∃ expected, Closes expected [] (opening + 1) (text.drop (opening + 1)) close := by
    cases hdrop : text.drop opening with
    | nil =>
      rw [findClosing, hdrop] at h
      cases h
    | cons c rest =>
      obtain ⟨expected, -, hcloses⟩ := closes_of_findClosing (hdrop.symm : Cursor.At _ ⟨_, _⟩) h
      exact ⟨expected, Text.drop_succ_of_drop hdrop ▸ hcloses⟩
  obtain ⟨expected, hcloses⟩ := hcloses
  obtain ⟨parts, hparts, hsplits⟩ := splitsAtCommas_of_closes hat hcloses
  have hstop : close ≤ text.length := by
    have hbounds := hcloses.bounds
    rw [List.length_drop] at hbounds
    omega
  refine ⟨parts, hparts, ?_, hsplits⟩
  exact (ByOffset.splitTopLevel_eq hstop hat).trans (congrArg _ hparts)

/-- Commas in a group, in a string and in a comment, and two that are in none of them. -/
def nestedText : List Char := "f([a, b], \x27,\x27 <#,#>,)".toList

theorem brackets_split_at_commas_nested :
    findClosing nestedText 1 = .ok 20 ∧
    ∃ parts, splitTopLevel ⟨2, nestedText.drop 2⟩ 20 = .ok parts ∧
      ByOffset.splitTopLevel nestedText 2 20 = .ok (parts.map spanOf) ∧
      SplitsAtCommas nestedText 2 20 (parts.map spanOf) := by
  have hclose : findClosing nestedText 1 = .ok 20 := by cbv
  exact ⟨hclose, brackets_split_at_commas nestedText 1 20 hclose⟩

end DscAudit.PowerShell

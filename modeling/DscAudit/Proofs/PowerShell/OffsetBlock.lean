import DscAudit.Proofs.PowerShell.OffsetCode
import DscAudit.Proofs.PowerShell.TwinAttribute

/-!
# Parameter blocks by offsets

The readers of arguments, attributes, parameters and blocks by offsets, each of which finds what the reader
of lists finds.  A cursor of the latter may stand at a place behind which nothing is read, with a text that
is not the one there; the readers by offsets have the place alone.
-/

namespace DscAudit.PowerShell.ByOffset

open Text (Halt charAt startsAt loop settled bind_eq_settled)

/-! ## The readers -/

section

variable (text : List Char)

/-- The argument at a span, if the span holds any code. -/
def argumentAt (span : Span) : Except (Halt Fault) (Option Argument) := do
  let start ← skipTrivia text span.start span.stop
  let stop ← codeEnd text start span.stop
  if start < stop then
    let shown ← codeText text start stop
    return some (.ofText shown ⟨start, stop⟩)
  else return none

def openingTurn (close place : Nat) : Except (Halt Fault) (Nat ⊕ Option Nat) :=
  if place < close then do
    let c ← charAt text place
    if c = '(' then return .inr (some place)
    else if c = '[' then return .inl ((← findClosing text place) + 1)
    else return .inl (place + 1)
  else return .inr none

/-- The offset of the bracket that opens the arguments of an attribute, if it has any. -/
def findOpening (start close : Nat) : Except (Halt Fault) (Option Nat) :=
  loop (openingTurn text close) (text.length + 1) start

/-- The name of an attribute, up to an offset. -/
def nameOf (start stop : Nat) : Except (Halt Fault) String := do
  let last ← trimEnd text start stop
  return String.ofList (slice text start last)

/-- The attribute between two square brackets. -/
def attributeAt (opening close : Nat) : Except (Halt Fault) (Attribute Span) := do
  let inner ← skipTrivia text (opening + 1) close
  match ← findOpening text inner close with
  | none =>
    let name ← nameOf text inner close
    return ⟨name, [], [], true, ⟨opening, close + 1⟩⟩
  | some paren =>
    let name ← nameOf text inner paren
    let argumentsClose ← findClosing text paren
    let tail ← skipTrivia text (argumentsClose + 1) close
    if tail ≠ close then raise (.unexpectedAfterArguments name) tail
    else do
      let spans ← splitTopLevel text (paren + 1) argumentsClose
      let found ← spans.mapM (argumentAt text)
      let arguments := found.filterMap id
      return ⟨name, arguments.filterMap Argument.named?, arguments.filterMap Argument.positional?,
        false, ⟨opening, close + 1⟩⟩

def attributesTurn (stop : Nat) : List (Attribute Span) × Nat →
    Except (Halt Fault) (List (Attribute Span) × Nat ⊕ List (Attribute Span) × Nat)
  | (owners, place) =>
    if place < stop then do
      let c ← charAt text place
      if c = '[' then
        let close ← findClosing text place
        let owner ← attributeAt text place close
        let next ← skipTrivia text (close + 1) stop
        return .inl (owners ++ [owner], next)
      else return .inr (owners, place)
    else return .inr (owners, place)

/-- The attributes before `stop`, and the offset behind them. -/
def attributes (start stop : Nat) : Except (Halt Fault) (List (Attribute Span) × Nat) :=
  loop (attributesTurn text stop) (text.length + 1) ([], start)

/-- The default of a parameter behind its variable, and the offset behind the declaration. -/
def defaultBehind (name : String) (behind stop : Nat) : Except (Halt Fault) (Option String × Nat) := do
  let rest ← skipTrivia text behind stop
  if rest < stop then
    let c ← charAt text rest
    if c = '=' then
      let value ← skipTrivia text (rest + 1) stop
      let last ← codeEnd text value stop
      if last ≤ value then raise (.noDefault name) rest
      else do
        let shown ← codeText text value last
        return (some (String.ofList shown), last)
    else raise (.unexpectedAfterParameter c name) rest
  else return (none, behind)

/-- The parameter declared between two offsets. -/
def parameterAt (start stop : Nat) : Except (Halt Fault) (Parameter Span) := do
  let (owners, place) ← attributes text start stop
  match variableName? (slice text place stop) with
  | none => raise .noVariable place
  | some (name, length) =>
    let (default, last) ← defaultBehind text name (place + length) stop
    return ⟨name, owners, default, ⟨start, last⟩⟩

/-- The parameters of a block with the one at a further span, which may be empty only in an empty block. -/
def withSegment (found : List (Parameter Span)) (span : Span) :
    Except (Halt Fault) (List (Parameter Span)) := do
  let start ← skipTrivia text span.start span.stop
  if start < span.stop then
    let parameter ← parameterAt text start span.stop
    return found ++ [parameter]
  else if !found.isEmpty || startsAt text span.stop [','] then raise .emptyParameter span.start
  else return found

/-- The block between two round brackets. -/
def blockAt (keyword opening close : Nat) : Except (Halt Fault) (ParameterBlock Span) := do
  let spans ← splitTopLevel text (opening + 1) close
  let parameters ← spans.foldlM (withSegment text) []
  return ⟨parameters, ⟨keyword, close + 1⟩⟩

/-- Can a keyword start with the character at an offset? -/
def keywordMayStart (c : Char) (offset : Nat) : Except (Halt Fault) Bool :=
  if Text.isLetter c then
    if offset = 0 then return true
    else do
      let previous ← charAt text (offset - 1)
      return keywordMayFollow (some previous)
  else return false

/-- Does an offset, which may be the end of the text, hold a round bracket? -/
def opensBlock (offset : Nat) : Except (Halt Fault) Bool :=
  if offset < text.length then do
    let c ← charAt text offset
    return c == '('
  else return false

/-- The turn at a keyword between two offsets: a block may follow. -/
def keywordTurn (blocks : List (ParameterBlock Span)) (place behind : Nat) :
    Except (Halt Fault) (List (ParameterBlock Span) × Nat ⊕ List (ParameterBlock Span)) := do
  let next ← skipTrivia text behind text.length
  if ← opensBlock text next then
    let close ← findClosing text next
    let block ← blockAt text place next close
    return .inl (blocks ++ [block], close + 1)
  else return .inl (blocks, behind)

/-- The turn at a plain character: a word may start. -/
def wordTurn (blocks : List (ParameterBlock Span)) (place : Nat) :
    Except (Halt Fault) (List (ParameterBlock Span) × Nat ⊕ List (ParameterBlock Span)) := do
  let c ← charAt text place
  if ← keywordMayStart text c place then
    let behind ← span text isNamePart place
    if Text.lower (slice text place behind) = "param".toList then keywordTurn text blocks place behind
    else return .inl (blocks, behind)
  else return .inl (blocks, place + 1)

def blocksTurn : List (ParameterBlock Span) × Nat →
    Except (Halt Fault) (List (ParameterBlock Span) × Nat ⊕ List (ParameterBlock Span))
  | (blocks, place) =>
    if place < text.length then do
      match ← skipOpaque text place with
      | some skipped => return .inl (blocks, skipped)
      | none => wordTurn text blocks place
    else return .inr blocks

/-- The parameter blocks of the text. -/
def parameterBlocks : Except (Halt Fault) (List (ParameterBlock Span)) :=
  loop (blocksTurn text) (text.length + 1) ([], 0)

end

variable {text rest : List Char} {offset place stop : Nat} {c : Char}

/-! ## Arguments -/

theorem argumentAt_eq {part : Part} (hat : Cursor.At text part.start) (hstop : part.stop ≤ text.length) :
    argumentAt text (spanOf part) = settled id (readArgument part) := by
  refine bind_eq_settled (skipTrivia_eq hstop fun _ => hat) fun start hstart => ?_
  have htracks := tracks_skipTriviaFrom (fun _ => hat) hstart
  have hbounds := skipTrivia_bounds hstart
  refine bind_eq_settled (codeEnd_eq hstop htracks) fun last hlast => ?_
  have hle := codeEnd_le hlast hbounds.2
  dsimp only [id]
  by_cases hlt : start.offset < last
  · rw [if_pos hlt, if_pos hlt]
    exact bind_eq_settled (codeText_eq (hle.trans hstop) (Nat.le_of_lt hlt)
      fun hstart => htracks (hstart.trans_le hle)) fun _ _ => rfl
  · rw [if_neg hlt, if_neg hlt]
    rfl

theorem arguments_eq {parts : List Part}
    (hparts : ∀ part ∈ parts, Cursor.At text part.start ∧ part.stop ≤ text.length) :
    (parts.map spanOf).mapM (argumentAt text) = settled id (parts.mapM readArgument) := by
  induction parts with
  | nil => rfl
  | cons part parts ih =>
      obtain ⟨⟨hat, hstop⟩, hparts⟩ := List.forall_mem_cons.1 hparts
      rw [List.map_cons, List.mapM_cons, List.mapM_cons]
      exact bind_eq_settled (argumentAt_eq hat hstop) fun _ _ =>
        bind_eq_settled (ih hparts) fun _ _ => rfl

theorem bounds_of_parts {start : Cursor} {parts : List Part} (hat : Cursor.At text start)
    (h : Parts stop start parts) : ∀ part ∈ parts, Cursor.At text part.start ∧ part.stop ≤ stop := by
  induction h with
  | last _ => exact List.forall_mem_singleton.2 ⟨hat, Nat.le_refl _⟩
  | more hwalk hlt _ ih =>
      exact List.forall_mem_cons.2 ⟨⟨hat, Nat.le_of_lt hlt⟩, ih (hat.walk hwalk).cons.2.2⟩

/-! ## Attributes -/

/-- Where the arguments open that are looked for from a place on. -/
def openingOn (text : List Char) (stop place : Nat) : Except (Halt Fault) (Option Nat) :=
  settled (Option.map Cursor.offset) (findArguments stop place (text.drop place))

theorem keeps_openingTurn (hstop : stop ≤ text.length) (place : Nat) :
    Text.Keeps (openingOn text stop) (fun place => text.length - place) (fun _ => True) place
      (openingTurn text stop place) := by
  rw [openingTurn]
  by_cases hlt : place < stop
  swap
  · rw [if_neg hlt]
    simp only [pure, Except.pure, Text.Keeps, openingOn, findArguments_past (Nat.not_lt.1 hlt)]
    rfl
  obtain ⟨c, rest, hdrop⟩ := exists_drop_of_lt (Nat.lt_of_lt_of_le hlt hstop)
  have hlength := Text.length_of_drop hdrop
  have hrest := Text.drop_succ_of_drop hdrop
  rw [if_pos hlt, Text.charAt_of_drop hdrop]
  simp only [bind, Except.bind]
  by_cases hround : c = '('
  · subst hround
    rw [if_pos rfl]
    simp only [pure, Except.pure, Text.Keeps, openingOn, hdrop, findArguments_paren hlt]
    rfl
  rw [if_neg hround]
  by_cases hsquare : c = '['
  · subst hsquare
    rw [if_pos rfl, findClosing_eq hdrop rfl]
    have hopening : openingOn text stop place = settled (Option.map Cursor.offset)
        (findArguments stop place ('[' :: rest)) := by rw [openingOn, hdrop]
    rw [findArguments_square hlt] at hopening
    rcases hclosing : closing '[' ']' ⟨place + 1, rest⟩ with fault | close
    · rw [hclosing] at hopening
      exact hopening
    · have hbounds : place + 1 ≤ close := (closing_eq_iff.1 hclosing).bounds.1
      rw [hclosing] at hopening
      refine ⟨trivial, by dsimp only [id]; omega, ?_⟩
      rw [hopening, openingOn]
      dsimp only [id]
      rw [← drop_group hrest hbounds]
      rfl
  · rw [if_neg hsquare]
    refine ⟨trivial, by dsimp only; omega, ?_⟩
    rw [openingOn, openingOn, hdrop, hrest, findArguments_other hround hsquare hlt]

theorem findOpening_eq {cursor : Cursor} (hstop : stop ≤ text.length) (h : Tracks text stop cursor) :
    findOpening text cursor.offset stop =
      settled (Option.map Cursor.offset) (findArguments stop cursor.offset cursor.rest) :=
  (Text.loop_eq (fun place _ => keeps_openingTurn hstop place) trivial (by omega)).trans
    (apply_of_tracks h
      (fun s => settled (Option.map Cursor.offset) (findArguments stop cursor.offset s))
      fun hle s s' => by rw [findArguments_past hle, findArguments_past hle])

/-- Up to `stop` the text at a cursor is the one between the offsets. -/
theorem textTo_eq {cursor : Cursor} (h : Tracks text stop cursor) :
    cursor.textTo stop = slice text cursor.offset stop := by
  by_cases hlt : cursor.offset < stop
  · rw [Cursor.textTo, h hlt]
    rfl
  · have hzero : stop - cursor.offset = 0 := Nat.sub_eq_zero_of_le (Nat.not_lt.1 hlt)
    rw [Cursor.textTo, slice, Span.slice]
    dsimp only
    rw [hzero, List.take_zero, List.take_zero]

theorem nameOf_eq {cursor : Cursor} (hstart : cursor.offset ≤ stop) (hstop : stop ≤ text.length)
    (h : Tracks text stop cursor) :
    nameOf text cursor.offset stop = pure (String.ofList (Text.trimEnd (cursor.textTo stop))) := by
  obtain ⟨last, hlast, hslice⟩ := exists_trimEnd hstart hstop
  rw [nameOf, hlast, textTo_eq h, ← hslice]
  rfl

theorem attributeAt_eq {start : Cursor} {close : Nat} (hat : Cursor.At text start)
    (hsquare : start.rest = '[' :: rest) (hclose : close < text.length) :
    attributeAt text start.offset close = settled id (readAttribute start close) := by
  obtain ⟨opening, s⟩ := start
  dsimp only at hsquare
  subst hsquare
  have hinside : Cursor.At text ⟨opening + 1, rest⟩ := hat.cons.2.2
  have hstop := Nat.le_of_lt hclose
  refine bind_eq_settled (skipTrivia_eq hstop fun _ => hinside) fun inner hinner => ?_
  have htracks := tracks_skipTriviaFrom (fun _ => hinside) hinner
  have hbounds := skipTrivia_bounds hinner
  refine bind_eq_settled (findOpening_eq hstop htracks) fun found hfound => ?_
  cases found with
  | none =>
      dsimp only [Option.map_none]
      rw [nameOf_eq hbounds.2 hstop htracks, pure_bind]
      rfl
  | some paren =>
      have hinner : inner.offset < close := by
        by_contra hpast
        rw [findArguments_past (Nat.not_lt.1 hpast)] at hfound
        cases hfound
      obtain ⟨hparen, hle, hlt, behind, hbehind⟩ := findArguments_found (htracks hinner) hfound
      have hdrop : text.drop paren.offset = '(' :: behind := hparen.symm.trans hbehind
      have hname := nameOf_eq hle (hlt.le.trans hstop) fun hplace => htracks (hplace.trans hlt)
      dsimp only [Option.map_some]
      rw [hname, pure_bind, findClosing_eq hdrop rfl, ← advance_one hbehind]
      refine bind_eq_settled rfl fun argumentsClose hclosing => ?_
      rw [advance_one hbehind] at hclosing
      have hinside : Cursor.At text ⟨paren.offset + 1, behind⟩ := (Text.drop_succ_of_drop hdrop).symm
      have hgroup := closing_eq_iff.1 hclosing
      have hplaces := hgroup.bounds
      dsimp only at hplaces
      have hend : argumentsClose ≤ text.length := by
        have hlength := Text.length_of_drop hdrop
        omega
      have htail : Cursor.At text ⟨argumentsClose + 1, behind.drop (argumentsClose - paren.offset)⟩ :=
        drop_group (Text.drop_succ_of_drop hdrop) hplaces.1
      rw [advance_group hbehind hplaces.1, advance_one hbehind]
      refine bind_eq_settled (skipTrivia_eq hstop fun _ => htail) fun tail _ => ?_
      by_cases hall : tail.offset = close
      · rw [if_neg (not_not.2 hall), if_neg (not_not.2 hall)]
        refine bind_eq_settled (splitTopLevel_eq hend hinside) fun parts hparts => ?_
        have hbounds := bounds_of_parts hinside (parts_of_splitTopLevel hgroup.walk hparts)
        exact bind_eq_settled
          (arguments_eq fun part hpart => (hbounds part hpart).imp_right fun hle => hle.trans hend)
          fun _ _ => rfl
      · rw [if_pos hall, if_pos hall]
        rfl

/-- Attributes behind others, and the offset behind them. -/
def resumed (owners : List (Attribute Span)) (found : List (Attribute Span) × Cursor) :
    List (Attribute Span) × Nat := (owners ++ found.1, found.2.offset)

/-- The attributes from a place on, behind those before it. -/
def attributesOn (text : List Char) (stop : Nat) :
    List (Attribute Span) × Nat → Except (Halt Fault) (List (Attribute Span) × Nat)
  | (owners, place) => settled (resumed owners) (readAttributes stop ⟨place, text.drop place⟩)

theorem attributesOn_other {owners : List (Attribute Span)} {s : List Char}
    (h : place < stop → ∀ rest, s ≠ '[' :: rest) :
    settled (resumed owners) (readAttributes stop ⟨place, s⟩) =
      (.ok (owners, place) : Except (Halt Fault) (List (Attribute Span) × Nat)) := by
  rw [readAttributes_other h]
  exact congrArg (fun found => Except.ok (found, place)) (List.append_nil owners)

theorem attributesOn_of_tracks {cursor : Cursor} (h : Tracks text stop cursor)
    (owners : List (Attribute Span)) :
    attributesOn text stop (owners, cursor.offset) =
      settled (resumed owners) (readAttributes stop cursor) :=
  apply_of_tracks h (fun s => settled (resumed owners) (readAttributes stop ⟨cursor.offset, s⟩))
    fun hle _ _ => (attributesOn_other fun hlt => absurd hlt (Nat.not_lt.2 hle)).trans
      (attributesOn_other fun hlt => absurd hlt (Nat.not_lt.2 hle)).symm

theorem keeps_attributesTurn (hstop : stop ≤ text.length)
    (state : List (Attribute Span) × Nat) :
    Text.Keeps (attributesOn text stop) (fun state => text.length - state.2) (fun _ => True) state
      (attributesTurn text stop state) := by
  obtain ⟨owners, place⟩ := state
  rw [attributesTurn]
  by_cases hlt : place < stop
  swap
  · rw [if_neg hlt]
    exact attributesOn_other fun hplace => absurd hplace hlt
  obtain ⟨c, rest, hdrop⟩ := exists_drop_of_lt (Nat.lt_of_lt_of_le hlt hstop)
  rw [if_pos hlt, Text.charAt_of_drop hdrop]
  simp only [bind, Except.bind]
  by_cases hsquare : c = '['
  swap
  · rw [if_neg hsquare]
    refine attributesOn_other fun _ rest' hrest' => hsquare ?_
    exact (List.cons.inj (hdrop.symm.trans hrest')).1
  subst hsquare
  have hlength := Text.length_of_drop hdrop
  have hon : attributesOn text stop (owners, place) =
      settled (resumed owners) (readAttributes stop ⟨place, '[' :: rest⟩) := by
    rw [attributesOn, hdrop]
  rw [readAttributes_square rfl hlt] at hon
  simp only [bind, Except.bind] at hon
  rw [if_pos rfl, findClosing_eq hdrop rfl]
  rcases hclosing : closing '[' ']' ⟨place + 1, rest⟩ with fault | close
  · rw [hclosing] at hon
    exact hon
  have hplaces : place + 1 ≤ close ∧ close < place + 1 + rest.length :=
    (closing_eq_iff.1 hclosing).bounds
  have howner := @attributeAt_eq text rest ⟨place, '[' :: rest⟩ close hdrop.symm rfl (by omega)
  have hadvance := @advance_group ⟨place, '[' :: rest⟩ '[' rest close rfl hplaces.1
  simp only [hclosing, hadvance] at hon
  dsimp only [settled, id] at howner ⊢
  rw [howner]
  rcases hread : readAttribute ⟨place, '[' :: rest⟩ close with fault | owner
  · rw [hread] at hon
    exact hon
  rw [hread] at hon
  have hbehind : Cursor.At text ⟨close + 1, rest.drop (close - place)⟩ :=
    drop_group (Text.drop_succ_of_drop hdrop) hplaces.1
  have hskip := skipTrivia_eq hstop fun _ => hbehind
  dsimp only at hon hskip ⊢
  rw [hskip]
  rcases hnext : PowerShell.skipTrivia ⟨close + 1, rest.drop (close - place)⟩ stop with fault | next
  · rw [hnext] at hon
    exact hon
  rw [hnext] at hon
  have hbounds := skipTrivia_bounds hnext
  refine ⟨trivial, by dsimp only at hbounds ⊢; omega, ?_⟩
  rw [hon]
  refine (attributesOn_of_tracks (tracks_skipTriviaFrom (fun _ => hbehind) hnext) _).trans ?_
  dsimp only
  rcases readAttributes stop next with fault | found
  · rfl
  · exact congrArg (fun all => Except.ok (all, found.2.offset)) (List.append_assoc owners [owner] _)

theorem attributes_eq {start : Cursor} (hat : Cursor.At text start) (hstop : stop ≤ text.length) :
    attributes text start.offset stop =
      settled (fun found => (found.1, found.2.offset)) (readAttributes stop start) :=
  (Text.loop_eq (fun state _ => keeps_attributesTurn hstop state) trivial (by dsimp only; omega)).trans
    (attributesOn_of_tracks (fun _ => hat) [])

theorem tracks_readAttributes {start behind : Cursor} {owners : List (Attribute Span)}
    (hat : Cursor.At text start) (h : readAttributes stop start = .ok (owners, behind)) :
    Tracks text stop behind := by
  rcases readAttributes_last hat h with ⟨_, rfl⟩ | ⟨owner, _, hskip⟩
  · exact fun _ => hat
  · have hbehind : Cursor.At text ⟨owner.location.stop, text.drop owner.location.stop⟩ := rfl
    exact tracks_skipTriviaFrom (fun _ => hbehind) hskip

/-! ## Parameters -/

theorem tracks_advance {cursor : Cursor} (h : Tracks text stop cursor) (count : Nat) :
    Tracks text stop (cursor.advance count) :=
  fun hlt => (h (Nat.lt_of_le_of_lt (Nat.le_add_right _ count) hlt)).drop count

theorem defaultBehind_eq (name : String) {behind : Cursor} (hstop : stop ≤ text.length)
    (h : Tracks text stop behind) :
    defaultBehind text name behind.offset stop = settled id (readDefault name behind stop) := by
  refine bind_eq_settled (skipTrivia_eq hstop h) fun place hplace => ?_
  have htracks := tracks_skipTriviaFrom h hplace
  by_cases hlt : place.offset < stop
  swap
  · rw [if_neg hlt, if_neg hlt]
    rfl
  have hat : Cursor.At text place := htracks hlt
  obtain ⟨c, rest, hdrop⟩ := exists_drop_of_lt (Nat.lt_of_lt_of_le hlt hstop)
  obtain ⟨offset, s⟩ := place
  cases hat.trans hdrop
  have hchar : charAt text offset = (pure c : Except (Halt Fault) Char) := Text.charAt_of_drop hdrop
  rw [if_pos hlt, if_pos hlt, hchar, pure_bind]
  by_cases hequals : c = '='
  swap
  · rw [if_neg hequals]
    split
    · next heq => exact absurd (List.cons.inj heq).1 hequals
    · next heq =>
      obtain ⟨rfl, rfl⟩ := List.cons.inj heq
      rfl
    · next heq => cases heq
  subst hequals
  rw [if_pos rfl]
  have hinside : Cursor.At text (Cursor.advance ⟨offset, '=' :: rest⟩ 1) := hat.drop 1
  refine bind_eq_settled (skipTrivia_eq hstop fun _ => hinside) fun value hvalue => ?_
  have hvalueTracks := tracks_skipTriviaFrom (fun _ => hinside) hvalue
  have hbounds := skipTrivia_bounds hvalue
  refine bind_eq_settled (codeEnd_eq hstop hvalueTracks) fun last hlast => ?_
  have hle := codeEnd_le hlast hbounds.2
  dsimp only [id]
  by_cases hnone : last ≤ value.offset
  · rw [if_pos hnone, if_pos hnone]
    rfl
  · rw [if_neg hnone, if_neg hnone]
    exact bind_eq_settled (codeText_eq (hle.trans hstop) (Nat.le_of_not_le hnone)
      fun hplace => hvalueTracks (hplace.trans_le hle)) fun _ _ => rfl

theorem parameterAt_eq {start : Cursor} (hat : Cursor.At text start) (hstop : stop ≤ text.length) :
    parameterAt text start.offset stop = settled id (readParameter start stop) := by
  refine bind_eq_settled (attributes_eq hat hstop) fun found hfound => ?_
  obtain ⟨owners, place⟩ := found
  have htracks := tracks_readAttributes hat hfound
  dsimp only
  rw [textTo_eq htracks]
  rcases variableName? (slice text place.offset stop) with _ | ⟨name, length⟩
  · rfl
  · exact bind_eq_settled (defaultBehind_eq name hstop (tracks_advance htracks length)) fun _ _ => rfl

/-! ## Blocks -/

theorem withSegments_cons {part : Part} {parts : List Part} (hat : Cursor.At text part.start)
    (hstop : part.stop ≤ text.length) (hcomma : startsAt text part.stop [','] = !parts.isEmpty)
    (hparts : ∀ found, (parts.map spanOf).foldlM (withSegment text) found =
      settled (found ++ ·) (readParameters (!found.isEmpty) parts))
    (found : List (Parameter Span)) :
    ((part :: parts).map spanOf).foldlM (withSegment text) found =
      settled (found ++ ·) (readParameters (!found.isEmpty) (part :: parts)) := by
  rw [List.map_cons, List.foldlM_cons, withSegment, readParameters, bind_assoc]
  refine bind_eq_settled (skipTrivia_eq hstop fun _ => hat) fun start hstart => ?_
  by_cases hlt : start.offset < part.stop
  · have hlt' : start.offset < (spanOf part).stop := hlt
    rw [if_pos hlt', if_pos hlt, bind_assoc]
    have htracks := tracks_skipTriviaFrom (fun _ => hat) hstart hlt
    refine bind_eq_settled (parameterAt_eq htracks hstop) fun parameter _ => ?_
    have hsome : (!(found ++ [parameter]).isEmpty) = true := by simp
    rw [pure_bind, hparts, id, hsome]
    refine Eq.trans ?_ (settled_bind_ok _ (parameter :: ·) _).symm
    exact congrArg (settled · _) (funext fun more => List.append_assoc found [parameter] more)
  · have hlt' : ¬ start.offset < (spanOf part).stop := hlt
    have hcomma' : startsAt text (spanOf part).stop [','] = !parts.isEmpty := hcomma
    rw [if_neg hlt', if_neg hlt, hcomma']
    by_cases hempty : (!found.isEmpty || !parts.isEmpty) = true
    · rw [if_pos hempty, if_pos hempty]
      rfl
    · rw [if_neg hempty, if_neg hempty]
      exact hparts found

/-- Each part but the last stops at a comma. -/
theorem withSegments_eq {start : Cursor} {parts : List Part} (hat : Cursor.At text start)
    (h : Parts stop start parts) (hstop : stop ≤ text.length)
    (hlast : startsAt text stop [','] = false) (found : List (Parameter Span)) :
    (parts.map spanOf).foldlM (withSegment text) found =
      settled (found ++ ·) (readParameters (!found.isEmpty) parts) := by
  induction h generalizing found with
  | last _ =>
      refine withSegments_cons hat hstop hlast (fun found => ?_) found
      exact congrArg Except.ok (List.append_nil found).symm
  | @more start comma rest parts hwalk hlt hmore ih =>
      have hcomma : Cursor.At text ⟨comma, ',' :: rest⟩ := hat.walk hwalk
      have hstarts : startsAt text comma [','] = true :=
        (Text.startsAt_singleton_iff hcomma.symm).2 rfl
      have hsome : parts.isEmpty = false := by
        cases hmore <;> rfl
      refine withSegments_cons hat (hlt.le.trans hstop) ?_ (ih hcomma.cons.2.2) found
      rw [hsome]
      exact hstarts

theorem blockAt_eq {keyword opening close : Nat} {inside : List Char}
    (hat : Cursor.At text ⟨opening, '(' :: inside⟩)
    (hclose : Closes ')' [] (opening + 1) inside close) :
    blockAt text keyword opening close =
      settled id (readBlock keyword ⟨opening + 1, inside⟩ close) := by
  have hinside := hat.cons.2.2
  have hbehind : Cursor.At text ⟨close, inside.drop (close - (opening + 1))⟩ :=
    hinside.walk hclose.walk
  have hround := hclose.head?
  obtain ⟨rest, hrest⟩ := List.head?_eq_some_iff.1 hround
  rw [hrest] at hbehind
  have hstop := Nat.le_of_lt hbehind.cons.2.1
  have hlast : startsAt text close [','] = false := by
    rw [Bool.eq_false_iff]
    intro hcomma
    cases (Text.startsAt_singleton_iff hbehind.symm).1 hcomma
  refine bind_eq_settled (splitTopLevel_eq hstop hinside) fun parts hparts => ?_
  exact bind_eq_settled
    (withSegments_eq hinside (parts_of_splitTopLevel hclose.walk hparts) hstop hlast []) fun _ _ => rfl

/-- The character before a place. -/
def before (text : List Char) (place : Nat) : Option Char := (text.take place).getLast?

theorem before_add {count : Nat} (hdrop : text.drop place = c :: rest) (hcount : 0 < count) :
    before text (place + count) = ((c :: rest).take count).getLast? := by
  have hne : (c :: rest).take count ≠ [] := by
    obtain ⟨count, rfl⟩ := Nat.exists_eq_add_one_of_ne_zero (Nat.ne_of_gt hcount)
    exact List.cons_ne_nil _ _
  rw [before, List.take_add, hdrop, List.getLast?_append_of_ne_nil _ hne]

theorem keywordMayStart_eq (hlt : place < text.length) :
    keywordMayStart text c place =
      pure (Text.isLetter c && keywordMayFollow (before text place)) := by
  rw [keywordMayStart]
  by_cases hletter : Text.isLetter c = true
  swap
  · rw [if_neg hletter, Bool.eq_false_iff.2 hletter]
    rfl
  rw [if_pos hletter, hletter, Bool.true_and]
  rcases place with _ | place
  · rfl
  · obtain ⟨previous, rest, hdrop⟩ := exists_drop_of_lt (Nat.lt_of_succ_lt hlt)
    have hchar : charAt text place = (pure previous : Except (Halt Fault) Char) :=
      Text.charAt_of_drop hdrop
    rw [if_neg (Nat.succ_ne_zero place), Nat.add_sub_cancel, hchar, pure_bind,
      before_add hdrop Nat.one_pos]
    rfl

theorem opensBlock_eq {cursor : Cursor} (hat : Cursor.At text cursor) :
    opensBlock text cursor.offset = pure (cursor.rest.head? == some '(') := by
  rw [opensBlock]
  by_cases hlt : cursor.offset < text.length
  · obtain ⟨c, rest, hdrop⟩ := exists_drop_of_lt hlt
    have hchar : charAt text cursor.offset = (pure c : Except (Halt Fault) Char) :=
      Text.charAt_of_drop hdrop
    rw [if_pos hlt, hchar, pure_bind, hat, hdrop]
    rfl
  · rw [if_neg hlt, hat, List.drop_eq_nil_of_le (Nat.not_lt.1 hlt)]
    rfl

theorem blocksFrom_lexeme {lexeme : Lexeme (c :: rest)} (hscan : Lexeme.scan c rest = .ok lexeme)
    {previous : Option Char} (hnone : lexeme.kind = .plain →
      (Text.isLetter c && keywordMayFollow previous) = false) (offset : Nat) :
    blocksFrom previous offset (c :: rest) =
      blocksFrom ((c :: rest).take lexeme.length).getLast? (offset + lexeme.length)
        ((c :: rest).drop lexeme.length) := by
  have hlength : ((c :: rest).take lexeme.length).length = lexeme.length :=
    List.length_take_of_le lexeme.length_le
  have hscans : Scans lexeme.kind ((c :: rest).take lexeme.length) ((c :: rest).drop lexeme.length) :=
    ⟨c, rest, lexeme, List.take_append_drop _ _, hscan, rfl, hlength.symm⟩
  have hletter : lexeme.kind = .plain → ∀ d ∈ (c :: rest).take lexeme.length,
      (Text.isLetter d && keywordMayFollow previous) = false := by
    intro hplain d hd
    rw [length_of_plain hscan hplain] at hd
    cases List.mem_singleton.1 hd
    exact hnone hplain
  have hfrom := blocksFrom_scans hscans hletter offset
  rw [List.take_append_drop, hlength] at hfrom
  exact hfrom

/-- The blocks from a place on, behind those before it. -/
def blocksOn (text : List Char) :
    List (ParameterBlock Span) × Nat → Except (Halt Fault) (List (ParameterBlock Span))
  | (blocks, place) =>
    settled (blocks ++ ·) (blocksFrom (before text place) place (text.drop place))

section Turns

variable {blocks : List (ParameterBlock Span)}

/-- What a turn at a place has to keep. -/
def KeepsBlocks (text : List Char) (blocks : List (ParameterBlock Span)) (place : Nat) :
    Except (Halt Fault) (List (ParameterBlock Span) × Nat ⊕ List (ParameterBlock Span)) → Prop :=
  Text.Keeps (blocksOn text) (fun state => text.length - state.2) (fun _ => True) (blocks, place)

theorem keepsBlocks_inl {blocks' : List (ParameterBlock Span)} {next : Nat} (hlt : place < next)
    (hplace : place < text.length)
    (h : blocksOn text (blocks', next) = blocksOn text (blocks, place)) :
    KeepsBlocks text blocks place (.ok (.inl (blocks', next))) :=
  ⟨trivial, Nat.sub_lt_sub_left hplace hlt, h⟩

/-- A block between two round brackets is read, and the blocks behind it are found from there on. -/
theorem keepsBlocks_block {keyword : Nat} {inside : List Char} (hplace : place < text.length)
    (hkeyword : place < offset) (hat : Cursor.At text ⟨offset, '(' :: inside⟩)
    (hon : blocksOn text (blocks, place) = settled (blocks ++ ·) (do
      let close ← closing '(' ')' ⟨offset + 1, inside⟩
      let block ← readBlock keyword ⟨offset + 1, inside⟩ close
      let more ← blocksFrom (some ')') (close + 1) (inside.drop (close - offset))
      return block :: more)) :
    KeepsBlocks text blocks place (do
      let close ← findClosing text offset
      let block ← blockAt text keyword offset close
      return .inl (blocks ++ [block], close + 1)) := by
  have hdrop : text.drop offset = '(' :: inside := hat.symm
  rw [findClosing_eq hdrop rfl]
  simp only [bind, Except.bind] at hon ⊢
  rcases hclosing : closing '(' ')' ⟨offset + 1, inside⟩ with fault | close
  · rw [hclosing] at hon
    exact hon
  have hclose := closing_eq_iff.1 hclosing
  have hplaces : offset + 1 ≤ close := hclose.bounds.1
  rw [hclosing] at hon
  dsimp only [settled, id] at hon ⊢
  rw [blockAt_eq hat hclose]
  rcases hread : readBlock keyword ⟨offset + 1, inside⟩ close with fault | block
  · rw [hread] at hon
    exact hon
  rw [hread] at hon
  have hbehind : Cursor.At text ⟨close, inside.drop (close - (offset + 1))⟩ :=
    hat.cons.2.2.walk hclose.walk
  obtain ⟨rest, hrest⟩ := List.head?_eq_some_iff.1 hclose.head?
  rw [hrest] at hbehind
  have hbefore : before text (close + 1) = some ')' := before_add hbehind.symm Nat.one_pos
  have hdropBehind := drop_group (Text.drop_succ_of_drop hdrop) hplaces
  refine keepsBlocks_inl (by omega) hplace ?_
  rw [hon, blocksOn, hbefore, ← hdropBehind]
  dsimp only
  rcases blocksFrom (some ')') (close + 1) (inside.drop (close - offset)) with fault | more
  · rfl
  · exact congrArg Except.ok (List.append_assoc blocks [block] more)

theorem keepsBlocks_keywordTurn (hdrop : text.drop place = c :: rest)
    (hletter : Text.isLetter c = true) (hfollow : keywordMayFollow (before text place) = true)
    {word : List Char} (hword : c :: rest.takeWhile isNamePart = word)
    (hkeyword : Text.lower word = "param".toList) {behind : Cursor}
    (hplace : (⟨place + word.length, rest.drop (word.length - 1)⟩ : Cursor) = behind)
    (hat : Cursor.At text behind) (hlt : place < behind.offset) (hle : behind.offset ≤ text.length)
    (hname : blocksOn text (blocks, behind.offset) =
      settled (blocks ++ ·) (blocksFrom word.getLast? behind.offset behind.rest)) :
    KeepsBlocks text blocks place (keywordTurn text blocks place behind.offset) := by
  have htext := Text.lt_length_of_drop hdrop
  have hend : place + rest.length + 1 = text.length := (Text.length_of_drop hdrop).symm
  have hon : blocksOn text (blocks, place) =
      settled (blocks ++ ·) (blocksFrom (before text place) place (c :: rest)) := by
    rw [blocksOn, hdrop]
  rw [blocksFrom_keyword hletter hfollow hword hplace hkeyword, hend] at hon
  rcases hnext : PowerShell.skipTrivia behind text.length with fault | next
  · rw [keywordTurn, skipTrivia_eq (Nat.le_refl _) fun _ => hat, hnext]
    rw [hnext] at hon
    exact hon
  have hskip : skipTrivia text behind.offset text.length = pure next.offset := by
    rw [skipTrivia_eq (Nat.le_refl _) fun _ => hat, hnext]
    rfl
  have hkeyword : place < next.offset := (lt_min hlt htext).trans_le (skipTrivia_bounds hnext).1
  have hatNext : Cursor.At text next := hat.skipTrivia (hat.length hle).le hnext
  rw [hnext] at hon
  rw [keywordTurn, hskip, pure_bind, opensBlock_eq hatNext, pure_bind]
  by_cases hround : next.rest.head? = some '('
  · obtain ⟨inside, hinside⟩ := List.head?_eq_some_iff.1 hround
    obtain ⟨offset, s⟩ := next
    cases hinside
    rw [if_pos (beq_iff_eq.2 hround)]
    exact keepsBlocks_block htext hkeyword hatNext hon
  · rw [if_neg fun hopens => hround (beq_iff_eq.1 hopens)]
    refine keepsBlocks_inl hlt htext (hname.trans ?_)
    rw [hon]
    simp only [bind, Except.bind]
    split
    · next hinside => exact absurd (congrArg List.head? hinside) hround
    · rfl

theorem keepsBlocks_wordTurn (hdrop : text.drop place = c :: rest)
    (hother : (Text.isLetter c && keywordMayFollow (before text place)) = false →
      blocksOn text (blocks, place + 1) = blocksOn text (blocks, place)) :
    KeepsBlocks text blocks place (wordTurn text blocks place) := by
  have hlt := Text.lt_length_of_drop hdrop
  have hchar : charAt text place = (pure c : Except (Halt Fault) Char) := Text.charAt_of_drop hdrop
  rw [wordTurn, hchar, pure_bind, keywordMayStart_eq hlt, pure_bind]
  by_cases hstarts : (Text.isLetter c && keywordMayFollow (before text place)) = true
  swap
  · rw [if_neg hstarts]
    exact keepsBlocks_inl (Nat.lt_succ_self place) hlt (hother (Bool.eq_false_iff.2 hstarts))
  obtain ⟨hletter, hfollow⟩ := Bool.and_eq_true_iff.1 hstarts
  have htake : (text.drop place).takeWhile isNamePart = c :: rest.takeWhile isNamePart := by
    rw [hdrop, List.takeWhile_cons_of_pos (isNamePart_of_isLetter hletter)]
  generalize hword : c :: rest.takeWhile isNamePart = word at htake
  have hspan : span text isNamePart place = pure (place + word.length) := by
    rw [span_eq, htake]
    rfl
  have hword_eq : word = (text.drop place).take word.length := by
    rw [← List.prefix_iff_eq_take, ← htake]
    exact List.takeWhile_prefix _
  have hslice : slice text place (place + word.length) = word := by
    rw [slice, Span.slice, Nat.add_sub_cancel_left]
    exact hword_eq.symm
  have hpos : 0 < word.length := by
    rw [← hword]
    exact Nat.succ_pos _
  have hle : place + word.length ≤ text.length := by
    have hlength := congrArg List.length hword_eq
    rw [List.length_take, List.length_drop] at hlength
    omega
  have hat : Cursor.At text ⟨place + word.length, rest.drop (word.length - 1)⟩ := by
    have hsum : place + 1 + (word.length - 1) = place + word.length := by omega
    rw [← hsum, Cursor.At, ← List.drop_drop, Text.drop_succ_of_drop hdrop]
  have hname : blocksOn text (blocks, place + word.length) = settled (blocks ++ ·)
      (blocksFrom word.getLast? (place + word.length) (rest.drop (word.length - 1))) := by
    rw [blocksOn, before_add hdrop hpos, ← hdrop, ← hword_eq, ← hat]
  rw [if_pos hstarts, hspan, pure_bind, hslice]
  by_cases hkeyword : Text.lower word = "param".toList
  · rw [if_pos hkeyword]
    exact keepsBlocks_keywordTurn hdrop hletter hfollow hword hkeyword rfl hat
      (Nat.lt_add_of_pos_right hpos) hle hname
  · rw [if_neg hkeyword]
    refine keepsBlocks_inl (Nat.lt_add_of_pos_right hpos) hlt (hname.trans ?_)
    rw [blocksOn, hdrop, blocksFrom_word hletter hfollow hword rfl hkeyword]

end Turns

theorem keeps_blocksTurn (state : List (ParameterBlock Span) × Nat) :
    Text.Keeps (blocksOn text) (fun state => text.length - state.2) (fun _ => True) state
      (blocksTurn text state) := by
  obtain ⟨blocks, place⟩ := state
  rw [blocksTurn]
  by_cases hlt : place < text.length
  swap
  · rw [if_neg hlt]
    simp only [pure, Except.pure, Text.Keeps, blocksOn, List.drop_eq_nil_of_le (Nat.not_lt.1 hlt)]
    rw [blocksFrom]
    exact congrArg Except.ok (List.append_nil blocks)
  obtain ⟨c, rest, hdrop⟩ := exists_drop_of_lt hlt
  have hlength := Text.length_of_drop hdrop
  have hon : blocksOn text (blocks, place) =
      settled (blocks ++ ·) (blocksFrom (before text place) place (c :: rest)) := by
    rw [blocksOn, hdrop]
  rw [if_pos hlt, skipOpaque_eq hdrop]
  rcases hscan : Lexeme.scanAt place c rest with fault | lexeme
  · rw [blocksFrom, hscan] at hon
    exact hon
  have hpos := lexeme.length_pos
  have hscan' := scanAt_eq_ok_iff.1 hscan
  have hnext (hnone : lexeme.kind = .plain →
      (Text.isLetter c && keywordMayFollow (before text place)) = false) :
      blocksOn text (blocks, place + lexeme.length) = blocksOn text (blocks, place) := by
    rw [hon, blocksFrom_lexeme hscan' hnone, blocksOn, before_add hdrop hpos,
      drop_lexeme_of_drop hdrop]
  by_cases hkind : lexeme.kind = .plain
  swap
  · simp only [settled, lexemeEnd, if_neg hkind, bind, Except.bind]
    exact ⟨trivial, by dsimp only; omega, hnext fun hplain => absurd hplain hkind⟩
  rw [length_of_plain hscan' hkind] at hnext
  simp only [settled, lexemeEnd, if_pos hkind]
  exact keepsBlocks_wordTurn hdrop fun hnone => hnext fun _ => hnone

/-- The loops over offsets find the blocks of the text, or its fault. -/
theorem parameterBlocks_eq (text : List Char) :
    parameterBlocks text = settled id (PowerShell.parameterBlocks text) :=
  Text.loop_eq (fun state _ => keeps_blocksTurn state) trivial (by dsimp only; omega)

/-! ## Moving on -/

/-- Every loop moves on with each of its turns, up to where it stops in the text. -/
structure LoopsMoveOn (text : List Char) : Prop where
  span : ∀ p, Text.MovesOn (fun _ => True) id (spanTurn text p)
  single : ∀ start, Text.MovesOn (fun _ => True) id (singleTurn text start)
  double : ∀ start, Text.MovesOn (fun _ => True) id (doubleTurn text start)
  trivia : ∀ stop ≤ text.length, Text.MovesOn (fun _ => True) id (triviaTurn text stop)
  codeEnd : ∀ stop ≤ text.length, Text.MovesOn (fun _ => True) Prod.snd (codeEndTurn text stop)
  codeText : ∀ stop ≤ text.length, Text.MovesOn
    (fun state => state.2.1 ≤ state.2.2 ∧ state.2.1 ≤ stop) (·.2.2) (codeTextTurn text stop)
  closing : ∀ opening start, Text.MovesOn (fun state => state.1 ≠ []) Prod.snd
    (closingTurn text opening start)
  split : ∀ stop ≤ text.length, Text.MovesOn (fun _ => True) (·.2.2) (splitTurn text stop)
  opening : ∀ stop ≤ text.length, Text.MovesOn (fun _ => True) id (openingTurn text stop)
  attributes : ∀ stop ≤ text.length, Text.MovesOn (fun _ => True) Prod.snd
    (attributesTurn text stop)
  blocks : Text.MovesOn (fun _ => True) Prod.snd (blocksTurn text)

theorem loopsMoveOn (text : List Char) : LoopsMoveOn text where
  span p := Text.movesOn_of_keeps fun place _ => keeps_spanTurn p place
  single start := Text.movesOn_of_keeps fun place _ => keeps_singleTurn start place
  double start := Text.movesOn_of_keeps fun place _ => keeps_doubleTurn start place
  trivia _ hstop := Text.movesOn_of_keeps fun place _ => keeps_triviaTurn hstop place
  codeEnd _ hstop := Text.movesOn_of_keeps fun state _ => keeps_codeEndTurn hstop state
  codeText _ hstop := Text.movesOn_of_keeps fun _ => keeps_codeTextTurn hstop
  closing opening start := Text.movesOn_of_keeps fun _ => keeps_closingTurn opening start
  split _ hstop := Text.movesOn_of_keeps fun state _ => keeps_splitTurn hstop state
  opening _ hstop := Text.movesOn_of_keeps fun place _ => keeps_openingTurn hstop place
  attributes _ hstop := Text.movesOn_of_keeps fun state _ => keeps_attributesTurn hstop state
  blocks := Text.movesOn_of_keeps fun state _ => keeps_blocksTurn state

/-- At an offset within the text nothing is skipped, or something is, or there is a fault. -/
theorem skipOpaque_forward (h : offset < text.length) :
    skipOpaque text offset = .ok none ∨
      (∃ next, skipOpaque text offset = .ok (some next) ∧ offset < next ∧ next ≤ text.length) ∨
      ∃ fault, skipOpaque text offset = .error (.fault fault) := by
  obtain ⟨c, rest, hdrop⟩ := exists_drop_of_lt h
  have hlength := Text.length_of_drop hdrop
  rw [skipOpaque_eq hdrop]
  rcases Lexeme.scanAt offset c rest with fault | lexeme
  · exact .inr (.inr ⟨fault, rfl⟩)
  have hpos := lexeme.length_pos
  have hle := lexeme.length_le
  rw [List.length_cons] at hle
  by_cases hkind : lexeme.kind = .plain
  · exact .inl (by simp only [settled, lexemeEnd, if_pos hkind])
  · refine .inr (.inl ⟨offset + lexeme.length, ?_, by omega, by omega⟩)
    simp only [settled, lexemeEnd, if_neg hkind]

/-- A word that starts with a letter has a character. -/
theorem span_forward (hchar : text[offset]? = some c) (hletter : Text.isLetter c = true) :
    ∃ next, span text isNamePart offset = .ok next ∧ offset < next ∧ next ≤ text.length := by
  have hdrop : text.drop offset = c :: text.drop (offset + 1) := by
    obtain ⟨hlt, rfl⟩ := List.getElem?_eq_some_iff.1 hchar
    exact List.drop_eq_getElem_cons hlt
  have hlength := Text.length_of_drop hdrop
  have hword := (List.takeWhile_sublist isNamePart (l := text.drop offset)).length_le
  have hpos : 0 < ((text.drop offset).takeWhile isNamePart).length := by
    rw [hdrop, List.takeWhile_cons_of_pos (isNamePart_of_isLetter hletter)]
    exact Nat.succ_pos _
  rw [List.length_drop] at hword
  exact ⟨_, span_eq isNamePart offset, by omega, by omega⟩

end DscAudit.PowerShell.ByOffset

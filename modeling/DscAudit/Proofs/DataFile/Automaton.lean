import DscAudit.Proofs.DataFile.Derivation
import DscAudit.Proofs.DataFile.Reading

/-!
# An automaton for data files

The tokens of a data file are taken one by one, and a stack remembers which tables and arrays are
open.  From every state some tokens lead to the end, so the tokens that the automaton takes are just
those that a document can begin with.  The readers are followed through it: where one succeeds, the
automaton takes the tokens that it read; where one fails, the automaton takes the tokens before the
fault and refuses the next one.
-/

namespace DscAudit.DataFile

open Grammar

/-- What an open bracket opened. -/
inductive Frame where
  | table
  | array

/-- What may come next, with the brackets that are open from the inside out.  In a table and in an
array the innermost bracket is known. -/
inductive State where
  | document
  | entry (outer : List Frame)
  | equals (outer : List Frame)
  | item (inner : Frame) (outer : List Frame)
  | element (first : Bool) (outer : List Frame)
  | behindItem (inner : Frame) (outer : List Frame)
  | finished

/-- The state behind a bracket that closes. -/
def closed : List Frame → State
  | [] => .finished
  | inner :: outer => .behindItem inner outer

/-- The state behind a separator that follows an item. -/
def separated : Frame → List Frame → State
  | .table, outer => .entry outer
  | .array, outer => .element false outer

/-- The state behind the first token of an item. -/
def openItem (inner : Frame) (outer : List Frame) : Token → Option State
  | .string _ | .constant _ => some (.behindItem inner outer)
  | .openTable => some (.entry (inner :: outer))
  | .openArray => some (.element true (inner :: outer))
  | _ => none

/-- The state behind a token before an entry of a table. -/
def shiftEntry (outer : List Frame) (token : Token) : Option State :=
  match key? token with
  | some _ => some (.equals outer)
  | none =>
    match token with
    | .newLine | .semicolon => some (.entry outer)
    | .closeTable => some (closed outer)
    | _ => none

/-- The state behind a token, nothing if the token must not come. -/
def shift (state : State) (token : Token) : Option State :=
  match state with
  | .document =>
    match token with
    | .newLine | .semicolon => some .document
    | .openTable => some (.entry [])
    | _ => none
  | .entry outer => shiftEntry outer token
  | .equals outer =>
    match token with
    | .equals => some (.item .table outer)
    | _ => none
  | .item inner outer =>
    match token with
    | .newLine => some (.item inner outer)
    | token => openItem inner outer token
  | .element first outer =>
    match token with
    | .newLine | .semicolon => some (.element first outer)
    | .comma => if first then none else some (.element first outer)
    | .closeArray => some (closed outer)
    | token => openItem .array outer token
  | .behindItem inner outer =>
    match inner, token with
    | _, .comma => some (.item inner outer)
    | _, .newLine | _, .semicolon => some (separated inner outer)
    | .table, .closeTable | .array, .closeArray => some (closed outer)
    | _, _ => none
  | .finished =>
    match token with
    | .newLine | .semicolon => some .finished
    | _ => none

/-- The state behind several tokens. -/
def shiftAll (state : State) (tokens : List Token) : Option State := tokens.foldlM shift state

theorem shiftAll_append (state : State) (first second : List Token) :
    shiftAll state (first ++ second) = (shiftAll state first).bind (shiftAll · second) :=
  List.foldlM_append

theorem shiftAll_cons (state : State) (token : Token) (tokens : List Token) :
    shiftAll state (token :: tokens) = (shift state token).bind (shiftAll · tokens) :=
  List.foldlM_cons

/-! ## Every state can be completed -/

/-- The tokens that close brackets. -/
def closing (frames : List Frame) : List Token :=
  frames.map fun
    | .table => .closeTable
    | .array => .closeArray

/-- Tokens that lead from a state to the end. -/
def State.completion : State → List Token
  | .document => [.openTable, .closeTable]
  | .entry outer => closing (.table :: outer)
  | .equals outer => .equals :: .constant .null :: closing (.table :: outer)
  | .item inner outer => .constant .null :: closing (inner :: outer)
  | .element _ outer => closing (.array :: outer)
  | .behindItem inner outer => closing (inner :: outer)
  | .finished => []

theorem shiftAll_closing (frames : List Frame) :
    shiftAll (closed frames) (closing frames) = some .finished := by
  induction frames with
  | nil => rfl
  | cons frame frames ih => cases frame <;> exact ih

theorem shiftAll_completion (state : State) :
    shiftAll state state.completion = some .finished := by
  cases state with
  | document => rfl
  | entry outer => exact shiftAll_closing outer
  | equals outer => exact shiftAll_closing outer
  | item inner outer => exact shiftAll_closing (inner :: outer)
  | element first outer => exact shiftAll_closing outer
  | behindItem inner outer => exact shiftAll_closing (inner :: outer)
  | finished => rfl

/-! ## Located tokens -/

/-- The automaton takes the tokens before `rest` and comes from one state to another. -/
def Runs (state : State) (tokens : List Located) (next : State) (rest : List Located) : Prop :=
  ∃ front, tokens = front ++ rest ∧ shiftAll state (front.map Located.token) = some next

/-- The automaton must not stop here, and cannot go on either. -/
def Refuses (state : State) : List Located → Prop
  | [] => state ≠ .finished
  | first :: _ => shift state first.token = none

/-- The automaton comes to a token that it refuses, and the fault lies there. -/
def Fails (stop : Place) (state : State) (tokens : List Located) (fault : Fault) : Prop :=
  ∃ next rest cause, Runs state tokens next rest ∧ Refuses next rest ∧
    fault = faultAt stop cause rest

/-- What the automaton does while a reader comes to its result. -/
def Follows {α : Type} (stop : Place) (state : State) (tokens : List Located) (next : State) :
    Except Fault (α × List Located) → Prop
  | .ok (_, rest) => Runs state tokens next rest
  | .error fault => Fails stop state tokens fault

variable {stop : Place} {state middle next : State} {tokens between rest : List Located}

theorem Runs.refl (state : State) (tokens : List Located) : Runs state tokens state tokens :=
  ⟨[], rfl, rfl⟩

theorem Runs.trans (hfirst : Runs state tokens middle between)
    (hsecond : Runs middle between next rest) : Runs state tokens next rest := by
  obtain ⟨front, rfl, hfront⟩ := hfirst
  obtain ⟨back, rfl, hback⟩ := hsecond
  refine ⟨front ++ back, (List.append_assoc ..).symm, ?_⟩
  rw [List.map_append, shiftAll_append, hfront]
  exact hback

theorem Runs.single {first : Located} (h : shift state first.token = some next) :
    Runs state (first :: rest) next rest :=
  ⟨[first], rfl, by rw [List.map_singleton, shiftAll_cons, h]; rfl⟩

theorem Runs.dropWhile {p : Located → Bool}
    (hp : ∀ located, p located = true → shift state located.token = some state)
    (tokens : List Located) : Runs state tokens state (tokens.dropWhile p) := by
  induction tokens with
  | nil => exact .refl _ _
  | cons first tokens ih =>
      by_cases hfirst : p first = true
      · rw [List.dropWhile_cons_of_pos hfirst]
        exact (Runs.single (hp first hfirst)).trans ih
      · rw [List.dropWhile_cons_of_neg hfirst]
        exact .refl _ _

theorem Fails.of_refuses {cause : Cause} (h : Refuses state tokens) :
    Fails stop state tokens (faultAt stop cause tokens) :=
  ⟨state, tokens, cause, .refl _ _, h, rfl⟩

section

variable {α β : Type} {found : Except Fault (α × List Located)}

theorem Follows.after (hruns : Runs state tokens middle between)
    (h : Follows stop middle between next found) : Follows stop state tokens next found := by
  rcases found with fault | ⟨result, rest⟩
  · obtain ⟨last, rest, cause, hlast, hrefuses, hfault⟩ := h
    exact ⟨last, rest, cause, hruns.trans hlast, hrefuses, hfault⟩
  · exact hruns.trans h

theorem Follows.bind {onward : α × List Located → Except Fault (β × List Located)}
    (h : Follows stop state tokens middle found)
    (honward : ∀ result rest, found = .ok (result, rest) →
      Follows stop middle rest next (onward (result, rest))) :
    Follows stop state tokens next (found >>= onward) := by
  rcases found with fault | ⟨result, rest⟩
  · exact h
  · exact Follows.after h (honward result rest rfl)

end

/-! ## The readers along the automaton -/

/-- The automaton takes what can come next as the first token of an item, or refuses it. -/
def Awaits (state : State) (inner : Frame) (outer : List Frame) (tokens : List Located) : Prop :=
  state ≠ .finished ∧
    ∀ first ∈ tokens.head?, shift state first.token = openItem inner outer first.token

/-- What is skipped before an element.  A comma is only skipped behind another one. -/
def isElementSeparator (first : Bool) : Located → Bool :=
  if first then isSeparator else isArraySeparator

/-- What is skipped before an element has been skipped. -/
def StartsElement (first : Bool) (tokens : List Located) : Prop :=
  ∀ head ∈ tokens.head?, isElementSeparator first head = false

theorem shift_document_of_isSeparator (located : Located) (h : isSeparator located = true) :
    shift .document located.token = some .document := by
  obtain ⟨token, line, column⟩ := located
  cases token <;> first | rfl | cases h

theorem shift_finished_of_isSeparator (located : Located) (h : isSeparator located = true) :
    shift .finished located.token = some .finished := by
  obtain ⟨token, line, column⟩ := located
  cases token <;> first | rfl | cases h

theorem shift_entry_of_isSeparator (outer : List Frame) (located : Located)
    (h : isSeparator located = true) : shift (.entry outer) located.token = some (.entry outer) := by
  obtain ⟨token, line, column⟩ := located
  cases token <;> first | rfl | cases h

theorem shift_element_of_isElementSeparator (first : Bool) (outer : List Frame)
    (located : Located) (h : isElementSeparator first located = true) :
    shift (.element first outer) located.token = some (.element first outer) := by
  obtain ⟨token, line, column⟩ := located
  cases first <;> cases token <;> first | rfl | cases h

theorem shift_item_of_isLineEnd (inner : Frame) (outer : List Frame) (located : Located)
    (h : isLineEnd located = true) :
    shift (.item inner outer) located.token = some (.item inner outer) := by
  obtain ⟨token, line, column⟩ := located
  cases token <;> first | rfl | cases h

theorem awaits_item (inner : Frame) (outer : List Frame) (tokens : List Located) :
    Awaits (.item inner outer) inner outer (tokens.dropWhile isLineEnd) := by
  refine ⟨nofun, fun first hfirst => ?_⟩
  have hline := head?_dropWhile_eq_false hfirst
  obtain ⟨token, line, column⟩ := first
  cases token <;> first | rfl | cases hline

theorem readsItems_of_itemsAt {first : Value} {more : List Value}
    (h : itemsAt stop tokens = .ok ((first, more), rest)) :
    ReadsItems stop tokens first more rest :=
  plain_eq_ok_iff.1 h

theorem entriesAt_cons_of_isSeparator {first : Located} {table : Table}
    (h : isSeparator first = true) :
    entriesAt stop table (first :: rest) = entriesAt stop table rest := by
  rw [entriesAt_eq, List.dropWhile_cons_of_pos h, ← entriesAt_eq]

/-- The automaton follows the readers of fewer than `bound` tokens. -/
structure FollowsBelow (stop : Place) (bound : Nat) : Prop where
  item : ∀ {state inner outer tokens}, tokens.length < bound → Awaits state inner outer tokens →
    Follows stop state tokens (.behindItem inner outer) (itemAt stop tokens)
  more : ∀ {inner outer tokens}, tokens.length < bound →
    Follows stop (.behindItem inner outer) tokens (.behindItem inner outer) (moreAt stop tokens)
  items : ∀ {state inner outer tokens}, tokens.length < bound → Awaits state inner outer tokens →
    Follows stop state tokens (.behindItem inner outer) (itemsAt stop tokens)
  entries : ∀ {outer table tokens}, tokens.length < bound →
    Follows stop (.entry outer) tokens (closed outer) (entriesAt stop table tokens)
  elements : ∀ {first outer tokens}, tokens.length < bound → StartsElement first tokens →
    Follows stop (.element first outer) tokens (closed outer) (elementsAt stop tokens)

namespace FollowsBelow

variable {bound : Nat} {inner : Frame} {outer : List Frame} {table : Table}

theorem item_le (below : FollowsBelow stop bound) (hlength : tokens.length ≤ bound)
    (hawaits : Awaits state inner outer tokens) :
    Follows stop state tokens (.behindItem inner outer) (itemAt stop tokens) := by
  rw [itemAt_eq]
  cases tokens with
  | nil => exact Fails.of_refuses hawaits.1
  | cons first rest =>
      have hshift := hawaits.2 first rfl
      obtain ⟨token, line, column⟩ := first
      cases token with
      | string content => exact Runs.single hshift
      | constant value => exact Runs.single hshift
      | openTable =>
          refine Follows.after (Runs.single hshift) (Follows.bind (below.entries hlength) ?_)
          exact fun table rest _ => Runs.refl _ _
      | openArray =>
          have hskip := length_skip_le isSeparator rest
          refine Follows.after ((Runs.single hshift).trans
            (.dropWhile (shift_element_of_isElementSeparator true _) rest)) (Follows.bind
              (below.elements (Nat.lt_of_le_of_lt hskip hlength)
                fun _ h => head?_dropWhile_eq_false h) ?_)
          exact fun values rest _ => Runs.refl _ _
      | _ => exact Fails.of_refuses hshift

theorem more_le (below : FollowsBelow stop bound) (hlength : tokens.length ≤ bound) :
    Follows stop (.behindItem inner outer) tokens (.behindItem inner outer)
      (moreAt stop tokens) := by
  rw [moreAt_eq]
  cases tokens with
  | nil => exact Runs.refl _ _
  | cons first rest =>
      obtain ⟨token, line, column⟩ := first
      cases token with
      | comma =>
          have hskip := length_skip_le isLineEnd rest
          have hrest : (rest.dropWhile isLineEnd).length < bound := Nat.lt_of_le_of_lt hskip hlength
          have hcomma : shift (.behindItem inner outer) .comma = some (.item inner outer) := by
            cases inner <;> rfl
          refine Follows.after ((Runs.single hcomma).trans
            (.dropWhile (shift_item_of_isLineEnd inner outer) rest)) ?_
          refine Follows.bind (below.item hrest (awaits_item inner outer rest))
            fun value behind hvalue => ?_
          have hbehind := length_lt_of_plain hvalue
          refine Follows.bind (below.more (by omega)) fun more behind _ => ?_
          exact Runs.refl _ _
      | _ => exact Runs.refl _ _

theorem items_le (below : FollowsBelow stop bound) (hlength : tokens.length ≤ bound)
    (hawaits : Awaits state inner outer tokens) :
    Follows stop state tokens (.behindItem inner outer) (itemsAt stop tokens) := by
  rw [itemsAt_eq]
  refine Follows.bind (below.item_le hlength hawaits) fun value behind hvalue => ?_
  have hbehind := length_lt_of_plain hvalue
  refine Follows.bind (below.more (by omega)) fun more behind _ => ?_
  exact Runs.refl _ _

theorem afterEntry_le (below : FollowsBelow stop bound) (hlength : tokens.length < bound)
    (key : String) (hcomma : next? tokens ≠ some .comma) :
    Follows stop (.behindItem .table outer) tokens (closed outer)
      (afterEntry stop key table tokens) := by
  rw [afterEntry]
  cases tokens with
  | nil => exact Fails.of_refuses State.noConfusion
  | cons first rest =>
      have hrest : rest.length < bound := Nat.lt_of_succ_lt hlength
      obtain ⟨token, line, column⟩ := first
      cases token with
      | comma => exact absurd rfl hcomma
      | newLine =>
          change Follows stop _ _ _ (entriesAt stop table (_ :: rest))
          rw [entriesAt_cons_of_isSeparator rfl]
          exact Follows.after (Runs.single rfl) (below.entries hrest)
      | semicolon =>
          change Follows stop _ _ _ (entriesAt stop table (_ :: rest))
          rw [entriesAt_cons_of_isSeparator rfl]
          exact Follows.after (Runs.single rfl) (below.entries hrest)
      | closeTable =>
          change Follows stop _ _ _ (entriesAt stop table (_ :: rest))
          rw [entriesAt_eq]
          exact Runs.single rfl
      | _ => exact Fails.of_refuses rfl

theorem afterElement_le (below : FollowsBelow stop bound) (hlength : tokens.length < bound)
    (values : List Value) (hcomma : next? tokens ≠ some .comma) :
    Follows stop (.behindItem .array outer) tokens (closed outer)
      (afterElement stop values tokens) := by
  rw [afterElement]
  cases tokens with
  | nil => exact Fails.of_refuses State.noConfusion
  | cons first rest =>
      have hskip := length_skip_le isArraySeparator rest
      have hrest : (rest.dropWhile isArraySeparator).length < bound :=
        Nat.lt_of_le_of_lt hskip (Nat.lt_of_succ_lt hlength)
      have hbody : Follows stop (.element false outer) rest (closed outer) (do
          let body ← elementsAt stop (rest.dropWhile isArraySeparator)
          return (values ++ body.1, body.2)) := by
        refine Follows.after (.dropWhile (shift_element_of_isElementSeparator false outer) rest)
          (Follows.bind (below.elements hrest fun _ h => head?_dropWhile_eq_false h) ?_)
        exact fun more behind _ => Runs.refl _ _
      obtain ⟨token, line, column⟩ := first
      cases token with
      | comma => exact absurd rfl hcomma
      | newLine => exact Follows.after (Runs.single rfl) hbody
      | semicolon => exact Follows.after (Runs.single rfl) hbody
      | closeArray =>
          change Follows stop _ _ _ (elementsAt stop (⟨.closeArray, line, column⟩ :: rest) >>= _)
          rw [elementsAt_eq]
          exact Runs.single rfl
      | _ => exact Fails.of_refuses rfl

theorem afterKey_le (below : FollowsBelow stop bound) (hlength : tokens.length < bound)
    (key : String) :
    Follows stop (.equals outer) tokens (closed outer) (afterKey stop key table tokens) := by
  cases tokens with
  | nil => exact Fails.of_refuses nofun
  | cons first rest =>
      have hskip := length_skip_le isLineEnd rest
      have hrest : (rest.dropWhile isLineEnd).length < bound :=
        Nat.lt_of_le_of_lt hskip (Nat.lt_of_succ_lt hlength)
      obtain ⟨token, line, column⟩ := first
      cases token with
      | equals =>
          rw [afterKey_eq]
          refine Follows.after ((Runs.single rfl).trans
            (.dropWhile (shift_item_of_isLineEnd .table outer) rest)) ?_
          refine Follows.bind (below.items hrest (awaits_item .table outer rest))
            fun value behind hvalue => ?_
          have hread := readsItems_of_itemsAt hvalue
          have hbehind := hread.length_lt
          exact below.afterEntry_le (by omega) key hread.next?_ne_comma
      | _ => exact Fails.of_refuses rfl

theorem entries_le (below : FollowsBelow stop bound) (hlength : tokens.length ≤ bound) :
    Follows stop (.entry outer) tokens (closed outer) (entriesAt stop table tokens) := by
  rw [entriesAt_eq]
  refine Follows.after (.dropWhile (shift_entry_of_isSeparator outer) tokens) ?_
  have hskip := length_skip_le isSeparator tokens
  cases htokens : tokens.dropWhile isSeparator with
  | nil => exact Fails.of_refuses nofun
  | cons first rest =>
      rw [htokens, List.length_cons] at hskip
      have hseparator := eq_false_of_dropWhile_eq_cons htokens
      obtain ⟨token, line, column⟩ := first
      dsimp only
      cases hkey : key? token with
      | some key =>
          have hshift : shift (.entry outer) token = some (.equals outer) := by
            simp only [shift.eq_def, shiftEntry.eq_def, hkey]
          exact Follows.after (Runs.single hshift) (below.afterKey_le (by omega) key)
      | none =>
          cases token with
          | newLine => cases hseparator
          | semicolon => cases hseparator
          | closeTable => exact Runs.single rfl
          | constant value =>
              exact Fails.of_refuses (by simp only [Refuses, shift.eq_def, shiftEntry.eq_def, hkey])
          | string content => cases hkey
          | word name => cases hkey
          | _ => exact Fails.of_refuses rfl

theorem elements_le (below : FollowsBelow stop bound) (hlength : tokens.length ≤ bound)
    {first : Bool} (hstarts : StartsElement first tokens) :
    Follows stop (.element first outer) tokens (closed outer) (elementsAt stop tokens) := by
  have helement (hawaits : Awaits (.element first outer) .array outer tokens) :
      Follows stop (.element first outer) tokens (closed outer) (elementAt stop tokens) := by
    refine Follows.bind (below.items_le hlength hawaits) fun value behind hvalue => ?_
    have hread := readsItems_of_itemsAt hvalue
    have hbehind := hread.length_lt
    exact below.afterElement_le (by omega) _ hread.next?_ne_comma
  rw [elementsAt_eq]
  cases tokens with
  | nil => exact helement ⟨nofun, nofun⟩
  | cons head rest =>
      have hseparator := hstarts head rfl
      obtain ⟨token, line, column⟩ := head
      cases token with
      | newLine => cases first <;> cases hseparator
      | semicolon => cases first <;> cases hseparator
      | closeArray => exact Runs.single rfl
      | comma =>
          cases first with
          | false => cases hseparator
          | true => exact helement ⟨nofun, fun _ hhead => by cases hhead; rfl⟩
      | _ => exact helement ⟨nofun, fun _ hhead => by cases hhead; rfl⟩

end FollowsBelow

theorem followsBelow (stop : Place) (bound : Nat) : FollowsBelow stop bound := by
  induction bound with
  | zero => constructor <;> intros <;> contradiction
  | succ bound below =>
      exact {
        item := fun hlength => below.item_le (Nat.le_of_lt_succ hlength)
        more := fun hlength => below.more_le (Nat.le_of_lt_succ hlength)
        items := fun hlength => below.items_le (Nat.le_of_lt_succ hlength)
        entries := fun hlength => below.entries_le (Nat.le_of_lt_succ hlength)
        elements := fun hlength => below.elements_le (Nat.le_of_lt_succ hlength) }

theorem follows_entriesAt (outer : List Frame) (table : Table) (tokens : List Located) :
    Follows stop (.entry outer) tokens (closed outer) (entriesAt stop table tokens) :=
  (followsBelow stop (tokens.length + 1)).entries (Nat.lt_succ_self _)

/-! ## Documents -/

theorem follows_document? (tokens : List Located) :
    Follows stop .document tokens .finished
      ((document? stop tokens).map fun table => (table, [])) := by
  rw [document?_eq]
  refine Follows.after (.dropWhile shift_document_of_isSeparator tokens) ?_
  cases htokens : tokens.dropWhile isSeparator with
  | nil => exact Fails.of_refuses State.noConfusion
  | cons first rest =>
      have hseparator := eq_false_of_dropWhile_eq_cons htokens
      obtain ⟨token, line, column⟩ := first
      cases token with
      | newLine => cases hseparator
      | semicolon => cases hseparator
      | openTable =>
          refine Follows.after (Runs.single rfl) ?_
          have hbody := @follows_entriesAt stop [] [] rest
          change Follows _ _ _ _ (Except.map _ (entriesAt stop [] rest >>= _))
          rcases hread : entriesAt stop [] rest with fault | ⟨table, behind⟩
          · rw [hread] at hbody
            exact hbody
          · rw [hread] at hbody
            refine Follows.after (Runs.trans hbody
              (.dropWhile shift_finished_of_isSeparator behind)) ?_
            simp only [bind, Except.bind]
            cases hbehind : behind.dropWhile isSeparator with
            | nil => exact Runs.refl _ _
            | cons first more =>
                have hseparator := eq_false_of_dropWhile_eq_cons hbehind
                obtain ⟨token, line, column⟩ := first
                refine Fails.of_refuses ?_
                cases token <;> first | rfl | cases hseparator
      | _ => exact Fails.of_refuses rfl

/-- The tokens of a document lead from the start to the end. -/
theorem shiftAll_of_document? {table : Table} (h : document? stop tokens = .ok table) :
    shiftAll .document (tokens.map Located.token) = some .finished := by
  have hfollows := @follows_document? stop tokens
  rw [h] at hfollows
  obtain ⟨front, hfront, hshift⟩ := hfollows
  rw [hfront, List.append_nil]
  exact hshift

/-- Where the tokens are no document, the automaton refuses the token at which the fault lies. -/
theorem fails_of_document? {fault : Fault} (h : document? stop tokens = .error fault) :
    Fails stop .document tokens fault := by
  have hfollows := @follows_document? stop tokens
  rw [h] at hfollows
  exact hfollows

theorem Fails.shiftAll_ne_finished {fault : Fault} (h : Fails stop .document tokens fault) :
    shiftAll .document (tokens.map Located.token) ≠ some .finished := by
  obtain ⟨next, rest, cause, ⟨front, rfl, hfront⟩, hrefuses, rfl⟩ := h
  rw [List.map_append, shiftAll_append, hfront]
  cases rest with
  | nil => exact fun hnext => hrefuses (Option.some.inj hnext)
  | cons first rest =>
      rw [Option.bind_some, List.map_cons, shiftAll_cons, show shift _ _ = none from hrefuses]
      exact nofun

theorem shiftAll_eq_finished_iff {tokens : List Token} :
    shiftAll .document tokens = some .finished ↔
      ∃ document : Document, document.tokens = tokens := by
  have hlocated : (tokens.map fun token => (⟨token, 1, 1⟩ : Located)).map Located.token = tokens := by
    simp [Function.comp_def]
  constructor
  · intro h
    cases hread : document? .start (tokens.map fun token => ⟨token, 1, 1⟩) with
    | error fault =>
        exact absurd (hlocated.symm ▸ h) (fails_of_document? hread).shiftAll_ne_finished
    | ok table =>
        obtain ⟨document, htokens, _⟩ := document?_eq_ok_iff_derives.1 hread
        exact ⟨document, htokens.trans hlocated⟩
  · rintro ⟨document, htokens⟩
    have hread : document? .start (tokens.map fun token => ⟨token, 1, 1⟩) = .ok document.table :=
      document?_eq_ok_iff_derives.2 ⟨document, htokens.trans hlocated.symm, rfl⟩
    rw [← hlocated]
    exact shiftAll_of_document? hread

/-- The automaton takes just the tokens with which a document begins. -/
theorem isSome_shiftAll_iff {tokens : List Token} :
    (shiftAll .document tokens).isSome ↔
      ∃ document : Document, tokens <+: document.tokens := by
  constructor
  · intro h
    obtain ⟨state, hstate⟩ := Option.isSome_iff_exists.1 h
    have hfinished : shiftAll .document (tokens ++ state.completion) = some .finished := by
      rw [shiftAll_append, hstate]
      exact shiftAll_completion state
    obtain ⟨document, hdocument⟩ := shiftAll_eq_finished_iff.1 hfinished
    exact ⟨document, hdocument ▸ List.prefix_append ..⟩
  · rintro ⟨document, behind, hdocument⟩
    have hfinished := shiftAll_eq_finished_iff.2 ⟨document, hdocument.symm⟩
    rw [shiftAll_append] at hfinished
    obtain ⟨state, hstate, _⟩ := Option.bind_eq_some_iff.1 hfinished
    rw [hstate]
    rfl

end DscAudit.DataFile

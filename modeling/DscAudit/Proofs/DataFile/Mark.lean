import DscAudit.Proofs.DataFile.Derivation
import DscAudit.Proofs.DataFile.Offset
import DscAudit.Proofs.DataFile.Reading

/-!
# The readers of data files by offsets

The readers as loops over an offset into the tokens, to which a mark for the end of the text is added.  They
take a mark before they ask what it is, skip marks without asking where the list ends, and go down a table
in a table as often as they are allowed to.  They never go beyond the mark of the end, since every reading
stops before it, and they come to the result of the readers of lists.
-/

namespace DscAudit.DataFile.ByOffset

open Text (Halt loop)

/-! ## The readers -/

/-- A token or the end of the text, and where it stands. -/
structure Mark where
  token : Option Token
  line : Nat
  column : Int

namespace Mark

def kind (mark : Mark) : String := Token.kind mark.token

def fault (mark : Mark) (cause : Cause) : Halt Fault := .fault ⟨cause, mark.line, mark.column⟩

end Mark

/-- The tokens of a text, and its end. -/
def marks (tokens : List Located) (stop : Place) : List Mark :=
  tokens.map (fun token => ⟨some token.token, token.line, token.column⟩) ++
    [⟨none, stop.line, stop.columnOf stop.offset⟩]

section

variable (marks : List Mark)

/-- The mark at an offset, which must be one of the list. -/
def current (offset : Nat) : Except (Halt Fault) Mark :=
  match marks[offset]? with
  | some mark => .ok mark
  | none => .error .pastEnd

def skipTurn (kinds : List String) (offset : Nat) : Except (Halt Fault) (Nat ⊕ Nat) := do
  let mark ← current marks offset
  if mark.kind ∈ kinds then return .inl (offset + 1) else return .inr offset

/-- The offset behind marks of some kinds. -/
def skip (kinds : List String) (offset : Nat) : Except (Halt Fault) Nat :=
  loop (skipTurn marks kinds) (marks.length + 1) offset

def expect (wanted : Token) (offset : Nat) : Except (Halt Fault) Nat := do
  let mark ← current marks offset
  if mark.kind = Token.kind (some wanted) then return offset + 1
  else throw (mark.fault (.expected (some wanted) mark.token))

variable (item : Nat → Except (Halt Fault) (Value × Nat))

def moreTurn : List Value × Nat → Except (Halt Fault) (List Value × Nat ⊕ List Value × Nat)
  | (items, offset) => do
    let mark ← current marks offset
    if mark.kind = "," then do
      let offset ← skip marks ["newline"] (offset + 1)
      let (next, offset) ← item offset
      return .inl (items ++ [next], offset)
    else return .inr (items, offset)

/-- An item and those behind commas. -/
def items (offset : Nat) : Except (Halt Fault) ((Value × List Value) × Nat) := do
  let (first, offset) ← item offset
  let (more, offset) ← loop (moreTurn marks item) (marks.length + 1) ([], offset)
  return ((first, more), offset)

/-- What stands behind the key of an entry. -/
def keyedTurn (key : String) (table : Table) (offset : Nat) :
    Except (Halt Fault) (Table × Nat ⊕ Table × Nat) := do
  let offset ← expect marks .equals offset
  let offset ← skip marks ["newline"] offset
  let ((first, more), offset) ← items marks item offset
  let mark ← current marks offset
  if mark.kind ∈ ["newline", ";", "\x7d"] then do
    let offset ← skip marks ["newline", ";"] offset
    return .inl (table.insert key (valueOf first more), offset)
  else throw (mark.fault (.noSeparatorAfter key))

/-- An entry, or the bracket that closes the table. -/
def tableTurn : Table × Nat → Except (Halt Fault) (Table × Nat ⊕ Table × Nat)
  | (table, offset) => do
    let mark ← current marks offset
    if mark.kind = "\x7d" then return .inr (table, ← expect marks .closeTable offset)
    else
      match mark.token.bind key? with
      | none => throw (mark.fault (.noKey mark.token))
      | some key => keyedTurn marks item key table (offset + 1)

/-- A table behind its opening bracket. -/
def tableBody (offset : Nat) : Except (Halt Fault) (Table × Nat) := do
  let offset ← skip marks ["newline", ";"] offset
  loop (tableTurn marks item) (marks.length + 1) ([], offset)

/-- An element, or the bracket that closes the array. -/
def arrayTurn : List Value × Nat → Except (Halt Fault) (List Value × Nat ⊕ List Value × Nat)
  | (values, offset) => do
    let mark ← current marks offset
    if mark.kind = ")" then return .inr (values, ← expect marks .closeArray offset)
    else do
      let ((first, more), offset) ← items marks item offset
      let mark ← current marks offset
      if mark.kind ∈ ["newline", ";", ",", ")"] then do
        let offset ← skip marks ["newline", ";", ","] offset
        return .inl (values ++ first :: more, offset)
      else throw (mark.fault .noSeparatorInArray)

/-- An array behind its opening bracket. -/
def arrayBody (offset : Nat) : Except (Halt Fault) (List Value × Nat) := do
  let offset ← skip marks ["newline", ";"] offset
  loop (arrayTurn marks item) (marks.length + 1) ([], offset)

end

/-- An item, in which tables and arrays may be nested up to a depth. -/
def item (marks : List Mark) : Nat → Nat → Except (Halt Fault) (Value × Nat)
  | 0, _ => .error .endless
  | depth + 1, offset => do
    let mark ← current marks offset
    match mark.token with
    | some (.string content) => return (.text content, offset + 1)
    | some (.constant value) => return (value, offset + 1)
    | some .openTable => do
      let offset ← expect marks .openTable offset
      let (table, offset) ← tableBody marks (item marks depth) offset
      return (.table table, offset)
    | some .openArray => do
      let offset ← expect marks .openArray offset
      let (values, offset) ← arrayBody marks (item marks depth) offset
      return (.list values, offset)
    | token => throw (mark.fault (.unsupportedValue token))

/-- The table that marks make.  Nothing is nested deeper than the marks are many. -/
def document (marks : List Mark) : Except (Halt Fault) Table := do
  let offset ← skip marks ["newline", ";"] 0
  let offset ← expect marks .openTable offset
  let (table, offset) ← tableBody marks (item marks marks.length) offset
  let offset ← skip marks ["newline", ";"] offset
  let mark ← current marks offset
  if mark.kind = "eof" then return table else throw (mark.fault .contentAfterTable)

/-- The table that a text holds. -/
def read (text : List Char) : Except (Halt Fault) Table := do
  let (tokens, stop) ← ByOffset.tokens text
  document (marks tokens stop)

/-! ## Offsets of what is left -/

/-- The offset at which the last tokens start. -/
def offsetOf (tokens rest : List Located) : Nat := tokens.length - rest.length

/-- The mark before what is left. -/
def markBefore (stop : Place) : List Located → Mark
  | [] => ⟨none, stop.line, stop.columnOf stop.offset⟩
  | token :: _ => ⟨some token.token, token.line, token.column⟩

/-- What a reader of lists comes to, with offsets for what is left. -/
def byOffset {α : Type} (tokens : List Located) :
    Except Fault (α × List Located) → Except (Halt Fault) (α × Nat)
  | .ok (result, rest) => .ok (result, offsetOf tokens rest)
  | .error fault => .error (.fault fault)

variable {tokens rest behind : List Located} {stop : Place} {first : Located}

theorem drop_offsetOf (h : rest <:+ tokens) : tokens.drop (offsetOf tokens rest) = rest :=
  (List.suffix_iff_eq_drop.1 h).symm

theorem offsetOf_cons (h : first :: rest <:+ tokens) :
    offsetOf tokens (first :: rest) + 1 = offsetOf tokens rest := by
  have hlength := h.length_le
  simp only [offsetOf, List.length_cons] at hlength ⊢
  omega

theorem length_sub_offsetOf (h : rest <:+ tokens) :
    tokens.length - offsetOf tokens rest = rest.length :=
  Nat.sub_sub_self h.length_le

theorem suffix_of_cons (h : first :: rest <:+ tokens) : rest <:+ tokens :=
  (List.suffix_cons first rest).trans h

theorem dropWhile_suffix (p : Located → Bool) (h : rest <:+ tokens) : rest.dropWhile p <:+ tokens :=
  (List.dropWhile_suffix p).trans h

theorem length_marks (tokens : List Located) (stop : Place) :
    (marks tokens stop).length = tokens.length + 1 := by
  rw [marks, List.length_append, List.length_map]
  rfl

/-- Before the end of what is left there is always a mark. -/
theorem current_eq (h : rest <:+ tokens) :
    current (marks tokens stop) (offsetOf tokens rest) = .ok (markBefore stop rest) := by
  have hlength := h.length_le
  have hdrop := drop_offsetOf h
  have hle : offsetOf tokens rest ≤ tokens.length := Nat.sub_le _ _
  have hget : (marks tokens stop)[offsetOf tokens rest]? = some (markBefore stop rest) := by
    rw [← List.head?_drop, marks, List.drop_append_of_le_length (by rwa [List.length_map]),
      ← List.map_drop, hdrop]
    cases rest <;> rfl
  rw [current, hget]

theorem fault_markBefore (stop : Place) (cause : Cause) (rest : List Located) :
    (markBefore stop rest).fault cause = .fault (faultAt stop cause rest) := by
  cases rest <;> rfl

theorem token_markBefore (stop : Place) (rest : List Located) :
    (markBefore stop rest).token = next? rest := by
  cases rest <;> rfl

/-- The kinds of marks name a set of tokens, and not the end. -/
def Names (kinds : List String) (p : Located → Bool) : Prop :=
  "eof" ∉ kinds ∧ ∀ located : Located, Token.kind (some located.token) ∈ kinds ↔ p located = true

theorem names_isLineEnd : Names ["newline"] isLineEnd := by
  refine ⟨by decide, ?_⟩
  rintro ⟨token, line, column⟩
  cases token <;> simp [Token.kind, isLineEnd]

theorem names_isSeparator : Names ["newline", ";"] isSeparator := by
  refine ⟨by decide, ?_⟩
  rintro ⟨token, line, column⟩
  cases token <;> simp [Token.kind, isSeparator]

theorem names_isArraySeparator : Names ["newline", ";", ","] isArraySeparator := by
  refine ⟨by decide, ?_⟩
  rintro ⟨token, line, column⟩
  cases token <;> simp [Token.kind, isArraySeparator]

theorem kind_markBefore_mem_iff {kinds : List String} {p : Located → Bool} (hnames : Names kinds p) :
    (markBefore stop rest).kind ∈ kinds ↔ ∃ head ∈ rest.head?, p head = true := by
  cases rest with
  | nil => exact ⟨fun hmem => absurd hmem hnames.1, fun ⟨_, hhead, _⟩ => by cases hhead⟩
  | cons first behind => simp [markBefore, Mark.kind, hnames.2]

/-! ## Skipping and expecting -/

/-- An offset behind which some of the tokens are left. -/
def Within (tokens : List Located) (offset : Nat) : Prop :=
  ∃ rest, rest <:+ tokens ∧ offset = offsetOf tokens rest

theorem keeps_skipTurn {kinds : List String} {p : Located → Bool} (hnames : Names kinds p)
    {offset : Nat} (hwithin : Within tokens offset) :
    Text.Keeps (fun offset => .ok (offsetOf tokens ((tokens.drop offset).dropWhile p)))
      (fun offset => tokens.length - offset) (Within tokens) offset
      (skipTurn (marks tokens stop) kinds offset) := by
  obtain ⟨rest, h, rfl⟩ := hwithin
  have hkind : (markBefore stop rest).kind ∈ kinds ↔ ∃ head ∈ rest.head?, p head = true :=
    kind_markBefore_mem_iff hnames
  rw [skipTurn, current_eq h]
  simp only [bind, Except.bind]
  cases rest with
  | nil =>
      rw [if_neg fun hmem => by obtain ⟨_, hhead, _⟩ := hkind.1 hmem; cases hhead]
      simp only [pure, Except.pure, Text.Keeps, drop_offsetOf h, List.dropWhile_nil]
  | cons first behind =>
      have hbehind := suffix_of_cons h
      by_cases hp : p first = true
      · rw [if_pos (hkind.2 ⟨first, rfl, hp⟩), offsetOf_cons h]
        refine ⟨⟨behind, hbehind, rfl⟩, ?_, ?_⟩
        · simp only [length_sub_offsetOf h, length_sub_offsetOf hbehind]
          exact Nat.lt_succ_self _
        · simp only [drop_offsetOf h, drop_offsetOf hbehind, List.dropWhile_cons_of_pos hp]
      · rw [if_neg fun hmem => by obtain ⟨_, hhead, hp'⟩ := hkind.1 hmem; cases hhead; exact hp hp']
        simp only [pure, Except.pure, Text.Keeps, drop_offsetOf h, List.dropWhile_cons_of_neg hp]

theorem skip_eq {kinds : List String} {p : Located → Bool} (hnames : Names kinds p)
    (h : rest <:+ tokens) :
    skip (marks tokens stop) kinds (offsetOf tokens rest) =
      .ok (offsetOf tokens (rest.dropWhile p)) := by
  rw [skip, Text.loop_eq (fun _ => keeps_skipTurn hnames) ⟨rest, h, rfl⟩
    (by rw [length_marks]; omega), drop_offsetOf h]

theorem expect_cons {wanted : Token} (h : first :: rest <:+ tokens)
    (hfirst : first.token = wanted) :
    expect (marks tokens stop) wanted (offsetOf tokens (first :: rest)) =
      .ok (offsetOf tokens rest) := by
  rw [expect, current_eq h, ← offsetOf_cons h]
  exact if_pos (congrArg (Token.kind ∘ some) hfirst)

theorem expect_of_ne {wanted : Token} (h : rest <:+ tokens)
    (hkind : Token.kind (next? rest) ≠ Token.kind (some wanted)) :
    expect (marks tokens stop) wanted (offsetOf tokens rest) =
      .error (.fault (faultAt stop (.expected (some wanted) (next? rest)) rest)) := by
  rw [expect, current_eq h]
  simp only [bind, Except.bind, Mark.kind, token_markBefore, fault_markBefore]
  exact if_neg hkind

theorem exists_of_next? {token : Token} (h : next? rest = some token) :
    ∃ line column behind, rest = ⟨token, line, column⟩ :: behind := by
  cases rest with
  | nil => cases h
  | cons first behind =>
      cases h
      exact ⟨first.line, first.column, behind, rfl⟩

/-- The kinds of tokens that are expected are the kinds of no other tokens. -/
theorem kind_eq_iff {wanted : Token} (hwanted : wanted = .equals ∨ wanted = .openTable)
    {found : Option Token} : Token.kind found = Token.kind (some wanted) ↔ found = some wanted := by
  rcases hwanted with rfl | rfl <;> rcases found with _ | token
  · decide
  · cases token <;> simp [Token.kind]
  · decide
  · cases token <;> simp [Token.kind]

theorem kind_eq_closeTable_iff {found : Option Token} :
    Token.kind found = "\x7d" ↔ found = some .closeTable := by
  rcases found with _ | token
  · decide
  · cases token <;> simp [Token.kind]

theorem kind_eq_closeArray_iff {found : Option Token} :
    Token.kind found = ")" ↔ found = some .closeArray := by
  rcases found with _ | token
  · decide
  · cases token <;> simp [Token.kind]

/-! ## What is left behind a result -/

theorem suffix_of_consumes {derived : List Token} (h : Consumes derived tokens rest) :
    rest <:+ tokens := by
  induction derived generalizing tokens with
  | nil =>
      cases h
      exact List.suffix_refl _
  | cons token derived ih =>
      obtain ⟨first, behind, rfl, _, hbehind⟩ := h
      exact (ih hbehind).trans (List.suffix_cons first behind)

theorem suffix_of_itemAt {value : Value} (h : itemAt stop tokens = .ok (value, rest)) :
    rest <:+ tokens := by
  obtain ⟨item, hconsumes, _⟩ :=
    (soundBelow stop (tokens.length + 1)).item (Nat.lt_succ_self _) (plain_eq_ok_iff.1 h)
  exact suffix_of_consumes hconsumes

theorem suffix_of_itemsAt {found : Value × List Value} (h : itemsAt stop tokens = .ok (found, rest)) :
    rest <:+ tokens := by
  obtain ⟨items, hconsumes, _⟩ :=
    (soundBelow stop (tokens.length + 1)).items (Nat.lt_succ_self _) (plain_eq_ok_iff.1 h)
  exact suffix_of_consumes hconsumes

theorem suffix_of_entriesAt {before table : Table}
    (h : entriesAt stop before tokens = .ok (table, rest)) : rest <:+ tokens := by
  obtain ⟨separators, body, hconsumes, _⟩ :=
    (soundBelow stop (tokens.length + 1)).entries (Nat.lt_succ_self _) (plain_eq_ok_iff.1 h)
  exact suffix_of_consumes hconsumes

/-! ## Items -/

section

variable {α β : Type}

theorem bind_eq_byOffset {read : Except (Halt Fault) (α × Nat)}
    {found : Except Fault (α × List Located)} {onward : α × Nat → Except (Halt Fault) (β × Nat)}
    {further : α × List Located → Except Fault (β × List Located)}
    (hread : read = byOffset tokens found)
    (honward : ∀ result rest, found = .ok (result, rest) →
      onward (result, offsetOf tokens rest) = byOffset tokens (further (result, rest))) :
    (read >>= onward) = byOffset tokens (found >>= further) := by
  subst hread
  rcases found with fault | ⟨result, rest⟩
  · rfl
  · exact honward result rest rfl

/-- What is found behind what was found before. -/
def resumed (front : List α) (found : Except Fault (List α × List Located)) :
    Except Fault (List α × List Located) :=
  found.map fun found => (front ++ found.1, found.2)

theorem resumed_nil (found : Except Fault (List α × List Located)) : resumed [] found = found := by
  cases found <;> rfl

theorem byOffset_resumed_ok (front : List α) :
    byOffset tokens (resumed front (.ok ([], rest))) = .ok (front, offsetOf tokens rest) :=
  congrArg (fun result => Except.ok (result, offsetOf tokens rest)) (List.append_nil front)

theorem resumed_append (front values : List α) (found : Except Fault (List α × List Located)) :
    resumed (front ++ values) found =
      resumed front (found >>= fun found => return (values ++ found.1, found.2)) := by
  rcases found with fault | found
  · rfl
  · exact congrArg (fun result => Except.ok (result, found.2)) (List.append_assoc front values found.1)

end

/-- Items are read by offsets as from lists, if fewer than some tokens are left. -/
def ReadsBelow (stop : Place) (tokens : List Located) (item : Nat → Except (Halt Fault) (Value × Nat))
    (bound : Nat) : Prop :=
  ∀ rest, rest <:+ tokens → rest.length < bound →
    item (offsetOf tokens rest) = byOffset tokens (itemAt stop rest)

/-- Fewer than some tokens are left, which do not start with what is skipped. -/
def WithinBelow (tokens : List Located) (p : Located → Bool) (bound offset : Nat) : Prop :=
  ∃ rest, rest <:+ tokens ∧ rest.length < bound ∧ (∀ head ∈ rest.head?, p head = false) ∧
    offset = offsetOf tokens rest

variable {item : Nat → Except (Halt Fault) (Value × Nat)} {bound : Nat}

theorem keeps_moreTurn (hitem : ReadsBelow stop tokens item bound) {state : List Value × Nat}
    (hstate : WithinBelow tokens (fun _ => false) bound state.2) :
    Text.Keeps (fun state => byOffset tokens (resumed state.1 (moreAt stop (tokens.drop state.2))))
      (fun state => tokens.length - state.2)
      (fun state => WithinBelow tokens (fun _ => false) bound state.2) state
      (moreTurn (marks tokens stop) item state) := by
  obtain ⟨items, offset⟩ := state
  obtain ⟨rest, h, hlength, _, hoffset⟩ := hstate
  dsimp only at hoffset
  subst hoffset
  rw [moreTurn, current_eq h]
  simp only [bind, Except.bind]
  rcases rest with _ | ⟨⟨token, line, column⟩, rest⟩
  · simp only [Text.Keeps, drop_offsetOf h, moreAt_eq []]
    exact byOffset_resumed_ok items
  have hrest := suffix_of_cons h
  rw [List.length_cons] at hlength
  cases token with
  | comma =>
      have hskip := dropWhile_suffix isLineEnd hrest
      have hle := length_skip_le isLineEnd rest
      simp only [markBefore, Mark.kind, Token.kind, if_true, offsetOf_cons h,
        skip_eq names_isLineEnd hrest, hitem _ hskip (by omega)]
      rcases hfound : itemAt stop (rest.dropWhile isLineEnd) with fault | ⟨value, behind⟩
      · simp only [Text.Keeps, drop_offsetOf h, moreAt_eq (_ :: _), hfound]
        rfl
      · have hbehind := (suffix_of_itemAt hfound).trans hskip
        have hlt := length_lt_of_plain hfound
        refine ⟨⟨behind, hbehind, by omega, fun _ _ => rfl, rfl⟩, ?_, ?_⟩
        · simp only [length_sub_offsetOf h, length_sub_offsetOf hbehind, List.length_cons]
          omega
        · simp only [drop_offsetOf h, drop_offsetOf hbehind, moreAt_eq (_ :: _), hfound,
            resumed_append]
          rfl
  | _ =>
      simp only [Text.Keeps, drop_offsetOf h, moreAt_eq (_ :: _)]
      exact byOffset_resumed_ok items

theorem items_eq (hitem : ReadsBelow stop tokens item bound) (h : rest <:+ tokens)
    (hlength : rest.length < bound) :
    items (marks tokens stop) item (offsetOf tokens rest) = byOffset tokens (itemsAt stop rest) := by
  rw [items, itemsAt_eq]
  refine bind_eq_byOffset (hitem rest h hlength) fun value behind hfound => ?_
  have hbehind := (suffix_of_itemAt hfound).trans h
  have hlt := length_lt_of_plain hfound
  refine bind_eq_byOffset ?_ fun _ _ _ => rfl
  rw [Text.loop_eq (fun _ => keeps_moreTurn hitem)
    ⟨behind, hbehind, by omega, fun _ _ => rfl, rfl⟩ (by rw [length_marks]; dsimp only; omega),
    resumed_nil, drop_offsetOf hbehind]

/-! ## Tables -/

theorem kind_mem_endsEntry_iff {found : Option Token} :
    Token.kind found ∈ ["newline", ";", "\x7d"] ↔ endsEntry found = true := by
  rcases found with _ | token
  · decide
  · cases token <;> simp [Token.kind, endsEntry]

theorem entriesAt_dropWhile (table : Table) (rest : List Located) :
    entriesAt stop table (rest.dropWhile isSeparator) = entriesAt stop table rest := by
  rw [entriesAt_eq, entriesAt_eq table rest, List.dropWhile_idempotent]

/-- The entries from an offset on. -/
def entriesFrom (stop : Place) (tokens : List Located) :
    Table × Nat → Except (Halt Fault) (Table × Nat)
  | (table, offset) => byOffset tokens (entriesAt stop table (tokens.drop offset))

theorem afterKey_of_ne (key : String) (table : Table) (h : next? rest ≠ some .equals) :
    afterKey stop key table rest =
      .error (faultAt stop (.expected (some .equals) (next? rest)) rest) := by
  rcases rest with _ | ⟨⟨token, line, column⟩, rest⟩
  · rfl
  · cases token <;> first | rfl | exact absurd rfl h

theorem keeps_keyedTurn (hitem : ReadsBelow stop tokens item bound) (h : rest <:+ tokens)
    (hlength : rest.length < bound) {key : String} {table : Table} {state : Table × Nat}
    (hresult : entriesFrom stop tokens state = byOffset tokens (afterKey stop key table rest))
    (hsize : rest.length < tokens.length - state.2) :
    Text.Keeps (entriesFrom stop tokens) (fun state => tokens.length - state.2)
      (fun state => WithinBelow tokens isSeparator bound state.2) state
      (keyedTurn (marks tokens stop) item key table (offsetOf tokens rest)) := by
  rw [keyedTurn]
  by_cases hequals : next? rest = some .equals
  · obtain ⟨line, column, rest, rfl⟩ := exists_of_next? hequals
    have hskip := dropWhile_suffix isLineEnd (suffix_of_cons h)
    have hle := length_skip_le isLineEnd rest
    rw [List.length_cons] at hlength hsize
    simp only [bind, Except.bind, expect_cons h rfl, skip_eq names_isLineEnd (suffix_of_cons h),
      items_eq hitem hskip (by omega)]
    rw [afterKey_eq] at hresult
    rcases hfound : itemsAt stop (rest.dropWhile isLineEnd) with fault | ⟨⟨value, more⟩, behind⟩
    · rw [hfound] at hresult
      exact hresult
    have hbehind := (suffix_of_itemsAt hfound).trans hskip
    have hlt := length_lt_of_plain hfound
    rw [hfound] at hresult
    simp only [bind, Except.bind, afterEntry] at hresult
    simp only [byOffset, current_eq hbehind, Mark.kind, token_markBefore, kind_mem_endsEntry_iff,
      fault_markBefore]
    by_cases hends : endsEntry (next? behind) = true
    · have hseparated := dropWhile_suffix isSeparator hbehind
      have hle' := length_skip_le isSeparator behind
      rw [if_pos hends] at hresult ⊢
      simp only [skip_eq names_isSeparator hbehind]
      refine ⟨⟨_, hseparated, by omega, fun _ => head?_dropWhile_eq_false, rfl⟩, ?_, ?_⟩
      · simp only [length_sub_offsetOf hseparated]
        omega
      · rw [hresult, entriesFrom, drop_offsetOf hseparated, entriesAt_dropWhile]
    · rw [if_neg hends] at hresult ⊢
      exact hresult
  · rw [expect_of_ne h fun hkind => hequals ((kind_eq_iff (.inl rfl)).1 hkind)]
    rw [afterKey_of_ne key table hequals] at hresult
    exact hresult

theorem keeps_tableTurn (hitem : ReadsBelow stop tokens item bound) {state : Table × Nat}
    (hstate : WithinBelow tokens isSeparator bound state.2) :
    Text.Keeps (entriesFrom stop tokens) (fun state => tokens.length - state.2)
      (fun state => WithinBelow tokens isSeparator bound state.2) state
      (tableTurn (marks tokens stop) item state) := by
  obtain ⟨table, offset⟩ := state
  obtain ⟨rest, h, hlength, hhead, hoffset⟩ := hstate
  dsimp only at hoffset
  subst hoffset
  rw [tableTurn, current_eq h]
  simp only [bind, Except.bind, fault_markBefore, token_markBefore]
  rcases rest with _ | ⟨first, rest⟩
  · simp only [Text.Keeps, entriesFrom, drop_offsetOf h, entriesAt_eq table []]
    rfl
  have hentries : entriesFrom stop tokens (table, offsetOf tokens (first :: rest)) =
      byOffset tokens (entriesAt stop table (first :: rest)) := by
    rw [entriesFrom, drop_offsetOf h]
  rw [entriesAt_eq, List.dropWhile_cons_of_neg (by rw [hhead first rfl]; exact Bool.false_ne_true)] at hentries
  obtain ⟨token, line, column⟩ := first
  have hrest := suffix_of_cons h
  have hnext : next? (⟨token, line, column⟩ :: rest) = some token := rfl
  rw [List.length_cons] at hlength
  simp only [Mark.kind, token_markBefore, hnext, Option.bind_some]
  by_cases hclose : token = .closeTable
  · subst hclose
    rw [if_pos (kind_eq_closeTable_iff.2 rfl), expect_cons h rfl]
    exact hentries
  rw [if_neg fun hkind => hclose (Option.some.inj (kind_eq_closeTable_iff.1 hkind))]
  cases hkey : key? token with
  | some key =>
      rw [offsetOf_cons h]
      refine keeps_keyedTurn hitem hrest (by omega) ?_ ?_
      · simp only [hentries, hkey]
      · simp only [length_sub_offsetOf h, List.length_cons]
        exact Nat.lt_succ_self _
  | none =>
      simp only [hkey] at hentries
      cases token <;> first | exact absurd rfl hclose | exact hentries

theorem tableBody_eq (hitem : ReadsBelow stop tokens item bound) (h : rest <:+ tokens)
    (hlength : rest.length < bound) :
    tableBody (marks tokens stop) item (offsetOf tokens rest) =
      byOffset tokens (entriesAt stop [] rest) := by
  have hskip := dropWhile_suffix isSeparator h
  have hle := length_skip_le isSeparator rest
  rw [tableBody, skip_eq names_isSeparator h]
  refine (Text.loop_eq (fun _ => keeps_tableTurn hitem)
    ⟨_, hskip, by omega, fun _ => head?_dropWhile_eq_false, rfl⟩
    (by rw [length_marks]; dsimp only; omega)).trans ?_
  rw [entriesFrom, drop_offsetOf hskip, entriesAt_dropWhile]

/-! ## Arrays -/

theorem kind_mem_endsElement_iff {found : Option Token} :
    Token.kind found ∈ ["newline", ";", ",", ")"] ↔ endsElement found = true := by
  rcases found with _ | token
  · decide
  · cases token <;> simp [Token.kind, endsElement]

theorem elementsAt_of_ne (h : next? rest ≠ some .closeArray) :
    elementsAt stop rest = elementAt stop rest := by
  rw [elementsAt_eq]
  rcases rest with _ | ⟨⟨token, line, column⟩, rest⟩
  · rfl
  · cases token <;> first | rfl | exact absurd rfl h

/-- The elements from an offset on, behind those before it. -/
def elementsFrom (stop : Place) (tokens : List Located) :
    List Value × Nat → Except (Halt Fault) (List Value × Nat)
  | (values, offset) => byOffset tokens (resumed values (elementsAt stop (tokens.drop offset)))

theorem keeps_arrayTurn (hitem : ReadsBelow stop tokens item bound) {state : List Value × Nat}
    (hstate : WithinBelow tokens (fun _ => false) bound state.2) :
    Text.Keeps (elementsFrom stop tokens) (fun state => tokens.length - state.2)
      (fun state => WithinBelow tokens (fun _ => false) bound state.2) state
      (arrayTurn (marks tokens stop) item state) := by
  obtain ⟨values, offset⟩ := state
  obtain ⟨rest, h, hlength, _, hoffset⟩ := hstate
  dsimp only at hoffset
  subst hoffset
  have helements : elementsFrom stop tokens (values, offsetOf tokens rest) =
      byOffset tokens (resumed values (elementsAt stop rest)) := by
    rw [elementsFrom, drop_offsetOf h]
  rw [arrayTurn, current_eq h]
  simp only [bind, Except.bind, Mark.kind, token_markBefore]
  by_cases hclose : next? rest = some .closeArray
  · obtain ⟨line, column, rest, rfl⟩ := exists_of_next? hclose
    rw [hclose, if_pos (kind_eq_closeArray_iff.2 rfl), expect_cons h rfl]
    rw [elementsAt_eq] at helements
    exact helements.trans (byOffset_resumed_ok values)
  rw [if_neg fun hkind => hclose (kind_eq_closeArray_iff.1 hkind), items_eq hitem h hlength]
  rw [elementsAt_of_ne hclose, elementAt] at helements
  rcases hfound : itemsAt stop rest with fault | ⟨⟨first, more⟩, behind⟩
  · rw [hfound] at helements
    exact helements
  have hbehind := (suffix_of_itemsAt hfound).trans h
  have hlt := length_lt_of_plain hfound
  rw [hfound] at helements
  simp only [bind, Except.bind, afterElement] at helements
  simp only [byOffset, current_eq hbehind, token_markBefore, kind_mem_endsElement_iff, fault_markBefore]
  by_cases hends : endsElement (next? behind) = true
  · have hseparated := dropWhile_suffix isArraySeparator hbehind
    have hle := length_skip_le isArraySeparator behind
    rw [if_pos hends] at helements ⊢
    simp only [skip_eq names_isArraySeparator hbehind]
    refine ⟨⟨_, hseparated, by omega, fun _ _ => rfl, rfl⟩, ?_, ?_⟩
    · simp only [length_sub_offsetOf hseparated, length_sub_offsetOf h]
      omega
    · rw [helements, elementsFrom, drop_offsetOf hseparated, resumed_append]
      rfl
  · rw [if_neg hends] at helements ⊢
    exact helements

theorem arrayBody_eq (hitem : ReadsBelow stop tokens item bound) (h : rest <:+ tokens)
    (hlength : rest.length < bound) :
    arrayBody (marks tokens stop) item (offsetOf tokens rest) =
      byOffset tokens (elementsAt stop (rest.dropWhile isSeparator)) := by
  have hskip := dropWhile_suffix isSeparator h
  have hle := length_skip_le isSeparator rest
  rw [arrayBody, skip_eq names_isSeparator h]
  refine (Text.loop_eq (fun _ => keeps_arrayTurn hitem)
    ⟨_, hskip, by omega, fun _ _ => rfl, rfl⟩ (by rw [length_marks]; dsimp only; omega)).trans ?_
  rw [elementsFrom, drop_offsetOf hskip, resumed_nil]

/-! ## Items and documents -/

/-- The induction is on the depth, which is greater than the number of tokens that are left. -/
theorem readsBelow_item (stop : Place) (tokens : List Located) (depth : Nat) :
    ReadsBelow stop tokens (ByOffset.item (marks tokens stop) depth) depth := by
  induction depth with
  | zero => exact fun rest _ hlength => absurd hlength (Nat.not_lt_zero _)
  | succ depth ih =>
      intro rest h hlength
      rw [ByOffset.item, current_eq h, itemAt_eq]
      rcases rest with _ | ⟨⟨token, line, column⟩, rest⟩
      · rfl
      have hrest := suffix_of_cons h
      have hlt : rest.length < depth := Nat.lt_of_succ_lt_succ hlength
      cases token with
      | string content => exact congrArg (fun offset => Except.ok (_, offset)) (offsetOf_cons h)
      | constant value => exact congrArg (fun offset => Except.ok (_, offset)) (offsetOf_cons h)
      | openTable =>
          simp only [markBefore, bind, Except.bind, expect_cons h rfl]
          exact bind_eq_byOffset (tableBody_eq ih hrest hlt) fun _ _ _ => rfl
      | openArray =>
          simp only [markBefore, bind, Except.bind, expect_cons h rfl]
          exact bind_eq_byOffset (arrayBody_eq ih hrest hlt) fun _ _ _ => rfl
      | _ => rfl

theorem kind_eq_end_iff {found : Option Token} : Token.kind found = "eof" ↔ found = none := by
  rcases found with _ | token
  · decide
  · cases token <;> simp [Token.kind]

theorem document_eq (tokens : List Located) (stop : Place) :
    document (marks tokens stop) = (document? stop tokens).mapError .fault := by
  have hzero : (0 : Nat) = offsetOf tokens tokens := (Nat.sub_self _).symm
  have h := List.suffix_refl tokens
  have hskip := dropWhile_suffix isSeparator h
  rw [document, hzero, skip_eq names_isSeparator h, document?_eq]
  simp only [bind, Except.bind]
  by_cases hopen : next? (tokens.dropWhile isSeparator) = some .openTable
  · obtain ⟨line, column, rest, hrest⟩ := exists_of_next? hopen
    rw [hrest] at hskip ⊢
    have hbehind := suffix_of_cons hskip
    have hlength := hbehind.length_le
    rw [expect_cons hskip rfl]
    simp only [tableBody_eq (readsBelow_item stop tokens (marks tokens stop).length) hbehind
      (by rw [length_marks]; omega)]
    rcases hfound : entriesAt stop [] rest with fault | ⟨table, behind⟩
    · rfl
    have hbehind' := (suffix_of_entriesAt hfound).trans hbehind
    have hend := dropWhile_suffix isSeparator hbehind'
    simp only [byOffset, skip_eq names_isSeparator hbehind', current_eq hend, Mark.kind,
      token_markBefore, kind_eq_end_iff, fault_markBefore]
    cases behind.dropWhile isSeparator <;> rfl
  · rw [expect_of_ne hskip fun hkind => hopen ((kind_eq_iff (.inr rfl)).1 hkind)]
    rcases hrest : tokens.dropWhile isSeparator with _ | ⟨⟨token, line, column⟩, rest⟩
    · rfl
    · rw [hrest] at hopen
      cases token <;> first | rfl | exact absurd rfl hopen

/-- Reading by offsets comes to the table of the text or to its fault. -/
theorem read_eq (text : List Char) :
    ByOffset.read text = (DataFile.read text).mapError .fault := by
  rw [ByOffset.read, DataFile.read, tokens_eq]
  rcases DataFile.tokens text with fault | ⟨tokens, stop⟩
  · rfl
  · exact document_eq tokens stop

/-! ## Nothing goes wrong -/

theorem ok_or_fault_of_mapError {ε α : Type} {halting : Except (Halt ε) α} {found : Except ε α}
    (h : halting = found.mapError .fault) :
    (∃ result, halting = .ok result ∧ found = .ok result) ∨
      ∃ fault, halting = .error (.fault fault) ∧ found = .error fault := by
  rcases found with fault | result
  · exact .inr ⟨fault, h, rfl⟩
  · exact .inl ⟨result, h, rfl⟩

theorem exists_marks_eq (tokens : List Located) (stop : Place) :
    ∃ front last, marks tokens stop = front ++ [last] ∧ last.token = none ∧
      ∀ mark ∈ front, mark.token ≠ none := by
  refine ⟨_, _, rfl, rfl, fun mark hmark => ?_⟩
  obtain ⟨token, _, rfl⟩ := List.mem_map.1 hmark
  exact Option.some_ne_none token.token

/-- Every text makes a table or has a fault, the ones that the readers of lists find.  The lexer moves on
with every turn and stays within the text, the mark of the end is the last one and the only one, and from
no list of marks the readers go beyond it: they too come to a table or to a fault. -/
theorem read_comes_to_table_or_fault (text : List Char) :
    ((∃ table, ByOffset.read text = .ok table ∧ DataFile.read text = .ok table) ∨
      ∃ fault, ByOffset.read text = .error (.fault fault) ∧ DataFile.read text = .error fault) ∧
    (∀ tokens place tokens' next, turn text (tokens, place) = .ok (.inl (tokens', next)) →
      place.offset < next.offset ∧ next.offset ≤ text.length) ∧
    ∀ tokens stop,
      (∃ front last, marks tokens stop = front ++ [last] ∧ last.token = none ∧
        ∀ mark ∈ front, mark.token ≠ none) ∧
      ((∃ table, document (marks tokens stop) = .ok table) ∨
        ∃ fault, document (marks tokens stop) = .error (.fault fault)) := by
  refine ⟨ok_or_fault_of_mapError (read_eq text), fun _ _ _ _ => turn_forward, fun tokens stop =>
    ⟨exists_marks_eq tokens stop, ?_⟩⟩
  rcases ok_or_fault_of_mapError (document_eq tokens stop) with ⟨table, htable, _⟩ |
    ⟨fault, hfault, _⟩
  · exact .inl ⟨table, htable⟩
  · exact .inr ⟨fault, hfault⟩

end DscAudit.DataFile.ByOffset

import DscAudit.DataFile.Document
import Mathlib.Tactic

/-!
# Single steps of the readers of data files

The readers return what they read together with the tokens behind it and a bound on their number.
Here each reader is turned into a relation between tokens, a result and the tokens behind, and one
equivalence for each relation says all that a single step of its reader can do.  Without the bound the
readers obey simple equations, which hold whether they succeed or fail.  Nothing behind this module
opens a reader.
-/

namespace DscAudit.DataFile

variable {stop : Place}

def ReadsItem (stop : Place) (tokens : List Located) (value : Value) (rest : List Located) : Prop :=
  ∃ found, item? stop tokens = .ok found ∧ found.result = value ∧ found.rest = rest

/-- The items behind commas are read, none if no comma comes first. -/
def ReadsMore (stop : Place) (tokens : List Located) (values : List Value) (rest : List Located) :
    Prop :=
  ∃ found, moreItems? stop tokens = .ok found ∧ found.1 = (values, rest)

def ReadsItems (stop : Place) (tokens : List Located) (first : Value) (more : List Value)
    (rest : List Located) : Prop :=
  ∃ found, items? stop tokens = .ok found ∧ found.result = (first, more) ∧ found.rest = rest

/-- The entries up to the closing bracket are read, behind those in `before`. -/
def ReadsEntries (stop : Place) (before : Table) (tokens : List Located) (table : Table)
    (rest : List Located) : Prop :=
  ∃ found, entries? stop before tokens = .ok found ∧ found.result = table ∧ found.rest = rest

def ReadsElements (stop : Place) (tokens : List Located) (values : List Value)
    (rest : List Located) : Prop :=
  ∃ found, elements? stop tokens = .ok found ∧ found.result = values ∧ found.rest = rest

/-- Behind the value of an entry comes a separator or the closing bracket. -/
def EndsEntry (rest : List Located) : Prop :=
  next? rest = some .newLine ∨ next? rest = some .semicolon ∨ next? rest = some .closeTable

/-- Behind the value of an element comes a separator, a comma or the closing bracket. -/
def EndsElement (rest : List Located) : Prop :=
  next? rest = some .newLine ∨ next? rest = some .semicolon ∨ next? rest = some .comma ∨
    next? rest = some .closeArray

/-! ## Reading moves on -/

theorem ReadsItem.length_lt {tokens rest : List Located} {value : Value}
    (h : ReadsItem stop tokens value rest) : rest.length < tokens.length := by
  obtain ⟨found, _, _, rfl⟩ := h
  exact found.shorter

theorem ReadsMore.length_le {tokens rest : List Located} {values : List Value}
    (h : ReadsMore stop tokens values rest) : rest.length ≤ tokens.length := by
  obtain ⟨found, _, hfound⟩ := h
  have hle := found.2
  rw [hfound] at hle
  exact hle

theorem ReadsItems.length_lt {tokens rest : List Located} {first : Value} {more : List Value}
    (h : ReadsItems stop tokens first more rest) : rest.length < tokens.length := by
  obtain ⟨found, _, _, rfl⟩ := h
  exact found.shorter

/-! ## Steps -/

theorem readsItem_iff {tokens rest : List Located} {value : Value} :
    ReadsItem stop tokens value rest ↔
      ∃ token behind, tokens = token :: behind ∧
        ((∃ content, token.token = .string content ∧ value = .text content ∧ rest = behind) ∨
          (token.token = .constant value ∧ rest = behind) ∨
          (∃ table, token.token = .openTable ∧ ReadsEntries stop [] behind table rest ∧
            value = .table table) ∨
          (∃ values, token.token = .openArray ∧
            ReadsElements stop (behind.dropWhile isSeparator) values rest ∧
            value = .list values)) := by
  constructor
  · rintro ⟨found, hfound, rfl, rfl⟩
    rw [item?.eq_def] at hfound
    split at hfound
    · cases hfound
      exact ⟨_, _, rfl, .inl ⟨_, rfl, rfl, rfl⟩⟩
    · cases hfound
      exact ⟨_, _, rfl, .inr (.inl ⟨rfl, rfl⟩)⟩
    · next behind =>
      cases hbody : entries? stop [] behind with
      | error fault =>
          rw [hbody] at hfound
          cases hfound
      | ok body =>
          rw [hbody] at hfound
          cases hfound
          exact ⟨_, _, rfl, .inr (.inr (.inl ⟨_, rfl, ⟨body, hbody, rfl, rfl⟩, rfl⟩))⟩
    · next behind =>
      cases hbody : elements? stop (behind.dropWhile isSeparator) with
      | error fault =>
          rw [hbody] at hfound
          cases hfound
      | ok body =>
          rw [hbody] at hfound
          cases hfound
          exact ⟨_, _, rfl, .inr (.inr (.inr ⟨_, rfl, ⟨body, hbody, rfl, rfl⟩, rfl⟩))⟩
    · cases hfound
  · rintro ⟨⟨token, line, column⟩, behind, rfl, hitem⟩
    rcases hitem with ⟨content, rfl, rfl, rfl⟩ | ⟨rfl, rfl⟩ |
      ⟨table, rfl, ⟨body, hbody, rfl, rfl⟩, rfl⟩ | ⟨values, rfl, ⟨body, hbody, rfl, rfl⟩, rfl⟩
    · exact ⟨_, by rw [item?], rfl, rfl⟩
    · exact ⟨_, by rw [item?], rfl, rfl⟩
    · refine ⟨⟨.table body.result, body.rest, Nat.lt_succ_of_lt body.shorter⟩, ?_, rfl, rfl⟩
      rw [item?, hbody]
      rfl
    · refine ⟨⟨.list body.result, body.rest, Nat.lt_succ_of_lt
        (Nat.lt_of_lt_of_le body.shorter (length_skip_le isSeparator behind))⟩, ?_, rfl, rfl⟩
      rw [item?, hbody]
      rfl

theorem readsMore_iff {tokens rest : List Located} {values : List Value} :
    ReadsMore stop tokens values rest ↔
      (next? tokens ≠ some .comma ∧ values = [] ∧ rest = tokens) ∨
        ∃ comma behind value afterItem more, tokens = comma :: behind ∧ comma.token = .comma ∧
          ReadsItem stop (behind.dropWhile isLineEnd) value afterItem ∧
          ReadsMore stop afterItem more rest ∧ values = value :: more := by
  constructor
  · rintro ⟨found, hfound, hpair⟩
    rw [moreItems?.eq_def] at hfound
    split at hfound
    · next line column behind =>
      right
      cases hitem : item? stop (behind.dropWhile isLineEnd) with
      | error fault =>
          rw [hitem] at hfound
          cases hfound
      | ok item =>
          rw [hitem] at hfound
          simp only [bind, Except.bind] at hfound
          cases hmore : moreItems? stop item.rest with
          | error fault =>
              rw [hmore] at hfound
              cases hfound
          | ok more =>
              rw [hmore] at hfound
              cases hfound
              cases hpair
              exact ⟨_, behind, _, _, _, rfl, rfl, ⟨item, hitem, rfl, rfl⟩, ⟨more, hmore, rfl⟩,
                rfl⟩
    · next hcomma =>
      cases hfound
      cases hpair
      refine .inl ⟨?_, rfl, rfl⟩
      intro hnext
      cases tokens with
      | nil => cases hnext
      | cons token behind =>
          obtain ⟨_, line, column⟩ := token
          cases hnext
          exact hcomma line column behind rfl
  · rintro (⟨hnext, rfl, rfl⟩ | ⟨⟨_, line, column⟩, behind, value, afterItem, more, rfl, rfl,
      ⟨item, hitem, rfl, rfl⟩, ⟨found, hmore, hpair⟩, rfl⟩)
    · refine ⟨⟨([], rest), Nat.le_refl _⟩, ?_, rfl⟩
      rw [moreItems?.eq_def]
      split
      · simp [next?] at hnext
      · rfl
    · obtain ⟨⟨_, _⟩, hle⟩ := found
      cases hpair
      rw [ReadsMore, moreItems?, hitem]
      simp only [bind, Except.bind]
      rw [hmore]
      exact ⟨_, rfl, rfl⟩

theorem readsItems_iff {tokens rest : List Located} {first : Value} {more : List Value} :
    ReadsItems stop tokens first more rest ↔
      ∃ afterItem, ReadsItem stop tokens first afterItem ∧ ReadsMore stop afterItem more rest := by
  constructor
  · rintro ⟨found, hfound, hresult, rfl⟩
    rw [items?] at hfound
    cases hitem : item? stop tokens with
    | error fault =>
        rw [hitem] at hfound
        cases hfound
    | ok item =>
        rw [hitem] at hfound
        simp only [bind, Except.bind] at hfound
        cases hmore : moreItems? stop item.rest with
        | error fault =>
            rw [hmore] at hfound
            cases hfound
        | ok found =>
            rw [hmore] at hfound
            cases hfound
            cases hresult
            exact ⟨_, ⟨item, hitem, rfl, rfl⟩, ⟨found, hmore, rfl⟩⟩
  · rintro ⟨afterItem, ⟨item, hitem, rfl, rfl⟩, ⟨found, hmore, hpair⟩⟩
    obtain ⟨⟨_, _⟩, hle⟩ := found
    cases hpair
    rw [ReadsItems, items?, hitem]
    simp only [bind, Except.bind]
    rw [hmore]
    exact ⟨_, rfl, rfl, rfl⟩

theorem readsEntries_iff {before table : Table} {tokens rest : List Located} :
    ReadsEntries stop before tokens table rest ↔
      (∃ close, tokens.dropWhile isSeparator = close :: rest ∧ close.token = .closeTable ∧
        table = before) ∨
        ∃ token equals afterEquals key first more afterValue,
          tokens.dropWhile isSeparator = token :: equals :: afterEquals ∧
          key? token.token = some key ∧ equals.token = .equals ∧
          ReadsItems stop (afterEquals.dropWhile isLineEnd) first more afterValue ∧
          EndsEntry afterValue ∧
          ReadsEntries stop (before.insert key (valueOf first more)) afterValue table rest := by
  constructor
  · rintro ⟨found, hfound, rfl, rfl⟩
    rw [entries?] at hfound
    split at hfound
    · cases hfound
    · next htokens =>
      cases hfound
      exact .inl ⟨_, htokens, rfl, rfl⟩
    · next token rest _ htokens =>
      right
      split at hfound
      · cases hfound
      · next key hkey =>
        split at hfound
        · next line column afterEquals _ _ =>
          cases hvalue : items? stop (afterEquals.dropWhile isLineEnd) with
          | error fault =>
              rw [hvalue] at hfound
              cases hfound
          | ok value =>
              rw [hvalue] at hfound
              simp only [bind, Except.bind] at hfound
              cases hbody : entries? stop
                  (before.insert key (valueOf value.result.1 value.result.2)) value.rest with
              | error fault =>
                  rw [hbody] at hfound
                  split at hfound <;> cases hfound
              | ok body =>
                  rw [hbody] at hfound
                  refine ⟨token, _, afterEquals, key, _, _, value.rest, htokens, hkey, rfl,
                    ⟨value, hvalue, rfl, rfl⟩, ?_⟩
                  split at hfound
                  · next hend =>
                    cases hfound
                    exact ⟨.inl hend, body, hbody, rfl, rfl⟩
                  · next hend =>
                    cases hfound
                    exact ⟨.inr (.inl hend), body, hbody, rfl, rfl⟩
                  · next hend =>
                    cases hfound
                    exact ⟨.inr (.inr hend), body, hbody, rfl, rfl⟩
                  · cases hfound
        · cases hfound
  · rintro (⟨⟨_, line, column⟩, htokens, rfl, rfl⟩ | ⟨token, ⟨_, line, column⟩, afterEquals, key,
      first, more, afterValue, htokens, hkey, rfl, ⟨value, hvalue, hresult, rfl⟩, hend,
      ⟨body, hbody, rfl, rfl⟩⟩)
    · rw [ReadsEntries, entries?]
      split
      · simp_all
      · simp_all
      · simp_all
    · rw [ReadsEntries, entries?]
      split
      · simp_all
      · next hclose =>
        rw [htokens] at hclose
        cases hclose
        cases hkey
      · next token' rest _ hfirst =>
        rw [htokens] at hfirst
        cases hfirst
        rw [hkey]
        simp only
        rw [hvalue]
        simp only [bind, Except.bind, hresult]
        rcases hend with hend | hend | hend <;>
          rw [hend, hbody] <;> exact ⟨_, rfl, rfl, rfl⟩

theorem readsElements_iff {tokens rest : List Located} {values : List Value} :
    ReadsElements stop tokens values rest ↔
      (∃ close, tokens = close :: rest ∧ close.token = .closeArray ∧ values = []) ∨
        ∃ first more afterValue others, next? tokens ≠ some .closeArray ∧
          ReadsItems stop tokens first more afterValue ∧ EndsElement afterValue ∧
          ReadsElements stop (afterValue.dropWhile isArraySeparator) others rest ∧
          values = first :: more ++ others := by
  constructor
  · rintro ⟨found, hfound, rfl, rfl⟩
    rw [elements?.eq_def] at hfound
    split at hfound
    · cases hfound
      exact .inl ⟨_, rfl, rfl, rfl⟩
    · next hopen =>
      have hnext : next? tokens ≠ some .closeArray := by
        intro hnext
        cases tokens with
        | nil => cases hnext
        | cons token behind =>
            obtain ⟨_, line, column⟩ := token
            cases hnext
            exact hopen line column behind rfl
      right
      cases hvalue : items? stop tokens with
      | error fault =>
          rw [hvalue] at hfound
          cases hfound
      | ok value =>
          rw [hvalue] at hfound
          simp only [bind, Except.bind] at hfound
          cases hbody : elements? stop (value.rest.dropWhile isArraySeparator) with
          | error fault =>
              rw [hbody] at hfound
              split at hfound <;> cases hfound
          | ok body =>
              rw [hbody] at hfound
              refine ⟨_, _, value.rest, body.result, hnext, ⟨value, hvalue, rfl, rfl⟩, ?_⟩
              split at hfound
              · next hend =>
                cases hfound
                exact ⟨.inl hend, ⟨body, hbody, rfl, rfl⟩, rfl⟩
              · next hend =>
                cases hfound
                exact ⟨.inr (.inl hend), ⟨body, hbody, rfl, rfl⟩, rfl⟩
              · next hend =>
                cases hfound
                exact ⟨.inr (.inr (.inl hend)), ⟨body, hbody, rfl, rfl⟩, rfl⟩
              · next hend =>
                cases hfound
                exact ⟨.inr (.inr (.inr hend)), ⟨body, hbody, rfl, rfl⟩, rfl⟩
              · cases hfound
  · rintro (⟨⟨_, line, column⟩, rfl, rfl, rfl⟩ | ⟨first, more, afterValue, others, hopen,
      ⟨value, hvalue, hresult, rfl⟩, hend, ⟨body, hbody, rfl, rfl⟩, rfl⟩)
    · rw [ReadsElements, elements?]
      exact ⟨_, rfl, rfl, rfl⟩
    · rw [ReadsElements, elements?.eq_def]
      split
      · simp [next?] at hopen
      · rw [hvalue]
        simp only [bind, Except.bind, hresult]
        rcases hend with hend | hend | hend | hend <;>
          rw [hend, hbody] <;> exact ⟨_, rfl, rfl, rfl⟩

theorem document?_eq_ok_iff {tokens : List Located} {table : Table} :
    document? stop tokens = .ok table ↔
      ∃ opening behind rest, tokens.dropWhile isSeparator = opening :: behind ∧
        opening.token = .openTable ∧ ReadsEntries stop [] behind table rest ∧
        rest.dropWhile isSeparator = [] := by
  constructor
  · intro h
    rw [document?] at h
    split at h
    · next line column behind htokens =>
      cases hbody : entries? stop [] behind with
      | error fault =>
          rw [hbody] at h
          cases h
      | ok body =>
          rw [hbody] at h
          simp only [bind, Except.bind] at h
          split at h
          · next hrest =>
            cases h
            exact ⟨_, behind, body.rest, htokens, rfl, ⟨body, hbody, rfl, rfl⟩, hrest⟩
          · cases h
    · cases h
  · rintro ⟨⟨_, line, column⟩, behind, rest, htokens, rfl, ⟨body, hbody, rfl, rfl⟩, hrest⟩
    rw [document?, htokens]
    simp only [hbody, bind, Except.bind]
    rw [hrest]
    rfl

/-! ## Equations -/

variable {table : Table} {tokens : List Located}

section

variable {α β : Type}

/-- A result without the evidence that fewer tokens are left. -/
def plain (found : Except Fault (Parsed α tokens)) : Except Fault (α × List Located) :=
  found.map fun found => (found.result, found.rest)

/-- Further results without the evidence that no more tokens are left. -/
def plainMore
    (found : Except Fault { found : α × List Located // found.2.length ≤ tokens.length }) :
    Except Fault (α × List Located) :=
  found.map (·.1)

theorem plain_eq_ok_iff {found : Except Fault (Parsed α tokens)} {result : α}
    {rest : List Located} :
    plain found = .ok (result, rest) ↔
      ∃ parsed, found = .ok parsed ∧ parsed.result = result ∧ parsed.rest = rest := by
  cases found with
  | error fault => simp [plain, Except.map]
  | ok parsed => simp [plain, Except.map]

theorem length_lt_of_plain {found : Except Fault (Parsed α tokens)} {result : α}
    {rest : List Located} (h : plain found = .ok (result, rest)) : rest.length < tokens.length := by
  obtain ⟨parsed, _, _, rfl⟩ := plain_eq_ok_iff.1 h
  exact parsed.shorter

end

theorem head?_dropWhile_eq_false {p : Located → Bool} {first : Located}
    (h : first ∈ (tokens.dropWhile p).head?) : p first = false := by
  have hnot := List.head?_dropWhile_not p tokens
  rw [h] at hnot
  exact hnot

theorem eq_false_of_dropWhile_eq_cons {p : Located → Bool} {first : Located}
    {rest : List Located} (h : tokens.dropWhile p = first :: rest) : p first = false :=
  head?_dropWhile_eq_false (h ▸ rfl : first ∈ (tokens.dropWhile p).head?)

def itemAt (stop : Place) (tokens : List Located) : Except Fault (Value × List Located) :=
  plain (item? stop tokens)

def moreAt (stop : Place) (tokens : List Located) : Except Fault (List Value × List Located) :=
  plainMore (moreItems? stop tokens)

def itemsAt (stop : Place) (tokens : List Located) :
    Except Fault ((Value × List Value) × List Located) :=
  plain (items? stop tokens)

def entriesAt (stop : Place) (table : Table) (tokens : List Located) :
    Except Fault (Table × List Located) :=
  plain (entries? stop table tokens)

def elementsAt (stop : Place) (tokens : List Located) :
    Except Fault (List Value × List Located) :=
  plain (elements? stop tokens)

/-- May this token stand behind the value of an entry? -/
def endsEntry : Option Token → Bool
  | some .newLine | some .semicolon | some .closeTable => true
  | _ => false

/-- May this token stand behind the value of an element? -/
def endsElement : Option Token → Bool
  | some .newLine | some .semicolon | some .comma | some .closeArray => true
  | _ => false

theorem itemAt_eq (tokens : List Located) : itemAt stop tokens =
    match tokens with
    | [] => .error (faultAt stop (.unsupportedValue none) [])
    | first :: rest =>
      match first.token with
      | .string content => .ok (.text content, rest)
      | .constant value => .ok (value, rest)
      | .openTable => do
        let body ← entriesAt stop [] rest
        return (.table body.1, body.2)
      | .openArray => do
        let body ← elementsAt stop (rest.dropWhile isSeparator)
        return (.list body.1, body.2)
      | token => .error (faultAt stop (.unsupportedValue (some token)) (first :: rest)) := by
  rw [itemAt, item?.eq_def]
  split
  · rfl
  · rfl
  · next rest =>
    dsimp only
    rw [entriesAt]
    cases entries? stop [] rest <;> rfl
  · next rest =>
    dsimp only
    rw [elementsAt]
    cases elements? stop (rest.dropWhile isSeparator) <;> rfl
  · next hstring hconstant htable harray =>
    cases tokens with
    | nil => rfl
    | cons first rest =>
        obtain ⟨token, line, column⟩ := first
        cases token with
        | string content => exact absurd rfl (hstring content line column rest)
        | constant value => exact absurd rfl (hconstant value line column rest)
        | openTable => exact absurd rfl (htable line column rest)
        | openArray => exact absurd rfl (harray line column rest)
        | _ => rfl

theorem moreAt_eq (tokens : List Located) : moreAt stop tokens =
    match tokens with
    | [] => .ok ([], [])
    | first :: rest =>
      match first.token with
      | .comma => do
        let item ← itemAt stop (rest.dropWhile isLineEnd)
        let more ← moreAt stop item.2
        return (item.1 :: more.1, more.2)
      | _ => .ok ([], first :: rest) := by
  rw [moreAt, moreItems?.eq_def]
  split
  · next rest =>
    dsimp only
    rw [itemAt]
    cases item? stop (rest.dropWhile isLineEnd) with
    | error fault => rfl
    | ok item =>
        change plainMore (moreItems? stop item.rest >>= _) = (moreAt stop item.rest >>= _)
        rw [moreAt]
        cases moreItems? stop item.rest <;> rfl
  · next hcomma =>
    cases tokens with
    | nil => rfl
    | cons first rest =>
        obtain ⟨token, line, column⟩ := first
        cases token with
        | comma => exact absurd rfl (hcomma line column rest)
        | _ => rfl

theorem itemsAt_eq (tokens : List Located) : itemsAt stop tokens = do
    let item ← itemAt stop tokens
    let more ← moreAt stop item.2
    return ((item.1, more.1), more.2) := by
  rw [itemsAt, items?, itemAt]
  cases item? stop tokens with
  | error fault => rfl
  | ok item =>
      change plain (moreItems? stop item.rest >>= _) = (moreAt stop item.rest >>= _)
      rw [moreAt]
      cases moreItems? stop item.rest <;> rfl

/-- What is read behind the value of an entry. -/
def afterEntry (stop : Place) (key : String) (table : Table) (rest : List Located) :
    Except Fault (Table × List Located) :=
  if endsEntry (next? rest) then entriesAt stop table rest
  else .error (faultAt stop (.noSeparatorAfter key) rest)

/-- What is read behind the key of an entry. -/
def afterKey (stop : Place) (key : String) (table : Table) (rest : List Located) :
    Except Fault (Table × List Located) :=
  match rest with
  | [] => .error (faultAt stop (.expected (some .equals) none) [])
  | first :: behind =>
    match first.token with
    | .equals => do
      let value ← itemsAt stop (behind.dropWhile isLineEnd)
      afterEntry stop key (table.insert key (valueOf value.1.1 value.1.2)) value.2
    | token => .error (faultAt stop (.expected (some .equals) (some token)) (first :: behind))

theorem afterKey_eq (key : String) (table : Table) (line : Nat) (column : Int)
    (behind : List Located) :
    afterKey stop key table (⟨.equals, line, column⟩ :: behind) =
      itemsAt stop (behind.dropWhile isLineEnd) >>= fun value =>
        afterEntry stop key (table.insert key (valueOf value.1.1 value.1.2)) value.2 :=
  rfl

theorem entriesAt_eq (table : Table) (tokens : List Located) : entriesAt stop table tokens =
    match tokens.dropWhile isSeparator with
    | [] => .error (faultAt stop (.noKey none) [])
    | first :: rest =>
      match key? first.token with
      | some key => afterKey stop key table rest
      | none =>
        match first.token with
        | .closeTable => .ok (table, rest)
        | token => .error (faultAt stop (.noKey (some token)) (first :: rest)) := by
  rw [entriesAt, entries?]
  split
  · next htokens =>
    simp only [htokens]
    rfl
  · next htokens =>
    simp only [htokens]
    rfl
  · next first rest hclose htokens =>
    simp only [htokens]
    split
    · next hkey =>
      obtain ⟨token, line, column⟩ := first
      simp only [hkey]
      cases token with
      | closeTable => exact absurd rfl (hclose line column)
      | _ => rfl
    · next key hkey =>
      simp only [hkey]
      split
      · next line column behind _ _ =>
        rw [afterKey_eq, itemsAt]
        cases items? stop (behind.dropWhile isLineEnd) with
        | error fault => rfl
        | ok value =>
            simp only [bind, Except.bind, plain, Except.map, afterEntry, entriesAt]
            cases hnext : next? value.rest with
            | none => rfl
            | some token =>
                cases token <;> first | rfl | (cases entries? stop _ value.rest <;> rfl)
      · next hequals =>
        cases rest with
        | nil => rfl
        | cons first behind =>
            obtain ⟨token, line, column⟩ := first
            cases token with
            | equals => exact (hequals line column behind htokens rfl HEq.rfl).elim
            | _ => rfl

/-- What is read behind the value of an element. -/
def afterElement (stop : Place) (values : List Value) (rest : List Located) :
    Except Fault (List Value × List Located) :=
  if endsElement (next? rest) then do
    let body ← elementsAt stop (rest.dropWhile isArraySeparator)
    return (values ++ body.1, body.2)
  else throw (faultAt stop .noSeparatorInArray rest)

/-- What is read at an element. -/
def elementAt (stop : Place) (tokens : List Located) :
    Except Fault (List Value × List Located) := do
  let value ← itemsAt stop tokens
  afterElement stop (value.1.1 :: value.1.2) value.2

theorem elementsAt_eq (tokens : List Located) : elementsAt stop tokens =
    match tokens with
    | [] => elementAt stop []
    | first :: rest =>
      match first.token with
      | .closeArray => .ok ([], rest)
      | _ => elementAt stop (first :: rest) := by
  rw [elementsAt, elements?.eq_def]
  split
  · rfl
  · next hclose =>
    refine Eq.trans (b := elementAt stop tokens) ?_ ?_
    · rw [elementAt, itemsAt]
      cases items? stop tokens with
      | error fault => rfl
      | ok value =>
          simp only [bind, Except.bind, plain, Except.map, afterElement, elementsAt]
          cases hnext : next? value.rest with
          | none => rfl
          | some token =>
              cases token <;> first | rfl |
                (cases elements? stop (value.rest.dropWhile isArraySeparator) <;> rfl)
    · cases tokens with
      | nil => rfl
      | cons first rest =>
          obtain ⟨token, line, column⟩ := first
          cases token with
          | closeArray => exact absurd rfl (hclose line column rest)
          | _ => rfl

theorem document?_eq (tokens : List Located) : document? stop tokens =
    match tokens.dropWhile isSeparator with
    | [] => .error (faultAt stop (.expected (some .openTable) none) [])
    | first :: rest =>
      match first.token with
      | .openTable => do
        let body ← entriesAt stop [] rest
        match body.2.dropWhile isSeparator with
        | [] => return body.1
        | rest => throw (faultAt stop .contentAfterTable rest)
      | token =>
        .error (faultAt stop (.expected (some .openTable) (some token)) (first :: rest)) := by
  rw [document?]
  split
  · next rest htokens =>
    simp only [htokens]
    rw [entriesAt]
    cases entries? stop [] rest <;> rfl
  · next hopen =>
    cases htokens : tokens.dropWhile isSeparator with
    | nil => rfl
    | cons first rest =>
      obtain ⟨token, line, column⟩ := first
      cases token with
      | openTable => exact absurd htokens (hopen line column rest)
      | _ => rfl

end DscAudit.DataFile

import DscAudit.Proofs.DataFile.Reading
import DscAudit.Proofs.DataFile.Unambiguity

/-!
# Reading is deriving

The reader of documents succeeds on a list of tokens exactly if the list derives from the grammar,
and its result is the table that the derivation denotes.  Completeness follows the tree of the
derivation.  Soundness is an induction on the number of tokens, in which each reader hands the trees
that its parts gave to one constructor of the grammar.
-/

namespace DscAudit.DataFile

open Grammar

variable {stop : Place}

/-- The located tokens start with the given ones, and `rest` stands behind these. -/
def Consumes : List Token → List Located → List Located → Prop
  | [], tokens, rest => tokens = rest
  | token :: derived, tokens, rest =>
    ∃ first behind, tokens = first :: behind ∧ first.token = token ∧ Consumes derived behind rest

theorem consumes_append {first second : List Token} {tokens rest : List Located} :
    Consumes (first ++ second) tokens rest ↔
      ∃ middle, Consumes first tokens middle ∧ Consumes second middle rest := by
  induction first generalizing tokens with
  | nil => simp [Consumes]
  | cons token first ih =>
      simp only [List.cons_append, Consumes, ih]
      constructor
      · rintro ⟨head, behind, htokens, hhead, middle, hfirst, hsecond⟩
        exact ⟨middle, ⟨head, behind, htokens, hhead, hfirst⟩, hsecond⟩
      · rintro ⟨middle, ⟨head, behind, htokens, hhead, hfirst⟩, hsecond⟩
        exact ⟨head, behind, htokens, hhead, middle, hfirst, hsecond⟩

theorem Consumes.next? {token : Token} {derived : List Token} {tokens rest : List Located}
    (h : Consumes (token :: derived) tokens rest) : next? tokens = some token := by
  obtain ⟨first, behind, rfl, rfl, _⟩ := h
  rfl

theorem consumes_nil_right {derived : List Token} {tokens : List Located} :
    Consumes derived tokens [] ↔ tokens.map Located.token = derived := by
  induction derived generalizing tokens with
  | nil => simp [Consumes]
  | cons token derived ih =>
      simp only [Consumes, ih, List.map_eq_cons_iff]

/-! ## Separators -/

theorem Consumes.dropWhile {p : Located → Bool} {derived : List Token}
    {tokens rest : List Located} (h : Consumes derived tokens rest)
    (hp : ∀ located : Located, located.token ∈ derived → p located = true) :
    tokens.dropWhile p = rest.dropWhile p := by
  induction derived generalizing tokens with
  | nil =>
      cases h
      rfl
  | cons token derived ih =>
      obtain ⟨first, behind, rfl, hfirst, hrest⟩ := h
      rw [List.dropWhile_cons_of_pos (hp first (by simp [hfirst]))]
      exact ih hrest fun located hmem => hp located (List.mem_cons_of_mem _ hmem)

theorem isSeparator_iff {located : Located} :
    isSeparator located = true ↔ ∃ separator : Separator, located.token = separator.token := by
  obtain ⟨token, line, column⟩ := located
  constructor
  · intro h
    cases token <;> try cases h
    · exact ⟨.newLine, rfl⟩
    · exact ⟨.semicolon, rfl⟩
  · rintro ⟨separator, rfl⟩
    cases separator <;> rfl

theorem isArraySeparator_iff {located : Located} :
    isArraySeparator located = true ↔
      ∃ separator : ArraySeparator, located.token = separator.token := by
  obtain ⟨token, line, column⟩ := located
  constructor
  · intro h
    cases token <;> try cases h
    · exact ⟨.plain .newLine, rfl⟩
    · exact ⟨.comma, rfl⟩
    · exact ⟨.plain .semicolon, rfl⟩
  · rintro ⟨separator, rfl⟩
    cases separator with
    | plain separator => cases separator <;> rfl
    | comma => rfl

theorem isLineEnd_iff {located : Located} :
    isLineEnd located = true ↔ located.token = .newLine := by
  obtain ⟨token, line, column⟩ := located
  cases token <;> simp [isLineEnd]

theorem Consumes.dropWhile_isSeparator {separators : List Separator} {tokens rest : List Located}
    (h : Consumes (separatorTokens separators) tokens rest) :
    tokens.dropWhile isSeparator = rest.dropWhile isSeparator := by
  refine h.dropWhile fun located hmem => isSeparator_iff.2 ?_
  obtain ⟨separator, _, hseparator⟩ := List.mem_map.1 hmem
  exact ⟨separator, hseparator.symm⟩

theorem Consumes.dropWhile_isLineEnd {newLines : Nat} {tokens rest : List Located}
    (h : Consumes (lineEndTokens newLines) tokens rest) :
    tokens.dropWhile isLineEnd = rest.dropWhile isLineEnd :=
  h.dropWhile fun _ hmem => isLineEnd_iff.2 (List.eq_of_mem_replicate hmem)

theorem Consumes.dropWhile_isArraySeparator {separator : Separator}
    {separators : List ArraySeparator} {tokens rest : List Located}
    (h : Consumes (arraySeparatorTokens separator separators) tokens rest) :
    tokens.dropWhile isArraySeparator = rest.dropWhile isArraySeparator := by
  refine h.dropWhile fun located hmem => isArraySeparator_iff.2 ?_
  rcases List.mem_cons.1 hmem with hfirst | hmem
  · exact ⟨.plain separator, hfirst⟩
  · obtain ⟨other, _, hother⟩ := List.mem_map.1 hmem
    exact ⟨other, hother.symm⟩

theorem exists_consumes_dropWhile {α : Type} {p : Located → Bool} {toToken : α → Token}
    (hp : ∀ located, p located = true → ∃ a, located.token = toToken a) (tokens : List Located) :
    ∃ listed : List α, Consumes (listed.map toToken) tokens (tokens.dropWhile p) := by
  induction tokens with
  | nil => exact ⟨[], rfl⟩
  | cons token tokens ih =>
      by_cases hfirst : p token = true
      · obtain ⟨a, ha⟩ := hp token hfirst
        obtain ⟨listed, hrest⟩ := ih
        refine ⟨a :: listed, token, tokens, rfl, ha, ?_⟩
        rw [List.dropWhile_cons_of_pos hfirst]
        exact hrest
      · refine ⟨[], ?_⟩
        rw [List.dropWhile_cons_of_neg hfirst]
        rfl

theorem exists_consumes_separators (tokens : List Located) :
    ∃ separators, Consumes (separatorTokens separators) tokens (tokens.dropWhile isSeparator) :=
  exists_consumes_dropWhile (fun _ h => isSeparator_iff.1 h) tokens

theorem exists_consumes_lineEnds (tokens : List Located) :
    ∃ newLines, Consumes (lineEndTokens newLines) tokens (tokens.dropWhile isLineEnd) := by
  obtain ⟨listed, h⟩ := @exists_consumes_dropWhile Unit isLineEnd (fun _ => .newLine)
    (fun _ h => ⟨(), isLineEnd_iff.1 h⟩) tokens
  rw [List.map_const'] at h
  exact ⟨listed.length, h⟩

/-! ## First tokens -/

def StartsItem (tokens : List Located) : Prop :=
  ∃ first behind, tokens = first :: behind ∧ opensItem first.token = true

theorem Consumes.startsItem {items : Items} {tokens rest : List Located}
    (h : Consumes items.tokens tokens rest) : StartsItem tokens := by
  obtain ⟨token, derived, htokens, htoken⟩ := exists_itemsTokens_eq_cons items
  rw [htokens] at h
  obtain ⟨first, behind, rfl, rfl, _⟩ := h
  exact ⟨first, behind, rfl, htoken⟩

theorem dropWhile_of_startsItem {p : Located → Bool} {tokens : List Located}
    (hp : ∀ located : Located, opensItem located.token = true → p located = false)
    (h : StartsItem tokens) :
    tokens.dropWhile p = tokens := by
  obtain ⟨first, behind, rfl, hfirst⟩ := h
  exact List.dropWhile_cons_of_neg (by simp [hp first hfirst])

theorem isLineEnd_of_opensItem {located : Located} (h : opensItem located.token = true) :
    isLineEnd located = false := by
  obtain ⟨token, line, column⟩ := located
  cases token <;> first | rfl | cases h

theorem isArraySeparator_of_opensItem {located : Located} (h : opensItem located.token = true) :
    isArraySeparator located = false := by
  obtain ⟨token, line, column⟩ := located
  cases token <;> first | rfl | cases h

theorem isSeparator_of_opensItem {located : Located} (h : opensItem located.token = true) :
    isSeparator located = false := by
  obtain ⟨token, line, column⟩ := located
  cases token <;> first | rfl | cases h

theorem isSeparator_of_key {located : Located} {key : Key} (h : located.token = key.token) :
    isSeparator located = false := by
  obtain ⟨token, line, column⟩ := located
  cases h
  cases key <;> rfl

theorem key?_eq_some_iff {token : Token} {text : String} :
    key? token = some text ↔ ∃ key : Key, key.token = token ∧ key.text = text := by
  constructor
  · intro h
    cases token with
    | string content =>
        cases h
        exact ⟨.string text, rfl, rfl⟩
    | word name =>
        cases h
        exact ⟨.word text, rfl, rfl⟩
    | constant value =>
        have something : value ≠ .null := by
          rintro rfl
          cases h
        refine ⟨.constant value something, rfl, ?_⟩
        cases value <;> cases h <;> rfl
    | _ => cases h
  · rintro ⟨key, rfl, rfl⟩
    cases key with
    | word name => rfl
    | string content => rfl
    | constant value something => cases value <;> first | rfl | contradiction

/-! ## Values of items -/

theorem itemsValues_ne_nil (items : Items) : items.values ≠ [] := by
  cases items <;> rw [Items.values] <;> exact List.cons_ne_nil _ _

theorem valueOf_of_itemsValues {items : Items} {first : Value} {more : List Value}
    (h : items.values = first :: more) : valueOf first more = items.value := by
  cases items with
  | one item =>
      rw [Items.values] at h
      cases h
      rw [Items.value]
      rfl
  | more item newLines items =>
      rw [Items.values] at h
      cases h
      rw [Items.value]
      unfold valueOf
      split
      · next hnil => exact absurd hnil (itemsValues_ne_nil items)
      · rfl

/-- A table with further entries, one after the other. -/
def insertAll (table : Table) (entries : List (String × Value)) : Table :=
  entries.foldl (fun table entry => table.insert entry.1 entry.2) table

/-! ## Completeness -/

theorem endsEntry_of_separators {separators : List Separator} {tokens rest : List Located}
    (h : Consumes (separatorTokens separators ++ [.closeTable]) tokens rest) :
    EndsEntry tokens := by
  cases separators with
  | nil => exact .inr (.inr h.next?)
  | cons separator separators =>
      cases separator with
      | newLine => exact .inl h.next?
      | semicolon => exact .inr (.inl h.next?)

theorem endsEntry_of_separator {separator : Separator} {derived : List Token}
    {tokens rest : List Located} (h : Consumes (separator.token :: derived) tokens rest) :
    EndsEntry tokens := by
  cases separator with
  | newLine => exact .inl h.next?
  | semicolon => exact .inr (.inl h.next?)

theorem EndsEntry.next?_ne_comma {tokens : List Located} (h : EndsEntry tokens) :
    next? tokens ≠ some .comma := by
  rcases h with h | h | h <;> rw [h] <;> exact nofun

theorem readsEntries_close {before : Table} {separators : List Separator}
    {tokens rest : List Located}
    (h : Consumes (separatorTokens separators ++ [.closeTable]) tokens rest) :
    ReadsEntries stop before tokens before rest := by
  obtain ⟨inside, hseparators, close, behind, rfl, hclose, rfl⟩ := consumes_append.1 h
  have hdrop := hseparators.dropWhile_isSeparator
  rw [List.dropWhile_cons_of_neg (by simp [isSeparator, hclose])] at hdrop
  exact readsEntries_iff.2 (.inl ⟨close, hdrop, hclose, rfl⟩)

theorem readsEntries_entry {before table : Table} {separators : List Separator} {key : Key}
    {newLines : Nat} {first : Value} {more : List Value}
    {tokens inside afterLines afterValue rest : List Located}
    (hseparators : Consumes (separatorTokens separators) tokens inside)
    (hentry : Consumes (key.token :: .equals :: lineEndTokens newLines) inside afterLines)
    (hopens : StartsItem afterLines)
    (hvalue : ReadsItems stop afterLines first more afterValue) (hend : EndsEntry afterValue)
    (hrest : ReadsEntries stop (before.insert key.text (valueOf first more)) afterValue table
      rest) :
    ReadsEntries stop before tokens table rest := by
  obtain ⟨token, _, rfl, hkey, equals, afterEquals, rfl, hequals, hlines⟩ := hentry
  have hdrop := hseparators.dropWhile_isSeparator
  rw [List.dropWhile_cons_of_neg (by simp [isSeparator_of_key hkey])] at hdrop
  have hskip : afterEquals.dropWhile isLineEnd = afterLines :=
    hlines.dropWhile_isLineEnd.trans
      (dropWhile_of_startsItem (fun _ => isLineEnd_of_opensItem) hopens)
  exact readsEntries_iff.2 (.inr ⟨token, equals, afterEquals, key.text, first, more, afterValue,
    hdrop, key?_eq_some_iff.2 ⟨key, hkey.symm, rfl⟩, hequals, hskip ▸ hvalue, hend, hrest⟩)

theorem endsElement_of_trailing {trailing : Option (Separator × List ArraySeparator)}
    {tokens rest : List Located}
    (h : Consumes (trailingTokens trailing ++ [.closeArray]) tokens rest) :
    EndsElement tokens ∧ next? tokens ≠ some .comma ∧
      ∃ close, tokens.dropWhile isArraySeparator = close :: rest ∧
        close.token = .closeArray := by
  obtain ⟨inside, htrailing, close, behind, rfl, hclose, rfl⟩ := consumes_append.1 h
  have hkeep : (close :: behind).dropWhile isArraySeparator = close :: behind :=
    List.dropWhile_cons_of_neg (by simp [isArraySeparator, hclose])
  match trailing, htrailing with
  | none, htrailing =>
      cases htrailing
      have hnext : next? (close :: behind) = some .closeArray := congrArg some hclose
      refine ⟨.inr (.inr (.inr hnext)), ?_, close, hkeep, hclose⟩
      rw [hnext]
      exact nofun
  | some (separator, separators), htrailing =>
      have hdrop := (htrailing.dropWhile_isArraySeparator).trans hkeep
      cases separator with
      | newLine =>
          refine ⟨.inl htrailing.next?, ?_, close, hdrop, hclose⟩
          rw [htrailing.next?]
          exact nofun
      | semicolon =>
          refine ⟨.inr (.inl htrailing.next?), ?_, close, hdrop, hclose⟩
          rw [htrailing.next?]
          exact nofun

theorem endsElement_of_separator {separator : Separator} {separators : List ArraySeparator}
    {tokens rest : List Located}
    (h : Consumes (arraySeparatorTokens separator separators) tokens rest) :
    EndsElement tokens ∧ next? tokens ≠ some .comma := by
  have hnext := Consumes.next? h
  cases separator with
  | newLine => exact ⟨.inl hnext, by rw [hnext]; exact nofun⟩
  | semicolon => exact ⟨.inr (.inl hnext), by rw [hnext]; exact nofun⟩

theorem next?_ne_closeArray_of_startsItem {tokens : List Located}
    (h : StartsItem tokens) :
    next? tokens ≠ some .closeArray := by
  obtain ⟨first, behind, rfl, hfirst⟩ := h
  intro hnext
  have htoken : first.token = .closeArray := Option.some.inj hnext
  rw [htoken] at hfirst
  cases hfirst

theorem startsItem_of_elements {elements : ElementList} {tokens rest : List Located}
    (h : Consumes elements.tokens tokens rest) : StartsItem tokens := by
  obtain ⟨token, derived, htokens, htoken⟩ := exists_elementListTokens_eq_cons elements
  rw [htokens] at h
  obtain ⟨first, behind, rfl, rfl, _⟩ := h
  exact ⟨first, behind, rfl, htoken⟩

theorem dropWhile_isSeparator_of_array {body : ArrayBody} {tokens rest : List Located}
    (h : Consumes body.tokens tokens rest) : tokens.dropWhile isSeparator = tokens := by
  cases body with
  | empty =>
      rw [ArrayBody.tokens] at h
      obtain ⟨close, behind, rfl, hclose, _⟩ := h
      exact List.dropWhile_cons_of_neg (by simp [isSeparator, hclose])
  | elements elements =>
      rw [ArrayBody.tokens] at h
      exact dropWhile_of_startsItem (fun _ => isSeparator_of_opensItem) (startsItem_of_elements h)

mutual

theorem readsItem_of_consumes (item : Item) {tokens rest : List Located}
    (h : Consumes item.tokens tokens rest) : ReadsItem stop tokens item.value rest := by
  cases item with
  | text content =>
      obtain ⟨first, behind, rfl, hfirst, rfl⟩ := h
      exact readsItem_iff.2 ⟨first, _, rfl, .inl ⟨content, hfirst, by rw [Item.value], rfl⟩⟩
  | constant value =>
      obtain ⟨first, behind, rfl, hfirst, rfl⟩ := h
      rw [Item.value]
      exact readsItem_iff.2 ⟨first, _, rfl, .inr (.inl ⟨hfirst, rfl⟩)⟩
  | table leading body =>
      rw [Item.tokens] at h
      obtain ⟨first, behind, rfl, hfirst, hbehind⟩ := h
      obtain ⟨inside, hleading, hbody⟩ := consumes_append.1 hbehind
      have hread := readsEntries_of_consumes body [] hleading hbody
      rw [Item.value]
      exact readsItem_iff.2 ⟨first, _, rfl, .inr (.inr (.inl ⟨_, hfirst, hread, rfl⟩))⟩
  | array leading body =>
      rw [Item.tokens] at h
      obtain ⟨first, behind, rfl, hfirst, hbehind⟩ := h
      obtain ⟨inside, hleading, hbody⟩ := consumes_append.1 hbehind
      have hread := readsElements_of_consumes body hbody
      have hdrop := hleading.dropWhile_isSeparator.trans (dropWhile_isSeparator_of_array hbody)
      rw [← hdrop] at hread
      rw [Item.value]
      exact readsItem_iff.2 ⟨first, _, rfl, .inr (.inr (.inr ⟨_, hfirst, hread, rfl⟩))⟩
termination_by structural item

theorem readsMore_of_consumes (items : Items) {newLines : Nat} {tokens rest : List Located}
    (h : Consumes (.comma :: (lineEndTokens newLines ++ items.tokens)) tokens rest)
    (hrest : next? rest ≠ some .comma) : ReadsMore stop tokens items.values rest := by
  obtain ⟨comma, behind, rfl, hcomma, hbehind⟩ := h
  obtain ⟨afterLines, hlines, hitems⟩ := consumes_append.1 hbehind
  have hdrop : behind.dropWhile isLineEnd = afterLines :=
    hlines.dropWhile_isLineEnd.trans
      (dropWhile_of_startsItem (fun _ => isLineEnd_of_opensItem) hitems.startsItem)
  cases items with
  | one item =>
      rw [Items.tokens] at hitems
      have hitem := readsItem_of_consumes item hitems
      have hmore : ReadsMore stop rest [] rest := readsMore_iff.2 (.inl ⟨hrest, rfl, rfl⟩)
      rw [Items.values]
      exact readsMore_iff.2 (.inr ⟨comma, behind, _, _, _, rfl, hcomma, hdrop ▸ hitem, hmore, rfl⟩)
  | more item newLines items =>
      rw [Items.tokens] at hitems
      obtain ⟨afterItem, hitem, hbehindItem⟩ := consumes_append.1 hitems
      have hitem := readsItem_of_consumes item hitem
      have hmore := readsMore_of_consumes items hbehindItem hrest
      rw [Items.values]
      exact readsMore_iff.2 (.inr ⟨comma, behind, _, _, _, rfl, hcomma, hdrop ▸ hitem, hmore, rfl⟩)
termination_by structural items

theorem readsItems_of_consumes (items : Items) {tokens rest : List Located}
    (h : Consumes items.tokens tokens rest) (hrest : next? rest ≠ some .comma) :
    ∃ first more, items.values = first :: more ∧ ReadsItems stop tokens first more rest := by
  cases items with
  | one item =>
      rw [Items.tokens] at h
      have hitem := readsItem_of_consumes item h
      have hmore : ReadsMore stop rest [] rest := readsMore_iff.2 (.inl ⟨hrest, rfl, rfl⟩)
      rw [Items.values]
      exact ⟨_, _, rfl, readsItems_iff.2 ⟨rest, hitem, hmore⟩⟩
  | more item newLines items =>
      rw [Items.tokens] at h
      obtain ⟨afterItem, hitem, hbehindItem⟩ := consumes_append.1 h
      have hitem := readsItem_of_consumes item hitem
      have hmore := readsMore_of_consumes items hbehindItem hrest
      rw [Items.values]
      exact ⟨_, _, rfl, readsItems_iff.2 ⟨afterItem, hitem, hmore⟩⟩
termination_by structural items

theorem readsEntries_of_consumes (body : TableBody) (before : Table)
    {separators : List Separator} {tokens inside rest : List Located}
    (hseparators : Consumes (separatorTokens separators) tokens inside)
    (h : Consumes body.tokens inside rest) :
    ReadsEntries stop before tokens (insertAll before body.entryValues) rest := by
  cases body with
  | empty =>
      rw [TableBody.tokens] at h
      rw [TableBody.entryValues]
      exact readsEntries_close (consumes_append.2 ⟨inside, hseparators, h⟩)
  | entries entries =>
      rw [TableBody.tokens] at h
      rw [TableBody.entryValues]
      exact readsEntries_of_consumes_list entries before hseparators h
termination_by structural body

theorem readsEntries_of_consumes_list (entries : EntryList) (before : Table)
    {separators : List Separator} {tokens inside rest : List Located}
    (hseparators : Consumes (separatorTokens separators) tokens inside)
    (h : Consumes entries.tokens inside rest) :
    ReadsEntries stop before tokens (insertAll before entries.entryValues) rest := by
  cases entries with
  | last key newLines value trailing =>
      rw [EntryList.tokens, ← List.cons_append, ← List.cons_append] at h
      obtain ⟨afterLines, hentry, hbehind⟩ := consumes_append.1 h
      obtain ⟨afterValue, hvalue, hclose⟩ := consumes_append.1 hbehind
      have hend := endsEntry_of_separators hclose
      obtain ⟨first, more, hvalues, hread⟩ :=
        readsItems_of_consumes value hvalue hend.next?_ne_comma
      rw [EntryList.entryValues, ← valueOf_of_itemsValues hvalues]
      exact readsEntries_entry hseparators hentry hvalue.startsItem hread hend
        (readsEntries_close hclose)
  | more key newLines value separator separators entries =>
      rw [EntryList.tokens, ← List.cons_append, ← List.cons_append] at h
      obtain ⟨afterLines, hentry, hbehind⟩ := consumes_append.1 h
      obtain ⟨afterValue, hvalue, hmore⟩ := consumes_append.1 hbehind
      have hend := endsEntry_of_separator hmore
      rw [← List.cons_append] at hmore
      obtain ⟨nextInside, hnext, hentries⟩ := consumes_append.1 hmore
      obtain ⟨first, more, hvalues, hread⟩ :=
        readsItems_of_consumes value hvalue hend.next?_ne_comma
      have hrest := @readsEntries_of_consumes_list entries
        (before.insert key.text (valueOf first more)) (separator :: separators) _ _ _
        hnext hentries
      rw [valueOf_of_itemsValues hvalues] at hrest
      rw [EntryList.entryValues]
      exact readsEntries_entry hseparators hentry hvalue.startsItem hread hend
        (valueOf_of_itemsValues hvalues ▸ hrest)
termination_by structural entries

theorem readsElements_of_consumes (body : ArrayBody) {tokens rest : List Located}
    (h : Consumes body.tokens tokens rest) : ReadsElements stop tokens body.values rest := by
  cases body with
  | empty =>
      rw [ArrayBody.tokens] at h
      obtain ⟨close, behind, rfl, hclose, rfl⟩ := h
      rw [ArrayBody.values]
      exact readsElements_iff.2 (.inl ⟨close, rfl, hclose, rfl⟩)
  | elements elements =>
      rw [ArrayBody.tokens] at h
      rw [ArrayBody.values]
      exact readsElements_of_consumes_list elements h
termination_by structural body

theorem readsElements_of_consumes_list (elements : ElementList) {tokens rest : List Located}
    (h : Consumes elements.tokens tokens rest) :
    ReadsElements stop tokens elements.values rest := by
  cases elements with
  | last value trailing =>
      rw [ElementList.tokens] at h
      obtain ⟨afterValue, hvalue, hclose⟩ := consumes_append.1 h
      obtain ⟨hend, hcomma, close, hdrop, htoken⟩ := endsElement_of_trailing hclose
      obtain ⟨first, more, hvalues, hread⟩ := readsItems_of_consumes value hvalue hcomma
      have hrest : ReadsElements stop (afterValue.dropWhile isArraySeparator) [] rest :=
        readsElements_iff.2 (.inl ⟨close, hdrop, htoken, rfl⟩)
      rw [ElementList.values, hvalues]
      exact readsElements_iff.2 (.inr ⟨first, more, afterValue, [],
        next?_ne_closeArray_of_startsItem hvalue.startsItem, hread, hend, hrest, by simp⟩)
  | more value separator separators elements =>
      rw [ElementList.tokens] at h
      obtain ⟨afterValue, hvalue, hmore⟩ := consumes_append.1 h
      obtain ⟨nextElement, hseparators, helements⟩ := consumes_append.1 hmore
      obtain ⟨hend, hcomma⟩ := endsElement_of_separator hseparators
      obtain ⟨first, more, hvalues, hread⟩ := readsItems_of_consumes value hvalue hcomma
      have hdrop : afterValue.dropWhile isArraySeparator = nextElement :=
        hseparators.dropWhile_isArraySeparator.trans (dropWhile_of_startsItem
          (fun _ => isArraySeparator_of_opensItem) (startsItem_of_elements helements))
      have hrest := readsElements_of_consumes_list elements helements
      rw [ElementList.values, hvalues]
      exact readsElements_iff.2 (.inr ⟨first, more, afterValue, _,
        next?_ne_closeArray_of_startsItem hvalue.startsItem, hread, hend, hdrop ▸ hrest, rfl⟩)
termination_by structural elements

end

/-! ## Soundness -/

theorem ReadsMore.next?_ne_comma {tokens rest : List Located} {values : List Value}
    (h : ReadsMore stop tokens values rest) : next? rest ≠ some .comma := by
  induction hlength : tokens.length using Nat.strong_induction_on generalizing tokens values with
  | h length ih =>
      rcases readsMore_iff.1 h with ⟨hnext, _, rfl⟩ |
        ⟨comma, behind, value, afterItem, more, rfl, _, hitem, hmore, _⟩
      · exact hnext
      · have hafter := hitem.length_lt
        have hdrop := length_skip_le isLineEnd behind
        simp only [List.length_cons] at hlength
        exact ih afterItem.length (by omega) hmore rfl

theorem ReadsItems.next?_ne_comma {tokens rest : List Located} {first : Value}
    {more : List Value} (h : ReadsItems stop tokens first more rest) :
    next? rest ≠ some .comma := by
  obtain ⟨_, _, hmore⟩ := readsItems_iff.1 h
  exact hmore.next?_ne_comma

/-- An entry before the body of a table.  It is the last one if the body is empty; else a separator
comes between them, since no key can end an entry. -/
theorem exists_entryList (key : Key) (newLines : Nat) (value : Items)
    {separators : List Separator} {body : TableBody} {tokens rest : List Located}
    (hend : EndsEntry tokens)
    (h : Consumes (separatorTokens separators ++ body.tokens) tokens rest) :
    ∃ entries : EntryList,
      entries.tokens = key.token :: .equals :: (lineEndTokens newLines ++
        (value.tokens ++ (separatorTokens separators ++ body.tokens))) ∧
      entries.entryValues = (key.text, value.value) :: body.entryValues := by
  cases body with
  | empty =>
      refine ⟨.last key newLines value separators, ?_, ?_⟩
      · rw [EntryList.tokens, TableBody.tokens]
      · rw [EntryList.entryValues, TableBody.entryValues]
  | entries entries =>
      rw [TableBody.tokens] at h
      cases separators with
      | nil =>
          obtain ⟨next, behind, htokens⟩ := exists_entryListTokens_eq_cons entries
          have hnext := Consumes.next? (htokens ▸ h)
          rcases hend with hend | hend | hend <;> rw [hnext] at hend <;>
            cases next <;> cases hend
      | cons separator separators =>
          refine ⟨.more key newLines value separator separators entries, ?_, ?_⟩
          · rw [EntryList.tokens, TableBody.tokens]
            rfl
          · rw [EntryList.entryValues, TableBody.entryValues]

/-- An element before the body of an array.  It is the last one if the body is empty; else a
separator comes between them, since no item can end an element. -/
theorem exists_elementList (value : Items) {separators : List ArraySeparator} {body : ArrayBody}
    {tokens behind rest : List Located} (hend : EndsElement tokens)
    (hcomma : next? tokens ≠ some .comma)
    (hseparators : Consumes (separators.map ArraySeparator.token) tokens behind)
    (hbody : Consumes body.tokens behind rest) :
    ∃ elements : ElementList,
      elements.tokens = value.tokens ++ (separators.map ArraySeparator.token ++ body.tokens) ∧
      elements.values = value.values ++ body.values := by
  cases separators with
  | nil =>
      cases hseparators
      cases body with
      | empty =>
          refine ⟨.last value none, ?_, ?_⟩
          · rw [ElementList.tokens, ArrayBody.tokens]
            rfl
          · rw [ElementList.values, ArrayBody.values, List.append_nil]
      | elements elements =>
          rw [ArrayBody.tokens] at hbody
          obtain ⟨first, behind, rfl, hfirst⟩ := startsItem_of_elements hbody
          rcases hend with hend | hend | hend | hend <;>
            rw [show first.token = _ from Option.some.inj hend] at hfirst <;> cases hfirst
  | cons separator separators =>
      cases separator with
      | comma => exact absurd hseparators.next? hcomma
      | plain separator =>
          cases body with
          | empty =>
              refine ⟨.last value (some (separator, separators)), ?_, ?_⟩
              · rw [ElementList.tokens, ArrayBody.tokens]
                rfl
              · rw [ElementList.values, ArrayBody.values, List.append_nil]
          | elements elements =>
              refine ⟨.more value separator separators elements, ?_, ?_⟩
              · rw [ElementList.tokens, ArrayBody.tokens]
                rfl
              · rw [ElementList.values, ArrayBody.values]

/-- What the readers read from fewer than `bound` tokens derives from the grammar. -/
structure SoundBelow (stop : Place) (bound : Nat) : Prop where
  item : ∀ {tokens value rest}, tokens.length < bound → ReadsItem stop tokens value rest →
    ∃ item : Item, Consumes item.tokens tokens rest ∧ item.value = value
  more : ∀ {tokens values rest}, tokens.length < bound → ReadsMore stop tokens values rest →
    (values = [] ∧ rest = tokens) ∨ ∃ newLines, ∃ items : Items,
      Consumes (.comma :: (lineEndTokens newLines ++ items.tokens)) tokens rest ∧
        items.values = values
  items : ∀ {tokens first more rest}, tokens.length < bound →
    ReadsItems stop tokens first more rest →
    ∃ items : Items, Consumes items.tokens tokens rest ∧ items.values = first :: more
  entries : ∀ {before tokens table rest}, tokens.length < bound →
    ReadsEntries stop before tokens table rest →
    ∃ separators, ∃ body : TableBody,
      Consumes (separatorTokens separators ++ body.tokens) tokens rest ∧
        insertAll before body.entryValues = table
  elements : ∀ {tokens values rest}, tokens.length < bound →
    ReadsElements stop tokens values rest →
    ∃ body : ArrayBody, Consumes body.tokens tokens rest ∧ body.values = values

namespace SoundBelow

variable {bound : Nat}

theorem item_le (sound : SoundBelow stop bound) {tokens rest : List Located} {value : Value}
    (hlength : tokens.length ≤ bound) (h : ReadsItem stop tokens value rest) :
    ∃ item : Item, Consumes item.tokens tokens rest ∧ item.value = value := by
  obtain ⟨token, behind, rfl, hcases⟩ := readsItem_iff.1 h
  have hbehind : behind.length < bound := hlength
  rcases hcases with ⟨content, htoken, rfl, rfl⟩ | ⟨htoken, rfl⟩ | ⟨table, htoken, hread, rfl⟩ |
    ⟨values, htoken, hread, rfl⟩
  · exact ⟨.text content, ⟨token, _, rfl, htoken, rfl⟩, by rw [Item.value]⟩
  · exact ⟨.constant value, ⟨token, _, rfl, htoken, rfl⟩, by rw [Item.value]⟩
  · obtain ⟨separators, body, hbody, hvalue⟩ := sound.entries hbehind hread
    refine ⟨.table separators body, ?_, ?_⟩
    · rw [Item.tokens]
      exact ⟨token, behind, rfl, htoken, hbody⟩
    · rw [Item.value, ← hvalue]
      rfl
  · obtain ⟨separators, hseparators⟩ := exists_consumes_separators behind
    have hdrop := length_skip_le isSeparator behind
    obtain ⟨body, hbody, hvalue⟩ := sound.elements (by omega) hread
    refine ⟨.array separators body, ?_, ?_⟩
    · rw [Item.tokens]
      exact ⟨token, behind, rfl, htoken, consumes_append.2 ⟨_, hseparators, hbody⟩⟩
    · rw [Item.value, hvalue]

theorem more_le (sound : SoundBelow stop bound) {tokens rest : List Located}
    {values : List Value} (hlength : tokens.length ≤ bound)
    (h : ReadsMore stop tokens values rest) :
    (values = [] ∧ rest = tokens) ∨ ∃ newLines, ∃ items : Items,
      Consumes (.comma :: (lineEndTokens newLines ++ items.tokens)) tokens rest ∧
        items.values = values := by
  rcases readsMore_iff.1 h with ⟨_, hvalues, hrest⟩ |
    ⟨comma, behind, value, afterItem, more, rfl, hcomma, hitem, hmore, rfl⟩
  · exact .inl ⟨hvalues, hrest⟩
  · right
    have hbehind : behind.length < bound := hlength
    have hdrop := length_skip_le isLineEnd behind
    have hafter := hitem.length_lt
    obtain ⟨newLines, hlines⟩ := exists_consumes_lineEnds behind
    obtain ⟨item, hconsumed, rfl⟩ := sound.item (by omega) hitem
    rcases sound.more (by omega) hmore with ⟨rfl, rfl⟩ | ⟨nextLines, items, hitems, rfl⟩
    · refine ⟨newLines, .one item, ⟨comma, behind, rfl, hcomma, ?_⟩, by rw [Items.values]⟩
      rw [Items.tokens]
      exact consumes_append.2 ⟨_, hlines, hconsumed⟩
    · refine ⟨newLines, .more item nextLines items, ⟨comma, behind, rfl, hcomma, ?_⟩,
        by rw [Items.values]⟩
      rw [Items.tokens]
      exact consumes_append.2 ⟨_, hlines, consumes_append.2 ⟨_, hconsumed, hitems⟩⟩

theorem items_le (sound : SoundBelow stop bound) {tokens rest : List Located} {first : Value}
    {more : List Value} (hlength : tokens.length ≤ bound)
    (h : ReadsItems stop tokens first more rest) :
    ∃ items : Items, Consumes items.tokens tokens rest ∧ items.values = first :: more := by
  obtain ⟨afterItem, hitem, hmore⟩ := readsItems_iff.1 h
  have hafter := hitem.length_lt
  obtain ⟨item, hconsumed, rfl⟩ := sound.item_le hlength hitem
  rcases sound.more (by omega) hmore with ⟨rfl, rfl⟩ | ⟨newLines, items, hitems, rfl⟩
  · refine ⟨.one item, ?_, by rw [Items.values]⟩
    rw [Items.tokens]
    exact hconsumed
  · refine ⟨.more item newLines items, ?_, by rw [Items.values]⟩
    rw [Items.tokens]
    exact consumes_append.2 ⟨_, hconsumed, hitems⟩

theorem entries_le (sound : SoundBelow stop bound) {before table : Table}
    {tokens rest : List Located} (hlength : tokens.length ≤ bound)
    (h : ReadsEntries stop before tokens table rest) :
    ∃ separators, ∃ body : TableBody,
      Consumes (separatorTokens separators ++ body.tokens) tokens rest ∧
        insertAll before body.entryValues = table := by
  obtain ⟨separators, hseparators⟩ := exists_consumes_separators tokens
  have hdrop := length_skip_le isSeparator tokens
  rcases readsEntries_iff.1 h with ⟨close, htokens, hclose, rfl⟩ |
    ⟨token, equals, afterEquals, text, first, more, afterValue, htokens, hkey, hequals, hvalue,
      hend, hrest⟩
  · refine ⟨separators, .empty, consumes_append.2 ⟨_, hseparators, ?_⟩, ?_⟩
    · rw [TableBody.tokens, htokens]
      exact ⟨close, rest, rfl, hclose, rfl⟩
    · rw [TableBody.entryValues]
      rfl
  · rw [htokens] at hseparators hdrop
    simp only [List.length_cons] at hdrop
    have hskip := length_skip_le isLineEnd afterEquals
    have hafter := hvalue.length_lt
    obtain ⟨key, htoken, rfl⟩ := key?_eq_some_iff.1 hkey
    obtain ⟨newLines, hlines⟩ := exists_consumes_lineEnds afterEquals
    obtain ⟨value, hconsumed, hvalues⟩ := sound.items (by omega) hvalue
    obtain ⟨trailing, body, hbody, rfl⟩ := sound.entries (by omega) hrest
    obtain ⟨entries, hlist, hentries⟩ := exists_entryList key newLines value hend hbody
    refine ⟨separators, .entries entries, consumes_append.2 ⟨_, hseparators, ?_⟩, ?_⟩
    · rw [TableBody.tokens, hlist]
      exact ⟨token, _, rfl, htoken.symm, equals, afterEquals, rfl, hequals,
        consumes_append.2 ⟨_, hlines, consumes_append.2 ⟨_, hconsumed, hbody⟩⟩⟩
    · rw [TableBody.entryValues, hentries, valueOf_of_itemsValues hvalues]
      rfl

theorem elements_le (sound : SoundBelow stop bound) {tokens rest : List Located}
    {values : List Value} (hlength : tokens.length ≤ bound)
    (h : ReadsElements stop tokens values rest) :
    ∃ body : ArrayBody, Consumes body.tokens tokens rest ∧ body.values = values := by
  rcases readsElements_iff.1 h with ⟨close, rfl, hclose, rfl⟩ |
    ⟨first, more, afterValue, others, _, hvalue, hend, hrest, rfl⟩
  · refine ⟨.empty, ?_, by rw [ArrayBody.values]⟩
    rw [ArrayBody.tokens]
    exact ⟨close, rest, rfl, hclose, rfl⟩
  · have hafter := hvalue.length_lt
    have hdrop := length_skip_le isArraySeparator afterValue
    obtain ⟨separators, hseparators⟩ :=
      exists_consumes_dropWhile (fun _ h => isArraySeparator_iff.1 h) afterValue
    obtain ⟨value, hconsumed, hvalues⟩ := sound.items_le hlength hvalue
    obtain ⟨body, hbody, rfl⟩ := sound.elements (by omega) hrest
    obtain ⟨elements, htokens, helements⟩ :=
      exists_elementList value hend hvalue.next?_ne_comma hseparators hbody
    refine ⟨.elements elements, ?_, ?_⟩
    · rw [ArrayBody.tokens, htokens]
      exact consumes_append.2 ⟨_, hconsumed, consumes_append.2 ⟨_, hseparators, hbody⟩⟩
    · rw [ArrayBody.values, helements, hvalues]

end SoundBelow

theorem soundBelow (stop : Place) (bound : Nat) : SoundBelow stop bound := by
  induction bound with
  | zero =>
      constructor <;> intros <;> contradiction
  | succ bound sound =>
      exact {
        item := fun hlength => sound.item_le (Nat.le_of_lt_succ hlength)
        more := fun hlength => sound.more_le (Nat.le_of_lt_succ hlength)
        items := fun hlength => sound.items_le (Nat.le_of_lt_succ hlength)
        entries := fun hlength => sound.entries_le (Nat.le_of_lt_succ hlength)
        elements := fun hlength => sound.elements_le (Nat.le_of_lt_succ hlength) }

/-! ## Documents -/

/-- A document is read exactly if its tokens derive from the grammar, and read as the table that
their derivation denotes. -/
theorem document?_eq_ok_iff_derives {tokens : List Located} {table : Table} :
    document? stop tokens = .ok table ↔
      ∃ document : Document, document.tokens = tokens.map Located.token ∧
        document.table = table := by
  constructor
  · intro h
    obtain ⟨opening, behind, rest, htokens, hopening, hread, hrest⟩ := document?_eq_ok_iff.1 h
    obtain ⟨before, hbefore⟩ := exists_consumes_separators tokens
    obtain ⟨leading, body, hbody, rfl⟩ :=
      (soundBelow stop (behind.length + 1)).entries (Nat.lt_succ_self _) hread
    obtain ⟨inside, hleading, hinside⟩ := consumes_append.1 hbody
    obtain ⟨trailing, htrailing⟩ := exists_consumes_separators rest
    rw [hrest] at htrailing
    rw [htokens] at hbefore
    refine ⟨⟨before, leading, body, trailing⟩, (consumes_nil_right.1 ?_).symm, rfl⟩
    exact consumes_append.2 ⟨_, hbefore, opening, behind, rfl, hopening,
      consumes_append.2 ⟨_, hleading, consumes_append.2 ⟨_, hinside, htrailing⟩⟩⟩
  · rintro ⟨⟨before, leading, body, trailing⟩, htokens, rfl⟩
    obtain ⟨_, hbefore, opening, behind, rfl, hopening, hbehind⟩ :=
      consumes_append.1 (consumes_nil_right.2 htokens.symm)
    obtain ⟨inside, hleading, hinside⟩ := consumes_append.1 hbehind
    obtain ⟨rest, hbody, htrailing⟩ := consumes_append.1 hinside
    have hdrop := hbefore.dropWhile_isSeparator
    rw [List.dropWhile_cons_of_neg (by simp [isSeparator, hopening])] at hdrop
    exact document?_eq_ok_iff.2 ⟨opening, behind, rest, hdrop, hopening,
      readsEntries_of_consumes body [] hleading hbody, htrailing.dropWhile_isSeparator⟩

/-- The reader accepts exactly the grammar.  Where it succeeds, its result is the table of the only
derivation that the tokens have; where they have none, it fails with a fault. -/
theorem document_accepts_exactly_grammar (stop : Place) (tokens : List Located) :
    (∀ table, document? stop tokens = .ok table ↔
      ∃ document : Document, document.tokens = tokens.map Located.token ∧
        (∀ other : Document, other.tokens = tokens.map Located.token → other = document) ∧
        document.table = table) ∧
    ((∃ fault, document? stop tokens = .error fault) ↔
      ∀ document : Document, document.tokens ≠ tokens.map Located.token) := by
  constructor
  · intro table
    rw [document?_eq_ok_iff_derives]
    constructor
    · rintro ⟨document, htokens, htable⟩
      exact ⟨document, htokens, fun other hother =>
        documentTokens_injective (hother.trans htokens.symm), htable⟩
    · rintro ⟨document, htokens, _, htable⟩
      exact ⟨document, htokens, htable⟩
  · constructor
    · rintro ⟨fault, hfault⟩ document htokens
      have hread : document? stop tokens = .ok document.table :=
        document?_eq_ok_iff_derives.2 ⟨document, htokens, rfl⟩
      rw [hfault] at hread
      cases hread
    · intro hnone
      cases hread : document? stop tokens with
      | error fault => exact ⟨fault, rfl⟩
      | ok table =>
          obtain ⟨document, htokens, _⟩ := document?_eq_ok_iff_derives.1 hread
          exact absurd htokens (hnone document)

end DscAudit.DataFile

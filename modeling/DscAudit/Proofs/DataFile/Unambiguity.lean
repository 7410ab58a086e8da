import DscAudit.Proofs.DataFile.Grammar

/-!
# The grammar of data files is unambiguous

No two derivations have the same tokens.  Items, entries and elements end by themselves, so two of
them that start the same list of tokens are equal whatever follows them.  A value ends where no
comma follows, and a run of separators where no separator follows.
-/

namespace DscAudit.DataFile.Grammar

theorem separatorToken_injective : Function.Injective Separator.token := by
  intro a b h
  cases a <;> cases b <;> first | rfl | cases h

theorem arraySeparatorToken_injective : Function.Injective ArraySeparator.token := by
  intro a b h
  cases a with
  | plain a =>
      cases b with
      | plain b => exact congrArg _ (separatorToken_injective h)
      | comma => cases a <;> cases h
  | comma =>
      cases b with
      | plain b => cases b <;> cases h
      | comma => rfl

theorem keyToken_injective : Function.Injective Key.token := by
  intro a b h
  cases a <;> cases b <;> cases h <;> rfl

theorem map_append_inj {α : Type} {toToken : α → Token} (hinj : Function.Injective toToken)
    {first second : List α} {rest rest' : List Token}
    (hrest : ∀ a, rest.head? ≠ some (toToken a)) (hrest' : ∀ a, rest'.head? ≠ some (toToken a))
    (h : first.map toToken ++ rest = second.map toToken ++ rest') :
    first = second ∧ rest = rest' := by
  induction first generalizing second with
  | nil =>
      cases second with
      | nil => exact ⟨rfl, h⟩
      | cons b second => exact absurd (congrArg List.head? h) (hrest b)
  | cons a first ih =>
      cases second with
      | nil => exact absurd (congrArg List.head? h).symm (hrest' a)
      | cons b second =>
          obtain ⟨hab, htail⟩ := List.cons.inj h
          obtain ⟨rfl, hrests⟩ := ih htail
          exact ⟨by rw [hinj hab], hrests⟩

theorem lineEndTokens_append_inj {first second : Nat} {rest rest' : List Token}
    (hrest : rest.head? ≠ some .newLine) (hrest' : rest'.head? ≠ some .newLine)
    (h : lineEndTokens first ++ rest = lineEndTokens second ++ rest') :
    first = second ∧ rest = rest' := by
  have hmap : ∀ n, lineEndTokens n = (List.replicate n ()).map fun _ => Token.newLine := by
    simp [lineEndTokens]
  rw [hmap, hmap] at h
  obtain ⟨hunits, hrests⟩ := map_append_inj (fun _ _ _ => rfl) (fun _ => hrest) (fun _ => hrest') h
  exact ⟨by simpa using congrArg List.length hunits, hrests⟩

/-! ## What may come first -/

theorem head?_items_append (items : Items) (rest : List Token) :
    ∃ token, (items.tokens ++ rest).head? = some token ∧ opensItem token = true := by
  obtain ⟨token, behind, htokens, htoken⟩ := exists_itemsTokens_eq_cons items
  exact ⟨token, by rw [htokens]; rfl, htoken⟩

theorem head?_elements_append (elements : ElementList) (rest : List Token) :
    ∃ token, (elements.tokens ++ rest).head? = some token ∧ opensItem token = true := by
  obtain ⟨token, behind, htokens, htoken⟩ := exists_elementListTokens_eq_cons elements
  exact ⟨token, by rw [htokens]; rfl, htoken⟩

theorem head?_entries_append (entries : EntryList) (rest : List Token) :
    ∃ key : Key, (entries.tokens ++ rest).head? = some key.token := by
  obtain ⟨key, behind, htokens⟩ := exists_entryListTokens_eq_cons entries
  exact ⟨key, by rw [htokens]; rfl⟩

theorem head?_ne_of_opensItem {tokens : List Token} {token : Token}
    (h : ∃ first, tokens.head? = some first ∧ opensItem first = true)
    (htoken : opensItem token = false) : tokens.head? ≠ some token := by
  obtain ⟨first, hfirst, hopens⟩ := h
  rw [hfirst]
  rintro ⟨⟩
  rw [hopens] at htoken
  cases htoken

theorem separatorToken_ne_keyToken (separator : Separator) (key : Key) :
    separator.token ≠ key.token := by
  cases separator <;> cases key <;> exact nofun

theorem opensItem_separatorToken (separator : Separator) :
    opensItem separator.token = false := by
  cases separator <;> rfl

theorem opensItem_arraySeparatorToken (separator : ArraySeparator) :
    opensItem separator.token = false := by
  cases separator with
  | plain separator => exact opensItem_separatorToken separator
  | comma => rfl

theorem head?_tableBody_append_ne (body : TableBody) (rest : List Token) (separator : Separator) :
    (body.tokens ++ rest).head? ≠ some separator.token := by
  cases body with
  | empty => cases separator <;> exact nofun
  | entries entries =>
      obtain ⟨key, hkey⟩ := head?_entries_append entries rest
      rw [TableBody.tokens, hkey]
      exact fun h => separatorToken_ne_keyToken separator key (Option.some.inj h).symm

theorem head?_arrayBody_append_ne (body : ArrayBody) (rest : List Token) (separator : Separator) :
    (body.tokens ++ rest).head? ≠ some separator.token := by
  cases body with
  | empty => cases separator <;> exact nofun
  | elements elements =>
      rw [ArrayBody.tokens]
      exact head?_ne_of_opensItem (head?_elements_append elements rest)
        (opensItem_separatorToken separator)

theorem separatorTokens_append_inj {first second : List Separator} {rest rest' : List Token}
    (hrest : ∀ separator : Separator, rest.head? ≠ some separator.token)
    (hrest' : ∀ separator : Separator, rest'.head? ≠ some separator.token)
    (h : separatorTokens first ++ rest = separatorTokens second ++ rest') :
    first = second ∧ rest = rest' :=
  map_append_inj separatorToken_injective hrest hrest' h

/-- The separators behind the last element as one list. -/
def trailingList : Option (Separator × List ArraySeparator) → List ArraySeparator
  | none => []
  | some (separator, separators) => .plain separator :: separators

theorem trailingTokens_eq_map (trailing : Option (Separator × List ArraySeparator)) :
    trailingTokens trailing = (trailingList trailing).map ArraySeparator.token := by
  rcases trailing with _ | ⟨separator, separators⟩ <;> rfl

theorem trailingList_injective : Function.Injective trailingList := by
  rintro (_ | ⟨a, as⟩) (_ | ⟨b, bs⟩) h <;> cases h <;> rfl

theorem arraySeparators_append_inj {first second : List ArraySeparator} {rest rest' : List Token}
    (hrest : ∃ token, rest.head? = some token ∧ (token = .closeArray ∨ opensItem token = true))
    (hrest' : ∃ token, rest'.head? = some token ∧
      (token = .closeArray ∨ opensItem token = true))
    (h : first.map ArraySeparator.token ++ rest = second.map ArraySeparator.token ++ rest') :
    first = second ∧ rest = rest' := by
  have hends : ∀ {tokens : List Token} (separator : ArraySeparator),
      (∃ token, tokens.head? = some token ∧ (token = .closeArray ∨ opensItem token = true)) →
        tokens.head? ≠ some separator.token := by
    rintro tokens separator ⟨token, htoken, hclose | hopens⟩
    · rw [htoken, hclose]
      rcases separator with separator | _
      · cases separator <;> exact nofun
      · exact nofun
    · exact head?_ne_of_opensItem ⟨token, htoken, hopens⟩
        (opensItem_arraySeparatorToken separator)
  exact map_append_inj arraySeparatorToken_injective (fun separator => hends separator hrest)
    (fun separator => hends separator hrest') h

theorem endsSeparators_elements (elements : ElementList) (rest : List Token) :
    ∃ token, (elements.tokens ++ rest).head? = some token ∧
      (token = .closeArray ∨ opensItem token = true) := by
  obtain ⟨token, htoken, hopens⟩ := head?_elements_append elements rest
  exact ⟨token, htoken, .inr hopens⟩

theorem head?_separator_ne_comma (separator : Separator) {rest : List Token} :
    (separator.token :: rest).head? ≠ some .comma := by
  cases separator <;> exact nofun

theorem closeTable_head?_ne_comma {rest : List Token} :
    ([Token.closeTable] ++ rest).head? ≠ some .comma := by
  intro h
  cases h

theorem head?_separators_append_ne_comma {separators : List Separator} {rest : List Token}
    (hrest : rest.head? ≠ some .comma) :
    (separatorTokens separators ++ rest).head? ≠ some .comma := by
  cases separators with
  | nil => exact hrest
  | cons separator separators => exact head?_separator_ne_comma separator

theorem head?_trailing_append_ne_comma (trailing : Option (Separator × List ArraySeparator))
    (rest : List Token) :
    (trailingTokens trailing ++ ([Token.closeArray] ++ rest)).head? ≠ some .comma := by
  rcases trailing with _ | ⟨separator, separators⟩
  · intro h
    cases h
  · exact head?_separator_ne_comma separator

theorem closeTable_ne_entries {trailing : List Separator} {rest rest' : List Token}
    (separators : List Separator) (entries : EntryList) :
    separatorTokens trailing ++ (.closeTable :: rest) ≠
      separatorTokens separators ++ (entries.tokens ++ rest') := by
  intro h
  obtain ⟨_, hclose⟩ := separatorTokens_append_inj (head?_tableBody_append_ne .empty rest)
    (head?_tableBody_append_ne (.entries entries) rest') h
  obtain ⟨key, hkey⟩ := head?_entries_append entries rest'
  rw [TableBody.tokens, TableBody.tokens] at hclose
  rw [← hclose] at hkey
  cases key <;> cases hkey

theorem closeArray_ne_elements (trailing : Option (Separator × List ArraySeparator))
    (separator : Separator) (separators : List ArraySeparator) (elements : ElementList)
    {rest rest' : List Token} :
    trailingTokens trailing ++ (.closeArray :: rest) ≠
      arraySeparatorTokens separator separators ++ (elements.tokens ++ rest') := by
  intro h
  rw [trailingTokens_eq_map] at h
  obtain ⟨_, hclose⟩ := @arraySeparators_append_inj _ (.plain separator :: separators) _ _
    ⟨.closeArray, rfl, .inl rfl⟩ (endsSeparators_elements elements rest') h
  obtain ⟨token, htoken, hopens⟩ := head?_elements_append elements rest'
  rw [← hclose] at htoken
  cases htoken
  cases hopens

theorem entryStart_append_inj {key key' : Key} {newLines newLines' : Nat} {value value' : Items}
    {rest rest' : List Token}
    (h : key.token :: .equals :: (lineEndTokens newLines ++ (value.tokens ++ rest)) =
      key'.token :: .equals :: (lineEndTokens newLines' ++ (value'.tokens ++ rest'))) :
    key = key' ∧ newLines = newLines' ∧ value.tokens ++ rest = value'.tokens ++ rest' := by
  obtain ⟨hkey, hequals⟩ := List.cons.inj h
  obtain ⟨hlines, hvalue⟩ := lineEndTokens_append_inj
    (head?_ne_of_opensItem (head?_items_append value rest) rfl)
    (head?_ne_of_opensItem (head?_items_append value' rest') rfl) (List.cons.inj hequals).2
  exact ⟨keyToken_injective hkey, hlines, hvalue⟩

/-! ## Trees -/

mutual

theorem item_append_inj (item item' : Item) {rest rest' : List Token}
    (h : item.tokens ++ rest = item'.tokens ++ rest') : item = item' ∧ rest = rest' := by
  cases item with
  | text content =>
      cases item' with
      | text content' =>
          cases h
          exact ⟨rfl, rfl⟩
      | _ => cases h
  | constant value =>
      cases item' with
      | constant value' =>
          cases h
          exact ⟨rfl, rfl⟩
      | _ => cases h
  | table leading body =>
      cases item' with
      | table leading' body' =>
          simp only [Item.tokens, List.cons_append, List.append_assoc] at h
          obtain ⟨rfl, hbody⟩ := separatorTokens_append_inj (head?_tableBody_append_ne body rest)
            (head?_tableBody_append_ne body' rest') (List.cons.inj h).2
          obtain ⟨rfl, hrest⟩ := tableBody_append_inj body body' hbody
          exact ⟨rfl, hrest⟩
      | _ => cases h
  | array leading body =>
      cases item' with
      | array leading' body' =>
          simp only [Item.tokens, List.cons_append, List.append_assoc] at h
          obtain ⟨rfl, hbody⟩ := separatorTokens_append_inj (head?_arrayBody_append_ne body rest)
            (head?_arrayBody_append_ne body' rest') (List.cons.inj h).2
          obtain ⟨rfl, hrest⟩ := arrayBody_append_inj body body' hbody
          exact ⟨rfl, hrest⟩
      | _ => cases h
termination_by structural item

theorem items_append_inj (items items' : Items) {rest rest' : List Token}
    (hrest : rest.head? ≠ some .comma) (hrest' : rest'.head? ≠ some .comma)
    (h : items.tokens ++ rest = items'.tokens ++ rest') : items = items' ∧ rest = rest' := by
  cases items with
  | one item =>
      cases items' with
      | one item' =>
          rw [Items.tokens, Items.tokens] at h
          obtain ⟨rfl, hrests⟩ := item_append_inj item item' h
          exact ⟨rfl, hrests⟩
      | more item' newLines' items' =>
          simp only [Items.tokens, List.append_assoc, List.cons_append] at h
          obtain ⟨_, hrests⟩ := item_append_inj item item' h
          rw [hrests] at hrest
          exact absurd rfl hrest
  | more item newLines items =>
      cases items' with
      | one item' =>
          simp only [Items.tokens, List.append_assoc, List.cons_append] at h
          obtain ⟨_, hrests⟩ := item_append_inj item item' h
          rw [← hrests] at hrest'
          exact absurd rfl hrest'
      | more item' newLines' items' =>
          simp only [Items.tokens, List.append_assoc, List.cons_append] at h
          obtain ⟨rfl, hbehind⟩ := item_append_inj item item' h
          obtain ⟨rfl, hitems⟩ := lineEndTokens_append_inj
            (head?_ne_of_opensItem (head?_items_append items rest) rfl)
            (head?_ne_of_opensItem (head?_items_append items' rest') rfl) (List.cons.inj hbehind).2
          obtain ⟨rfl, hrests⟩ := items_append_inj items items' hrest hrest' hitems
          exact ⟨rfl, hrests⟩
termination_by structural items

theorem tableBody_append_inj (body body' : TableBody) {rest rest' : List Token}
    (h : body.tokens ++ rest = body'.tokens ++ rest') : body = body' ∧ rest = rest' := by
  cases body with
  | empty =>
      cases body' with
      | empty =>
          cases h
          exact ⟨rfl, rfl⟩
      | entries entries' =>
          obtain ⟨key, hkey⟩ := head?_entries_append entries' rest'
          rw [TableBody.tokens, TableBody.tokens] at h
          rw [← h] at hkey
          cases key <;> cases hkey
  | entries entries =>
      cases body' with
      | empty =>
          obtain ⟨key, hkey⟩ := head?_entries_append entries rest
          rw [TableBody.tokens, TableBody.tokens] at h
          rw [h] at hkey
          cases key <;> cases hkey
      | entries entries' =>
          rw [TableBody.tokens, TableBody.tokens] at h
          obtain ⟨rfl, hrests⟩ := entryList_append_inj entries entries' h
          exact ⟨rfl, hrests⟩
termination_by structural body

theorem entryList_append_inj (entries entries' : EntryList) {rest rest' : List Token}
    (h : entries.tokens ++ rest = entries'.tokens ++ rest') :
    entries = entries' ∧ rest = rest' := by
  cases entries with
  | last key newLines value trailing =>
      cases entries' with
      | last key' newLines' value' trailing' =>
          simp only [EntryList.tokens, List.cons_append, List.append_assoc] at h
          obtain ⟨rfl, rfl, hvalue⟩ := entryStart_append_inj h
          obtain ⟨rfl, hbehind⟩ := items_append_inj value value'
            (head?_separators_append_ne_comma closeTable_head?_ne_comma)
            (head?_separators_append_ne_comma closeTable_head?_ne_comma) hvalue
          obtain ⟨rfl, hclose⟩ := separatorTokens_append_inj
            (head?_tableBody_append_ne .empty rest) (head?_tableBody_append_ne .empty rest') hbehind
          exact ⟨rfl, (List.cons.inj hclose).2⟩
      | more key' newLines' value' separator' separators' entries' =>
          simp only [EntryList.tokens, List.cons_append, List.append_assoc] at h
          obtain ⟨_, _, hvalue⟩ := entryStart_append_inj h
          obtain ⟨_, hbehind⟩ := items_append_inj value value'
            (head?_separators_append_ne_comma closeTable_head?_ne_comma)
            (head?_separator_ne_comma separator') hvalue
          exact absurd hbehind (closeTable_ne_entries (separator' :: separators') entries')
  | more key newLines value separator separators entries =>
      cases entries' with
      | last key' newLines' value' trailing' =>
          simp only [EntryList.tokens, List.cons_append, List.append_assoc] at h
          obtain ⟨_, _, hvalue⟩ := entryStart_append_inj h
          obtain ⟨_, hbehind⟩ := items_append_inj value value'
            (head?_separator_ne_comma separator)
            (head?_separators_append_ne_comma closeTable_head?_ne_comma) hvalue
          exact absurd hbehind.symm (closeTable_ne_entries (separator :: separators) entries)
      | more key' newLines' value' separator' separators' entries' =>
          simp only [EntryList.tokens, List.cons_append, List.append_assoc] at h
          obtain ⟨rfl, rfl, hvalue⟩ := entryStart_append_inj h
          obtain ⟨rfl, hbehind⟩ := items_append_inj value value'
            (head?_separator_ne_comma separator) (head?_separator_ne_comma separator') hvalue
          obtain ⟨hseparators, hentries⟩ := @separatorTokens_append_inj
            (separator :: separators) (separator' :: separators') _ _
            (head?_tableBody_append_ne (.entries entries) rest)
            (head?_tableBody_append_ne (.entries entries') rest') hbehind
          cases hseparators
          obtain ⟨rfl, hrests⟩ := entryList_append_inj entries entries' hentries
          exact ⟨rfl, hrests⟩
termination_by structural entries

theorem arrayBody_append_inj (body body' : ArrayBody) {rest rest' : List Token}
    (h : body.tokens ++ rest = body'.tokens ++ rest') : body = body' ∧ rest = rest' := by
  cases body with
  | empty =>
      cases body' with
      | empty =>
          cases h
          exact ⟨rfl, rfl⟩
      | elements elements' =>
          obtain ⟨token, htoken, hopens⟩ := head?_elements_append elements' rest'
          rw [ArrayBody.tokens, ArrayBody.tokens] at h
          rw [← h] at htoken
          cases htoken
          cases hopens
  | elements elements =>
      cases body' with
      | empty =>
          obtain ⟨token, htoken, hopens⟩ := head?_elements_append elements rest
          rw [ArrayBody.tokens, ArrayBody.tokens] at h
          rw [h] at htoken
          cases htoken
          cases hopens
      | elements elements' =>
          rw [ArrayBody.tokens, ArrayBody.tokens] at h
          obtain ⟨rfl, hrests⟩ := elementList_append_inj elements elements' h
          exact ⟨rfl, hrests⟩
termination_by structural body

theorem elementList_append_inj (elements elements' : ElementList) {rest rest' : List Token}
    (h : elements.tokens ++ rest = elements'.tokens ++ rest') :
    elements = elements' ∧ rest = rest' := by
  cases elements with
  | last value trailing =>
      cases elements' with
      | last value' trailing' =>
          simp only [ElementList.tokens, List.append_assoc] at h
          obtain ⟨rfl, hbehind⟩ := items_append_inj value value'
            (head?_trailing_append_ne_comma trailing rest)
            (head?_trailing_append_ne_comma trailing' rest') h
          rw [trailingTokens_eq_map, trailingTokens_eq_map] at hbehind
          obtain ⟨htrailing, hclose⟩ := arraySeparators_append_inj
            ⟨.closeArray, rfl, .inl rfl⟩ ⟨.closeArray, rfl, .inl rfl⟩ hbehind
          cases trailingList_injective htrailing
          exact ⟨rfl, (List.cons.inj hclose).2⟩
      | more value' separator' separators' elements' =>
          simp only [ElementList.tokens, List.append_assoc] at h
          obtain ⟨_, hbehind⟩ := items_append_inj value value'
            (head?_trailing_append_ne_comma trailing rest) (head?_separator_ne_comma separator') h
          exact absurd hbehind (closeArray_ne_elements trailing separator' separators' elements')
  | more value separator separators elements =>
      cases elements' with
      | last value' trailing' =>
          simp only [ElementList.tokens, List.append_assoc] at h
          obtain ⟨_, hbehind⟩ := items_append_inj value value'
            (head?_separator_ne_comma separator) (head?_trailing_append_ne_comma trailing' rest') h
          exact absurd hbehind.symm (closeArray_ne_elements trailing' separator separators elements)
      | more value' separator' separators' elements' =>
          simp only [ElementList.tokens, List.append_assoc] at h
          obtain ⟨rfl, hbehind⟩ := items_append_inj value value'
            (head?_separator_ne_comma separator) (head?_separator_ne_comma separator') h
          obtain ⟨hseparators, helements⟩ := @arraySeparators_append_inj
            (.plain separator :: separators) (.plain separator' :: separators') _ _
            (endsSeparators_elements elements rest) (endsSeparators_elements elements' rest')
            hbehind
          cases hseparators
          obtain ⟨rfl, hrests⟩ := elementList_append_inj elements elements' helements
          exact ⟨rfl, hrests⟩
termination_by structural elements

end

/-- A list of tokens has at most one derivation. -/
theorem documentTokens_injective : Function.Injective Document.tokens := by
  rintro ⟨before, leading, body, behind⟩ ⟨before', leading', body', behind'⟩ h
  simp only [Document.tokens] at h
  obtain ⟨rfl, hopening⟩ := separatorTokens_append_inj
    (fun separator => by cases separator <;> exact nofun)
    (fun separator => by cases separator <;> exact nofun) h
  obtain ⟨rfl, hbody⟩ := separatorTokens_append_inj (head?_tableBody_append_ne body _)
    (head?_tableBody_append_ne body' _) (List.cons.inj hopening).2
  obtain ⟨rfl, hbehind⟩ := tableBody_append_inj body body' hbody
  have hsame : behind = behind' := List.map_injective_iff.2 separatorToken_injective hbehind
  rw [hsame]

end DscAudit.DataFile.Grammar

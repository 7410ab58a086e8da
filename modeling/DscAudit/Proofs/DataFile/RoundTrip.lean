import DscAudit.Proofs.DataFile.Derivation
import DscAudit.Proofs.DataFile.Spelling

/-!
# Data files are read as they are written

A tree of strings, integers, constants, arrays and tables is written as a document in many ways:
strings in either kind of quotes, keys bare or in quotes, separators of all kinds, arrays with or
without brackets where both are possible, and gaps between all tokens.  Every such text is read as
the tree.  The entries of a table come in the order of their keys' first places, and each has the
last value that was written under its key.
-/

namespace DscAudit.DataFile

open Grammar

/-- What a data file is to hold. -/
inductive Tree where
  | text (content : String)
  | int (n : Int)
  | bool (b : Bool)
  | null
  | list (items : List Tree)
  | table (entries : List (String × Tree))

namespace Tree

mutual

/-- The value that a tree stands for.  A key of a table that comes again counts once. -/
def value : Tree → Value
  | text content => .text content
  | int n => .int n
  | bool b => .bool b
  | null => .null
  | list items => .list (values items)
  | table entries => .table (Entries.ofList (entryValues entries))

def values : List Tree → List Value
  | [] => []
  | item :: items => value item :: values items

def entryValues : List (String × Tree) → List (String × Value)
  | [] => []
  | entry :: entries => (entry.1, value entry.2) :: entryValues entries

end

theorem values_append (first second : List Tree) :
    values (first ++ second) = values first ++ values second := by
  induction first with
  | nil => rfl
  | cons tree first ih =>
      simp only [List.cons_append, values, ih]

end Tree

/-! ## Writing a tree -/

/-- A key is written as a bare word or as a string. -/
inductive WritesKey : String → Key → Prop where
  | word (name : String) : WritesKey name (.word name)
  | string (content : String) : WritesKey content (.string content)

mutual

inductive WritesItem : Tree → Item → Prop where
  | text (content : String) : WritesItem (.text content) (.text content)
  | int (n : Int) : WritesItem (.int n) (.constant (.int n))
  | bool (b : Bool) : WritesItem (.bool b) (.constant (.bool b))
  | null : WritesItem .null (.constant .null)
  | list {items : List Tree} {leading : List Separator} {body : ArrayBody}
      (h : WritesArray items body) : WritesItem (.list items) (.array leading body)
  | table {entries : List (String × Tree)} {leading : List Separator} {body : TableBody}
      (h : WritesTable entries body) : WritesItem (.table entries) (.table leading body)

/-- Trees written one after the other with commas between them. -/
inductive WritesItems : List Tree → Items → Prop where
  | one {tree : Tree} {item : Item} (h : WritesItem tree item) : WritesItems [tree] (.one item)
  | more {tree : Tree} {trees : List Tree} {item : Item} {newLines : Nat} {items : Items}
      (hfirst : WritesItem tree item) (hmore : WritesItems trees items) :
      WritesItems (tree :: trees) (.more item newLines items)

/-- The value of an entry: one item, or without brackets a list of several. -/
inductive WritesValue : Tree → Items → Prop where
  | item {tree : Tree} {item : Item} (h : WritesItem tree item) : WritesValue tree (.one item)
  | list {tree : Tree} {trees : List Tree} {item : Item} {newLines : Nat} {items : Items}
      (hfirst : WritesItem tree item) (hmore : WritesItems trees items) :
      WritesValue (.list (tree :: trees)) (.more item newLines items)

inductive WritesTable : List (String × Tree) → TableBody → Prop where
  | empty : WritesTable [] .empty
  | entries {entries : List (String × Tree)} {written : EntryList}
      (h : WritesEntries entries written) : WritesTable entries (.entries written)

inductive WritesEntries : List (String × Tree) → EntryList → Prop where
  | last {text : String} {tree : Tree} {key : Key} {newLines : Nat} {value : Items}
      {trailing : List Separator} (hkey : WritesKey text key) (hvalue : WritesValue tree value) :
      WritesEntries [(text, tree)] (.last key newLines value trailing)
  | more {text : String} {tree : Tree} {entries : List (String × Tree)} {key : Key}
      {newLines : Nat} {value : Items} {separator : Separator} {separators : List Separator}
      {written : EntryList} (hkey : WritesKey text key) (hvalue : WritesValue tree value)
      (hmore : WritesEntries entries written) :
      WritesEntries ((text, tree) :: entries)
        (.more key newLines value separator separators written)

inductive WritesArray : List Tree → ArrayBody → Prop where
  | empty : WritesArray [] .empty
  | elements {trees : List Tree} {written : ElementList} (h : WritesElements trees written) :
      WritesArray trees (.elements written)

/-- The elements of an array, between which commas and other separators may alternate. -/
inductive WritesElements : List Tree → ElementList → Prop where
  | last {trees : List Tree} {value : Items}
      {trailing : Option (Separator × List ArraySeparator)} (h : WritesItems trees value) :
      WritesElements trees (.last value trailing)
  | more {trees others : List Tree} {value : Items} {separator : Separator}
      {separators : List ArraySeparator} {written : ElementList} (h : WritesItems trees value)
      (hmore : WritesElements others written) :
      WritesElements (trees ++ others) (.more value separator separators written)

end

/-- A text writes the entries of a table if it spells the tokens of a document that does. -/
def Writes (entries : List (String × Tree)) (text : List Char) : Prop :=
  ∃ document : Document, WritesTable entries document.body ∧ Spells document.tokens text

/-! ## What is written denotes the tree -/

mutual

theorem value_of_writesItem (item : Item) {tree : Tree} (h : WritesItem tree item) :
    item.value = tree.value := by
  cases item with
  | text content =>
      cases h
      rfl
  | constant value =>
      cases h <;> rfl
  | table leading body =>
      cases h with
      | table hbody =>
          rw [Item.value, Tree.value, entryValues_of_writesTable body hbody]
  | array leading body =>
      cases h with
      | list hbody =>
          rw [Item.value, Tree.value, values_of_writesArray body hbody]
termination_by structural item

theorem values_of_writesItems (items : Items) {trees : List Tree} (h : WritesItems trees items) :
    items.values = Tree.values trees := by
  cases items with
  | one item =>
      cases h with
      | one hitem =>
          rw [Items.values, value_of_writesItem item hitem]
          rfl
  | more item newLines items =>
      cases h with
      | more hfirst hmore =>
          rw [Items.values, value_of_writesItem item hfirst, values_of_writesItems items hmore]
          rfl
termination_by structural items

theorem value_of_writesValue (items : Items) {tree : Tree} (h : WritesValue tree items) :
    items.value = tree.value := by
  cases items with
  | one item =>
      cases h with
      | item hitem => rw [Items.value, value_of_writesItem item hitem]
  | more item newLines items =>
      cases h with
      | list hfirst hmore =>
          rw [Items.value, value_of_writesItem item hfirst, values_of_writesItems items hmore]
          rfl
termination_by structural items

theorem entryValues_of_writesTable (body : TableBody) {entries : List (String × Tree)}
    (h : WritesTable entries body) : body.entryValues = Tree.entryValues entries := by
  cases body with
  | empty =>
      cases h
      rfl
  | entries written =>
      cases h with
      | entries hentries =>
          rw [TableBody.entryValues, entryValues_of_writesEntries written hentries]
termination_by structural body

theorem entryValues_of_writesEntries (written : EntryList) {entries : List (String × Tree)}
    (h : WritesEntries entries written) : written.entryValues = Tree.entryValues entries := by
  cases written with
  | last key newLines value trailing =>
      cases h with
      | last hkey hvalue =>
          rw [EntryList.entryValues, value_of_writesValue value hvalue]
          cases hkey <;> rfl
  | more key newLines value separator separators written =>
      cases h with
      | more hkey hvalue hmore =>
          rw [EntryList.entryValues, value_of_writesValue value hvalue,
            entryValues_of_writesEntries written hmore]
          cases hkey <;> rfl
termination_by structural written

theorem values_of_writesArray (body : ArrayBody) {trees : List Tree}
    (h : WritesArray trees body) : body.values = Tree.values trees := by
  cases body with
  | empty =>
      cases h
      rfl
  | elements written =>
      cases h with
      | elements helements =>
          rw [ArrayBody.values, values_of_writesElements written helements]
termination_by structural body

theorem values_of_writesElements (written : ElementList) {trees : List Tree}
    (h : WritesElements trees written) : written.values = Tree.values trees := by
  cases written with
  | last value trailing =>
      cases h with
      | last hvalue => rw [ElementList.values, values_of_writesItems value hvalue]
  | more value separator separators written =>
      cases h with
      | more hvalue hmore =>
          rw [ElementList.values, values_of_writesItems value hvalue,
            values_of_writesElements written hmore, Tree.values_append]
termination_by structural written

end

/-! ## The tokens of a document do not run together -/

/-- Tokens that may stand behind any token. -/
def Detached (tokens : List Token) : Prop :=
  Spaced tokens ∧ ∀ next ∈ tokens.head?, isAtom next = false

theorem Spaced.atom {token : Token} {tokens : List Token} (h : Detached tokens) :
    Spaced (token :: tokens) :=
  ⟨fun _ => h.2, h.1⟩

theorem Detached.cons {token : Token} {tokens : List Token} (htoken : isAtom token = false)
    (h : Spaced tokens) : Detached (token :: tokens) := by
  refine ⟨⟨fun hatom => ?_, h⟩, ?_⟩
  · rw [htoken] at hatom
    cases hatom
  · rintro _ ⟨⟩
    exact htoken

theorem Detached.append {leading tokens : List Token}
    (hleading : ∀ token ∈ leading, isAtom token = false) (h : Detached tokens) :
    Detached (leading ++ tokens) := by
  induction leading with
  | nil => exact h
  | cons token leading ih =>
      exact Detached.cons (hleading token List.mem_cons_self)
        (ih fun next hnext => hleading next (List.mem_cons_of_mem _ hnext)).1

theorem Spaced.append {leading tokens : List Token}
    (hleading : ∀ token ∈ leading, isAtom token = false) (h : Spaced tokens) :
    Spaced (leading ++ tokens) := by
  induction leading with
  | nil => exact h
  | cons token leading ih =>
      exact (Detached.cons (hleading token List.mem_cons_self)
        (ih fun next hnext => hleading next (List.mem_cons_of_mem _ hnext))).1

theorem isAtom_separatorToken (separator : Separator) : isAtom separator.token = false := by
  cases separator <;> rfl

theorem isAtom_of_mem_separatorTokens {separators : List Separator} :
    ∀ token ∈ separatorTokens separators, isAtom token = false := by
  intro token htoken
  obtain ⟨separator, _, rfl⟩ := List.mem_map.1 htoken
  exact isAtom_separatorToken separator

theorem isAtom_of_mem_lineEndTokens (newLines : Nat) :
    ∀ token ∈ lineEndTokens newLines, isAtom token = false := by
  intro token htoken
  rw [List.eq_of_mem_replicate htoken]
  rfl

theorem isAtom_of_mem_arraySeparatorTokens (separator : Separator)
    (separators : List ArraySeparator) :
    ∀ token ∈ arraySeparatorTokens separator separators, isAtom token = false := by
  intro token htoken
  rcases List.mem_cons.1 htoken with rfl | htoken
  · exact isAtom_separatorToken separator
  · obtain ⟨behind, _, rfl⟩ := List.mem_map.1 htoken
    cases behind with
    | plain separator => exact isAtom_separatorToken separator
    | comma => rfl

theorem isAtom_of_mem_trailingTokens {trailing : Option (Separator × List ArraySeparator)} :
    ∀ token ∈ trailingTokens trailing, isAtom token = false := by
  cases trailing with
  | none => exact fun token htoken => absurd htoken List.not_mem_nil
  | some trailing => exact isAtom_of_mem_arraySeparatorTokens trailing.1 trailing.2

mutual

theorem spaced_itemTokens (item : Item) {rest : List Token} (hrest : Detached rest) :
    Spaced (item.tokens ++ rest) := by
  cases item with
  | text content => exact Spaced.atom hrest
  | constant value => exact Spaced.atom hrest
  | table leading body =>
      rw [Item.tokens, List.cons_append, List.append_assoc]
      exact (Detached.cons rfl (Spaced.append isAtom_of_mem_separatorTokens
        (spaced_tableBodyTokens body hrest.1))).1
  | array leading body =>
      rw [Item.tokens, List.cons_append, List.append_assoc]
      exact (Detached.cons rfl (Spaced.append isAtom_of_mem_separatorTokens
        (spaced_arrayBodyTokens body hrest.1))).1
termination_by structural item

theorem spaced_itemsTokens (items : Items) {rest : List Token} (hrest : Detached rest) :
    Spaced (items.tokens ++ rest) := by
  cases items with
  | one item =>
      rw [Items.tokens]
      exact spaced_itemTokens item hrest
  | more item newLines items =>
      rw [Items.tokens, List.append_assoc, List.cons_append, List.append_assoc]
      exact spaced_itemTokens item (Detached.cons rfl
        (Spaced.append (isAtom_of_mem_lineEndTokens newLines) (spaced_itemsTokens items hrest)))
termination_by structural items

theorem spaced_tableBodyTokens (body : TableBody) {rest : List Token} (hrest : Spaced rest) :
    Spaced (body.tokens ++ rest) := by
  cases body with
  | empty => exact (Detached.cons rfl hrest).1
  | entries entries =>
      rw [TableBody.tokens]
      exact spaced_entryListTokens entries hrest
termination_by structural body

theorem spaced_entryListTokens (entries : EntryList) {rest : List Token} (hrest : Spaced rest) :
    Spaced (entries.tokens ++ rest) := by
  cases entries with
  | last key newLines value trailing =>
      have hclose : Detached (separatorTokens trailing ++ .closeTable :: rest) :=
        Detached.append isAtom_of_mem_separatorTokens (Detached.cons rfl hrest)
      have hvalue := Spaced.append (isAtom_of_mem_lineEndTokens newLines)
        (spaced_itemsTokens value hclose)
      rw [EntryList.tokens]
      simp only [List.cons_append, List.append_assoc, List.nil_append]
      exact Spaced.atom (Detached.cons rfl hvalue)
  | more key newLines value separator separators entries =>
      have hmore : Detached (separator.token :: (separatorTokens separators ++
          (entries.tokens ++ rest))) :=
        Detached.cons (isAtom_separatorToken separator)
          (Spaced.append isAtom_of_mem_separatorTokens (spaced_entryListTokens entries hrest))
      have hvalue := Spaced.append (isAtom_of_mem_lineEndTokens newLines)
        (spaced_itemsTokens value hmore)
      rw [EntryList.tokens]
      simp only [List.cons_append, List.append_assoc]
      exact Spaced.atom (Detached.cons rfl hvalue)
termination_by structural entries

theorem spaced_arrayBodyTokens (body : ArrayBody) {rest : List Token} (hrest : Spaced rest) :
    Spaced (body.tokens ++ rest) := by
  cases body with
  | empty => exact (Detached.cons rfl hrest).1
  | elements elements =>
      rw [ArrayBody.tokens]
      exact spaced_elementListTokens elements hrest
termination_by structural body

theorem spaced_elementListTokens (elements : ElementList) {rest : List Token}
    (hrest : Spaced rest) : Spaced (elements.tokens ++ rest) := by
  cases elements with
  | last value trailing =>
      have hclose : Detached (trailingTokens trailing ++ .closeArray :: rest) :=
        Detached.append isAtom_of_mem_trailingTokens (Detached.cons rfl hrest)
      rw [ElementList.tokens]
      simp only [List.append_assoc, List.cons_append, List.nil_append]
      exact spaced_itemsTokens value hclose
  | more value separator separators elements =>
      have hmore : Detached (arraySeparatorTokens separator separators ++
          (elements.tokens ++ rest)) := by
        refine Detached.cons (isAtom_separatorToken separator) ?_
        refine Spaced.append ?_ (spaced_elementListTokens elements hrest)
        exact fun token htoken => isAtom_of_mem_arraySeparatorTokens separator separators token
          (List.mem_cons_of_mem _ htoken)
      rw [ElementList.tokens, List.append_assoc, List.append_assoc]
      exact spaced_itemsTokens value hmore
termination_by structural elements

end

theorem spaced_documentTokens (document : Document) : Spaced document.tokens := by
  have hbehind : Spaced (separatorTokens document.behind) := by
    rw [← List.append_nil (separatorTokens document.behind)]
    exact Spaced.append isAtom_of_mem_separatorTokens trivial
  have hbody : Spaced (separatorTokens document.leading ++
      (document.body.tokens ++ separatorTokens document.behind)) :=
    Spaced.append isAtom_of_mem_separatorTokens (spaced_tableBodyTokens document.body hbehind)
  exact Spaced.append isAtom_of_mem_separatorTokens (Detached.cons rfl hbody).1

/-! ## Reading back -/

/-- A text that spells the tokens of a document is read as its table. -/
theorem read_of_spells {document : Document} {text : List Char} (h : Spells document.tokens text) :
    read text = .ok document.table := by
  obtain ⟨located, stop, hread, htokens⟩ :=
    h.exists_tokensFrom (spaced_documentTokens document) .start
  rw [read, tokens, hread]
  exact document?_eq_ok_iff_derives.2 ⟨document, htokens.symm, rfl⟩

/-- A text that writes the entries of a table is read as that table. -/
theorem read_writes {entries : List (String × Tree)} {text : List Char} (h : Writes entries text) :
    read text = .ok (Entries.ofList (Tree.entryValues entries)) := by
  obtain ⟨document, hwrites, hspells⟩ := h
  rw [read_of_spells hspells, Document.table, entryValues_of_writesTable document.body hwrites]

theorem Gap.space : Gap [' '] := .blank rfl .nil

theorem writes_nested :
    Writes [("B", .list [.text "it's", .list [.int (-1), .bool true]]),
        ("A", .list [.null, .text "\""]), ("B", .table [])]
      "@\x7b 'B'=@('it''s'\n @(-1<##>,$true));A = $null,\"\x60\"\"\x60\n\nB=@\x7b;\x7d\x7d".toList := by
  refine ⟨⟨[], [], .entries (.more (.string "B") 0 (.one (.array [] (.elements
    (.more (.one (.text "it's")) .newLine [] (.last (.one (.array [] (.elements
      (.last (.more (.constant (.int (-1))) 0 (.one (.constant (.bool true)))) none)))) none)))))
    .semicolon [] (.more (.word "A") 0 (.more (.constant .null) 0 (.one (.text "\""))) .newLine []
      (.last (.word "B") 0 (.one (.table [.semicolon] .empty)) []))), []⟩, ?_, ?_⟩
  · refine .entries (.more (.string "B") (.item (.list (.elements ?_))) ?_)
    · exact .more (.one (.text _)) (.last (.one (.list (.elements
        (.last (.more (.int _) (.one (.bool _))))))))
    · exact .more (.word "A") (.list .null (.one (.text _)))
        (.last (.word "B") (.item (.table .empty)))
  · have hspells := Spells.cons .nil .openTable <| .cons .space (.single "B") <|
      .cons .nil .equals <| .cons .nil .openArray <| .cons .nil (.single "it's") <|
      .cons .nil .newLine <| .cons .space .openArray <| .cons .nil (.int (-1)) <|
      .cons (@Gap.comment [] _ (by decide) .nil) .comma <| .cons .nil .truth <|
      .cons .nil .closeArray <| .cons .nil .closeArray <| .cons .nil .semicolon <|
      .cons .nil (@Spelling.word "A" (by decide)) <| .cons .space .equals <|
      .cons .space .nothing <| .cons .nil .comma <|
      .cons .nil (@Spelling.double "\"" _ (.escape '"' .nil)) <|
      .cons (.lineFeed .nil) .newLine <| .cons .nil (@Spelling.word "B" (by decide)) <|
      .cons .nil .equals <| .cons .nil .openTable <| .cons .nil .semicolon <|
      .cons .nil .closeTable <| .cons .nil .closeTable <| .nil .nil
    exact hspells

theorem read_writes_nested :
    read "@\x7b 'B'=@('it''s'\n @(-1<##>,$true));A = $null,\"\x60\"\"\x60\n\nB=@\x7b;\x7d\x7d".toList =
      .ok [("B", .table []), ("A", .list [.null, .text "\""])] :=
  read_writes writes_nested

end DscAudit.DataFile

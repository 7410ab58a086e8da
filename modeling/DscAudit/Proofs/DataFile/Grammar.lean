import DscAudit.DataFile.Document
import Mathlib.Tactic

/-!
# The grammar of data files

The tokens of a data file derive from

    document = S* table S*
    table    = '@{' S* (entry (S+ entry)* S*)? '}'
    entry    = key '=' newline* value
    value    = item (',' newline* item)*
    item     = string | constant | table | array
    array    = '@(' S* (value (S (S | ',')* value)* (S (S | ',')*)?)? ')'

where `S` is a line end or a semicolon and a key is a word, a string or a constant other than
nothing.  A derivation is a tree: it has the tokens that it derives, and it denotes a value.  The
repetitions lean to the right, so that a tree of entries or elements ends with its closing bracket.
No two trees have the same tokens.
-/

namespace DscAudit.DataFile.Grammar

/-- `S`: a line end or a semicolon. -/
inductive Separator where
  | newLine
  | semicolon

def Separator.token : Separator → Token
  | .newLine => .newLine
  | .semicolon => .semicolon

/-- `S | ','`: what may stand behind the first separator of an array. -/
inductive ArraySeparator where
  | plain (separator : Separator)
  | comma

def ArraySeparator.token : ArraySeparator → Token
  | .plain separator => separator.token
  | .comma => .comma

inductive Key where
  | word (name : String)
  | string (content : String)
  | constant (value : Value) (something : value ≠ .null)

namespace Key

def token : Key → Token
  | word name => .word name
  | string content => .string content
  | constant value _ => .constant value

/-- The text under which the entry is found. -/
def text : Key → String
  | word name => name
  | string content => content
  | constant value _ => value.plain

end Key

mutual

inductive Item where
  | text (content : String)
  | constant (value : Value)
  | table (leading : List Separator) (body : TableBody)
  | array (leading : List Separator) (body : ArrayBody)

inductive Items where
  | one (item : Item)
  | more (item : Item) (newLines : Nat) (items : Items)

/-- What stands behind the opening of a table and the separators there. -/
inductive TableBody where
  | empty
  | entries (entries : EntryList)

/-- Entries and the closing bracket. -/
inductive EntryList where
  | last (key : Key) (newLines : Nat) (value : Items) (trailing : List Separator)
  | more (key : Key) (newLines : Nat) (value : Items) (separator : Separator)
      (separators : List Separator) (entries : EntryList)

/-- What stands behind the opening of an array and the separators there. -/
inductive ArrayBody where
  | empty
  | elements (elements : ElementList)

/-- Elements and the closing bracket. -/
inductive ElementList where
  | last (value : Items) (trailing : Option (Separator × List ArraySeparator))
  | more (value : Items) (separator : Separator) (separators : List ArraySeparator)
      (elements : ElementList)

end

def separatorTokens (separators : List Separator) : List Token := separators.map Separator.token

def lineEndTokens (newLines : Nat) : List Token := List.replicate newLines .newLine

def arraySeparatorTokens (separator : Separator) (separators : List ArraySeparator) : List Token :=
  separator.token :: separators.map ArraySeparator.token

def trailingTokens : Option (Separator × List ArraySeparator) → List Token
  | none => []
  | some (separator, separators) => arraySeparatorTokens separator separators

mutual

def Item.tokens : Item → List Token
  | .text content => [.string content]
  | .constant value => [.constant value]
  | .table leading body => .openTable :: (separatorTokens leading ++ body.tokens)
  | .array leading body => .openArray :: (separatorTokens leading ++ body.tokens)

def Items.tokens : Items → List Token
  | .one item => item.tokens
  | .more item newLines items => item.tokens ++ .comma :: (lineEndTokens newLines ++ items.tokens)

def TableBody.tokens : TableBody → List Token
  | .empty => [.closeTable]
  | .entries entries => entries.tokens

def EntryList.tokens : EntryList → List Token
  | .last key newLines value trailing =>
    key.token :: .equals ::
      (lineEndTokens newLines ++ (value.tokens ++ (separatorTokens trailing ++ [.closeTable])))
  | .more key newLines value separator separators entries =>
    key.token :: .equals ::
      (lineEndTokens newLines ++
        (value.tokens ++ separator.token :: (separatorTokens separators ++ entries.tokens)))

def ArrayBody.tokens : ArrayBody → List Token
  | .empty => [.closeArray]
  | .elements elements => elements.tokens

def ElementList.tokens : ElementList → List Token
  | .last value trailing => value.tokens ++ (trailingTokens trailing ++ [.closeArray])
  | .more value separator separators elements =>
    value.tokens ++ (arraySeparatorTokens separator separators ++ elements.tokens)

end

mutual

/-- The value that an item denotes. -/
def Item.value : Item → Value
  | .text content => .text content
  | .constant value => value
  | .table _ body => .table (Entries.ofList body.entryValues)
  | .array _ body => .list body.values

/-- The values of the items, one by one. -/
def Items.values : Items → List Value
  | .one item => [item.value]
  | .more item _ items => item.value :: items.values

/-- One item denotes itself, several denote their list. -/
def Items.value : Items → Value
  | .one item => item.value
  | .more item _ items => .list (item.value :: items.values)

/-- The keys and values of the entries, where a key may come again. -/
def TableBody.entryValues : TableBody → List (String × Value)
  | .empty => []
  | .entries entries => entries.entryValues

def EntryList.entryValues : EntryList → List (String × Value)
  | .last key _ value _ => [(key.text, value.value)]
  | .more key _ value _ _ entries => (key.text, value.value) :: entries.entryValues

/-- The elements of an array.  Several items count one by one, a single one as it is. -/
def ArrayBody.values : ArrayBody → List Value
  | .empty => []
  | .elements elements => elements.values

def ElementList.values : ElementList → List Value
  | .last value _ => value.values
  | .more value _ _ elements => value.values ++ elements.values

end

/-! ## First tokens -/

def opensItem : Token → Bool
  | .string _ | .constant _ | .openTable | .openArray => true
  | _ => false

theorem exists_itemTokens_eq_cons (item : Item) :
    ∃ token behind, item.tokens = token :: behind ∧ opensItem token = true := by
  cases item <;> exact ⟨_, _, by rw [Item.tokens], rfl⟩

theorem exists_itemsTokens_eq_cons (items : Items) :
    ∃ token behind, items.tokens = token :: behind ∧ opensItem token = true := by
  cases items with
  | one item =>
      rw [Items.tokens]
      exact exists_itemTokens_eq_cons item
  | more item newLines items =>
      obtain ⟨token, behind, htokens, htoken⟩ := exists_itemTokens_eq_cons item
      rw [Items.tokens, htokens]
      exact ⟨token, _, rfl, htoken⟩

theorem exists_entryListTokens_eq_cons (entries : EntryList) :
    ∃ key : Key, ∃ behind, entries.tokens = key.token :: behind := by
  cases entries <;> exact ⟨_, _, by rw [EntryList.tokens]⟩

theorem exists_elementListTokens_eq_cons (elements : ElementList) :
    ∃ token behind, elements.tokens = token :: behind ∧ opensItem token = true := by
  cases elements with
  | last value trailing =>
      obtain ⟨token, behind, htokens, htoken⟩ := exists_itemsTokens_eq_cons value
      rw [ElementList.tokens, htokens]
      exact ⟨token, _, rfl, htoken⟩
  | more value separator separators elements =>
      obtain ⟨token, behind, htokens, htoken⟩ := exists_itemsTokens_eq_cons value
      rw [ElementList.tokens, htokens]
      exact ⟨token, _, rfl, htoken⟩

/-! ## Documents -/

structure Document where
  before : List Separator
  leading : List Separator
  body : TableBody
  behind : List Separator

namespace Document

def tokens (document : Document) : List Token :=
  separatorTokens document.before ++
    .openTable :: (separatorTokens document.leading ++
      (document.body.tokens ++ separatorTokens document.behind))

/-- The table that a document denotes: a repeated key keeps its first place and its last value. -/
def table (document : Document) : Table := Entries.ofList document.body.entryValues

end Document

end DscAudit.DataFile.Grammar

import DscAudit.DataFile.Token

/-!
# Documents of data files

The tokens of a data file make one table.  An entry is a key, an equals sign and a value; entries are
separated by line ends and semicolons.  A value is an item or several items separated by commas,
which make a list; inside an array such items count one by one.
-/

namespace DscAudit.DataFile

def isLineEnd (token : Located) : Bool :=
  match token.token with
  | .newLine => true
  | _ => false

/-- Line ends and semicolons separate entries. -/
def isSeparator (token : Located) : Bool :=
  match token.token with
  | .newLine | .semicolon => true
  | _ => false

/-- Within an array commas may stand among the separators. -/
def isArraySeparator (token : Located) : Bool :=
  match token.token with
  | .newLine | .semicolon | .comma => true
  | _ => false

/-- The token that comes next. -/
def next? (tokens : List Located) : Option Token := tokens.head?.map (·.token)

/-- A cause at the next token, or at the end of the text. -/
def faultAt (stop : Place) (cause : Cause) : List Located → Fault
  | [] => stop.fault cause stop.offset
  | token :: _ => ⟨cause, token.line, token.column⟩

/-- The key that a token gives an entry: its text, if it is a string, a word or a constant other than
nothing. -/
def key? : Token → Option String
  | .string content => some content
  | .word name => some name
  | .constant .null => none
  | .constant value => some value.plain
  | _ => none

/-- The value of one item and those that follow it. -/
def valueOf (first : Value) : List Value → Value
  | [] => first
  | more => .list (first :: more)

/-- What was read from tokens, and the tokens behind it, which are fewer. -/
structure Parsed (α : Type) (tokens : List Located) where
  result : α
  rest : List Located
  shorter : rest.length < tokens.length

theorem length_skip_le (p : Located → Bool) (tokens : List Located) :
    (tokens.dropWhile p).length ≤ tokens.length :=
  (List.dropWhile_sublist p).length_le

mutual

/-- A string, a constant, a table or an array. -/
def item? (stop : Place) (tokens : List Located) : Except Fault (Parsed Value tokens) :=
  match tokens with
  | ⟨.string content, _, _⟩ :: rest => .ok ⟨.text content, rest, Nat.lt_succ_self _⟩
  | ⟨.constant value, _, _⟩ :: rest => .ok ⟨value, rest, Nat.lt_succ_self _⟩
  | ⟨.openTable, _, _⟩ :: rest => do
    let body ← entries? stop [] rest
    return ⟨.table body.result, body.rest, Nat.lt_succ_of_lt body.shorter⟩
  | ⟨.openArray, _, _⟩ :: rest => do
    let body ← elements? stop (rest.dropWhile isSeparator)
    return ⟨.list body.result, body.rest,
      Nat.lt_succ_of_lt (Nat.lt_of_lt_of_le body.shorter (length_skip_le isSeparator rest))⟩
  | tokens => .error (faultAt stop (.unsupportedValue (next? tokens)) tokens)
termination_by (tokens.length, 0)
decreasing_by
  · exact Prod.Lex.left _ _ (Nat.lt_succ_self _)
  · exact Prod.Lex.left _ _ (Nat.lt_succ_of_le (length_skip_le _ _))

/-- The items that follow commas. -/
def moreItems? (stop : Place) (tokens : List Located) :
    Except Fault { found : List Value × List Located // found.2.length ≤ tokens.length } :=
  match tokens with
  | ⟨.comma, _, _⟩ :: rest => do
    have hskip := length_skip_le isLineEnd rest
    let item ← item? stop (rest.dropWhile isLineEnd)
    have hitem := item.shorter
    let more ← moreItems? stop item.rest
    have hmore := more.2
    return ⟨(item.result :: more.1.1, more.1.2), by simp only [List.length_cons]; omega⟩
  | tokens => .ok ⟨([], tokens), Nat.le_refl _⟩
termination_by (tokens.length, 0)
decreasing_by
  · exact Prod.Lex.left _ _ (Nat.lt_succ_of_le hskip)
  · exact Prod.Lex.left _ _ (by simp only [List.length_cons]; omega)

/-- One item or several with commas between them. -/
def items? (stop : Place) (tokens : List Located) :
    Except Fault (Parsed (Value × List Value) tokens) := do
  let item ← item? stop tokens
  have hitem := item.shorter
  let more ← moreItems? stop item.rest
  have hmore := more.2
  return ⟨(item.result, more.1.1), more.1.2, by omega⟩
termination_by (tokens.length, 1)
decreasing_by
  · exact Prod.Lex.right _ Nat.zero_lt_one
  · exact Prod.Lex.left _ _ hitem

/-- The entries of a table after those read already, and its closing bracket. -/
def entries? (stop : Place) (table : Table) (tokens : List Located) :
    Except Fault (Parsed Table tokens) :=
  have hskip := length_skip_le isSeparator tokens
  match h : tokens.dropWhile isSeparator with
  | [] => .error (faultAt stop (.noKey none) [])
  | ⟨.closeTable, _, _⟩ :: rest =>
    .ok ⟨table, rest, by simp only [h, List.length_cons] at hskip; omega⟩
  | token :: rest =>
    match key? token.token with
    | none => .error ⟨.noKey (some token.token), token.line, token.column⟩
    | some key =>
      match hr : rest with
      | ⟨.equals, _, _⟩ :: afterEquals => do
        have hline := length_skip_le isLineEnd afterEquals
        let value ← items? stop (afterEquals.dropWhile isLineEnd)
        have hvalue := value.shorter
        match next? value.rest with
        | some .newLine | some .semicolon | some .closeTable => do
          let body ← entries? stop (table.insert key (valueOf value.result.1 value.result.2)) value.rest
          have hbody := body.shorter
          return ⟨body.result, body.rest, by simp only [h, List.length_cons] at hskip; omega⟩
        | _ => .error (faultAt stop (.noSeparatorAfter key) value.rest)
      | rest => .error (faultAt stop (.expected (some .equals) (next? rest)) rest)
termination_by (tokens.length, 2)
decreasing_by all_goals
  simp only [h, List.length_cons] at hskip
  exact Prod.Lex.left _ _ (by omega)

/-- The elements of an array, and its closing bracket. -/
def elements? (stop : Place) (tokens : List Located) :
    Except Fault (Parsed (List Value) tokens) :=
  match tokens with
  | ⟨.closeArray, _, _⟩ :: rest => .ok ⟨[], rest, Nat.lt_succ_self _⟩
  | tokens => do
    let value ← items? stop tokens
    have hvalue := value.shorter
    match next? value.rest with
    | some .newLine | some .semicolon | some .comma | some .closeArray => do
      have hskip := length_skip_le isArraySeparator value.rest
      let body ← elements? stop (value.rest.dropWhile isArraySeparator)
      have hbody := body.shorter
      return ⟨value.result.1 :: value.result.2 ++ body.result, body.rest, by omega⟩
    | _ => .error (faultAt stop .noSeparatorInArray value.rest)
termination_by (tokens.length, 2)
decreasing_by
  · exact Prod.Lex.right _ (by decide)
  · exact Prod.Lex.left _ _ (by omega)

end

/-- The table that the tokens of a text make. -/
def document? (stop : Place) (tokens : List Located) : Except Fault Table :=
  match tokens.dropWhile isSeparator with
  | ⟨.openTable, _, _⟩ :: rest => do
    let body ← entries? stop [] rest
    match body.rest.dropWhile isSeparator with
    | [] => return body.result
    | rest => throw (faultAt stop .contentAfterTable rest)
  | rest => .error (faultAt stop (.expected (some .openTable) (next? rest)) rest)

/-- The table that a data file holds. -/
def read (text : List Char) : Except Fault Table := do
  let (tokens, stop) ← tokens text
  document? stop tokens

/-- What a table has under a key: under the key itself, or else under the first key that is the same
in lower case. -/
def lookup? (table : Table) (key : String) : Option Value :=
  (table.get? key).or <|
    (table.find? fun entry => Text.lowerString entry.1 == Text.lowerString key).map (·.2)

end DscAudit.DataFile

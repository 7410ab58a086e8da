import DscAudit.Yaml.Source
import DscAudit.Yaml.Token

/-!
# Finding the tokens of a YAML text

That a scalar or a collection is a key is known only when its colon comes; so a slot is kept in front of
everything that may be one, and is filled then.  A reader of the tokens gets those behind an open slot only
when it is settled; so if the text is broken off, the tokens before the first open slot are all that it
gets.
-/

namespace DscAudit.Yaml

/-- Tokens, and what stops those who look for more than these. -/
structure TokenList where
  tokens : List Token
  stop : Refusal

/-- A token, or a slot that may turn out to be in front of a key. -/
inductive Piece where
  | token (token : Token)
  | slot (number : Nat)

/-- What may turn out to be a key: its slot and its place, and whether it has to be one. -/
structure KeyCandidate where
  slot : Nat
  required : Bool
  start : Cursor

/-- How far a text is scanned.  The pieces are in reverse order. -/
structure Scanner where
  cursor : Cursor
  flowDepth : Nat
  indent : Int
  outerIndents : List Int
  keyAllowed : Bool
  /-- At most one candidate for each depth of brackets. -/
  candidates : List (Nat × KeyCandidate)
  pieces : List Piece
  /-- For each slot that is in front of a key, whether a mapping starts there. -/
  slots : Array (Option Bool)

namespace Scanner

def start (source : Source) : Scanner :=
  { cursor := Cursor.start source.text source.broken.isSome, flowDepth := 0, indent := -1, outerIndents := [], keyAllowed := true
    candidates := [], pieces := [], slots := #[] }

def inFlow (s : Scanner) : Bool := s.flowDepth != 0

def push (s : Scanner) (token : Token) : Scanner := { s with pieces := .token token :: s.pieces }

/-- A token that the next characters are. -/
def pushOver (s : Scanner) (token : Token) (count : Nat) : Scanner :=
  { s.push token with cursor := s.cursor.advance count }

/-- The tokens of pieces, slots in front of keys being filled. -/
def fill (s : Scanner) (pieces : List Piece) : List Token :=
  pieces.flatMap fun
    | .token token => [token]
    | .slot number =>
      match s.slots.getD number none with
      | some true => [.blockMappingStart, .key]
      | some false => [.key]
      | none => []

/-! ## Blanks and candidates -/

/-- Skips blanks, comments and line ends.  A key may start on each new line outside brackets. -/
def skipToToken : (fuel : Nat) → Scanner → Scanner
  | 0, s => s
  | fuel + 1, s =>
    let cursor := (s.cursor.skip (· == ' ')).skipComment
    match cursor.lineBreak? with
    | none => { s with cursor := cursor }
    | some (_, cursor) =>
      skipToToken fuel { s with cursor := cursor, keyAllowed := s.keyAllowed || !s.inFlow }

/-- Drops candidates that can be keys no more: those on earlier lines or too far away.  One that has
to be a key makes the text invalid. -/
def dropStale (s : Scanner) : Except Fault Scanner :=
  let isStale (key : KeyCandidate) : Bool :=
    key.start.line != s.cursor.line || key.start.index + 1024 < s.cursor.index
  if s.candidates.any fun entry => isStale entry.2 && entry.2.required then
    .error .within
  else .ok { s with candidates := s.candidates.filter fun entry => !isStale entry.2 }

/-- The candidate at the present depth. -/
def candidate? (s : Scanner) : Option KeyCandidate :=
  (s.candidates.find? fun entry => entry.1 == s.flowDepth).map (·.2)

/-- Drops the candidate at the present depth, which must not have to be a key. -/
def dropCandidate (s : Scanner) : Except Fault Scanner :=
  if s.candidate?.any (·.required) then .error .within
  else .ok { s with candidates := s.candidates.filter fun entry => entry.1 != s.flowDepth }

/-- Keeps a slot for a key that may start here. -/
def saveCandidate (s : Scanner) : Except Fault Scanner :=
  if s.keyAllowed then do
    let s ← s.dropCandidate
    let key : KeyCandidate :=
      ⟨s.slots.size, !s.inFlow && s.indent == s.cursor.column, s.cursor⟩
    return { s with
      candidates := (s.flowDepth, key) :: s.candidates
      pieces := .slot s.slots.size :: s.pieces
      slots := s.slots.push none }
  else .ok s

/-- Is the piece the slot of a candidate that is still open? -/
def isOpen (s : Scanner) : Piece → Bool
  | .token _ => false
  | .slot number => s.candidates.any fun entry => entry.2.slot == number

/-- The tokens before the first open slot. -/
def settled (s : Scanner) : List Token :=
  s.fill (s.pieces.reverse.takeWhile fun piece => !s.isOpen piece)

/-! ## Blocks -/

/-- Closes blocks that are indented more than a column. -/
def closeBlocks (column : Int) : (outer : List Int) → Scanner → Scanner
  | [], s => s
  | next :: outer, s =>
    if column < s.indent then
      closeBlocks column outer
        { s.push .blockEnd with indent := next, outerIndents := outer }
    else s

/-- Closes blocks that are indented more than a column, unless brackets are open. -/
def unwind (s : Scanner) (column : Int) : Scanner :=
  if s.inFlow then s else closeBlocks column s.outerIndents s

/-- Opens a block at a column if that is indented more than the block around it. -/
def openBlock (s : Scanner) (column : Nat) (token : Token) : Scanner :=
  if s.indent < column then
    { s.push token with indent := column, outerIndents := s.indent :: s.outerIndents }
  else s

/-! ## Tokens -/

/-- A directive or the mark of a document, which closes all blocks. -/
def fetchOutside (s : Scanner) (found : Except Fault (Token × Cursor)) : Except Fault Scanner := do
  let s ← (s.unwind (-1)).dropCandidate
  let (token, cursor) ← found
  return { s.push token with keyAllowed := false, cursor := cursor }

/-- An opening bracket, which may start a key. -/
def fetchOpening (s : Scanner) (token : Token) : Except Fault Scanner := do
  let s ← s.saveCandidate
  return { s.pushOver token 1 with flowDepth := s.flowDepth + 1, keyAllowed := true }

def fetchClosing (s : Scanner) (token : Token) : Except Fault Scanner := do
  let s ← s.dropCandidate
  return { s.pushOver token 1 with flowDepth := s.flowDepth - 1, keyAllowed := false }

def fetchComma (s : Scanner) : Except Fault Scanner := do
  let s ← s.dropCandidate
  return { s.pushOver .flowEntry 1 with keyAllowed := true }

/-- Opens a block for the mark of an item, a key or a value, unless brackets are open; such a mark may
stand only where a key may. -/
def openFor (s : Scanner) (token : Token) : Except Fault Scanner :=
  if s.inFlow then .ok s
  else if s.keyAllowed then .ok (s.openBlock s.cursor.column token)
  else .error .within

/-- The mark of an item, which may open a sequence. -/
def fetchEntry (s : Scanner) : Except Fault Scanner := do
  let s ← (← s.openFor .blockSequenceStart).dropCandidate
  return { s.pushOver .blockEntry 1 with keyAllowed := true }

/-- The mark of a key, which may open a mapping. -/
def fetchKey (s : Scanner) : Except Fault Scanner := do
  let s ← (← s.openFor .blockMappingStart).dropCandidate
  return { s.pushOver .key 1 with keyAllowed := !s.inFlow }

/-- The mark of a value.  What may be a key in front of it is one, and may open a mapping. -/
def fetchValue (s : Scanner) : Except Fault Scanner :=
  match s.candidate? with
  | some key =>
    let opens := !s.inFlow && decide (s.indent < key.start.column)
    let s := { s with
      candidates := s.candidates.filter fun entry => entry.1 != s.flowDepth
      slots := s.slots.setIfInBounds key.slot (some opens)
      indent := if opens then key.start.column else s.indent
      outerIndents := if opens then s.indent :: s.outerIndents else s.outerIndents
      keyAllowed := false }
    .ok (s.pushOver .value 1)
  | none => do
    let s ← s.openFor .blockMappingStart
    let s ← { s with keyAllowed := !s.inFlow }.dropCandidate
    return s.pushOver .value 1

/-- A token that may start a key but allows none right behind it. -/
def fetchSimple (s : Scanner) (found : Except Fault (Token × Cursor)) : Except Fault Scanner := do
  let s ← s.saveCandidate
  let (token, cursor) ← found
  return { s.push token with keyAllowed := false, cursor := cursor }

/-- A block scalar, which is no key. -/
def fetchBlock (s : Scanner) (folded : Bool) : Except Fault Scanner := do
  let s ← s.dropCandidate
  let (text, cursor) ← blockScalar folded s.indent s.cursor.forward
  return { s.push (.scalar (String.ofList text) false) with keyAllowed := true, cursor := cursor }

def quoted (cursor : Cursor) (quote : Char) : Except Fault (Token × Cursor) := do
  let (text, cursor) ← quotedFrom quote [] cursor.bound cursor.forward
  return (.scalar (String.ofList text) false, cursor)

/-- A plain scalar; a key may follow it if it ends at the start of a line. -/
def fetchPlain (s : Scanner) : Except Fault Scanner := do
  let s ← s.saveCandidate
  let (text, cursor, keyAllowed) ←
    plainFrom s.inFlow (s.indent + 1) [] [] false s.cursor.bound s.cursor
  return { s.push (.scalar (String.ofList text) true) with keyAllowed := keyAllowed, cursor := cursor }

/-- Characters that start no plain scalar, or only before certain others. -/
def isIndicator (c : Char) : Bool :=
  isSpace c || "-?:,[]\x7b\x7d#&*!|>\x27\"%@\x60".contains c

/-- Can a plain scalar start with an indicator, where other characters than a space follow it? -/
def startsPlain (inFlow : Bool) (c : Char) : Bool := c == '-' || (!inFlow && (c == '?' || c == ':'))

/-- The mark of an item, a key or a value. -/
def fetchMark (s : Scanner) (c : Char) : Except Fault Scanner :=
  if c == '-' then s.fetchEntry else if c == '?' then s.fetchKey else s.fetchValue

/-- The token that starts at the cursor with an indicator, which is no mark of a document. -/
def fetchIndicated (s : Scanner) (c : Char) : Except Fault Scanner := do
  let isMark := c == '-' || c == '?' || c == ':'
  if c == '[' then s.fetchOpening .flowSequenceStart
  else if c == '\x7b' then s.fetchOpening .flowMappingStart
  else if c == ']' then s.fetchClosing .flowSequenceEnd
  else if c == '\x7d' then s.fetchClosing .flowMappingEnd
  else if c == ',' then s.fetchComma
  else if c == '*' then
    s.fetchSimple ((anchorName s.cursor.forward).map fun (name, cursor) => (.reference name, cursor))
  else if c == '&' then
    s.fetchSimple ((anchorName s.cursor.forward).map fun (name, cursor) => (.anchor name, cursor))
  else if c == '!' then s.fetchSimple (tag s.cursor)
  else if c == '|' && !s.inFlow then s.fetchBlock false
  else if c == '>' && !s.inFlow then s.fetchBlock true
  else if c == '\x27' || c == '"' then s.fetchSimple (quoted s.cursor c)
  else if isMark && c != '-' && s.inFlow then s.fetchMark c
  else
    s.cursor.lookAt 2
    let isAlone := nextIsOrEnd isSpace s.cursor.rest.tail
    if isMark && isAlone then s.fetchMark c
    else if startsPlain s.inFlow c && !isAlone then s.fetchPlain
    else .error .within

/-- The token that starts at the cursor, where there is text left. -/
def fetch (s : Scanner) : Except Fault Scanner := do
  let atLineStart := s.cursor.column == 0
  match s.cursor.rest.head? with
  | none => s.cursor.invalid
  | some c =>
    if c == '%' && atLineStart then s.fetchOutside (directive s.cursor)
    else
      let isMarker ← if atLineStart && (c == '-' || c == '.') then s.cursor.isAtMarker else pure false
      if isMarker then
        s.fetchOutside
          (.ok (if c == '-' then .documentStart else .documentEnd, s.cursor.advance 3))
      else if isIndicator c then s.fetchIndicated c
      else s.fetchPlain

/-- The end of the text, which closes all blocks. -/
def finish (s : Scanner) : Except Fault Scanner := do
  let s ← (s.unwind (-1)).dropCandidate
  return { s.push .streamEnd with candidates := [] }

/-- The next token, or the end of the text. -/
def next (s : Scanner) : Except Fault Scanner := do
  let s ← s.dropStale
  let s := s.unwind s.cursor.column
  if s.cursor.rest.isEmpty then s.finish else s.fetch

/-- Scans to the end of the text.  If it is broken off there, whatever gets to that end finds out why. -/
def scan (broken : Option Refusal) : (fuel : Nat) → Scanner → TokenList
  | 0, s => ⟨s.settled, .invalid⟩
  | fuel + 1, s =>
    match s.dropStale with
    | .error fault => ⟨s.settled, fault.refusal⟩
    | .ok s =>
      let ahead := s.skipToToken s.cursor.bound
      let isEnd := ahead.cursor.rest.isEmpty
      match (if isEnd then broken else none), ahead.next with
      | some refusal, _ => ⟨s.settled, refusal⟩
      | none, .error fault =>
        ⟨s.settled, if fault.atEnd then broken.getD fault.refusal else fault.refusal⟩
      | none, .ok found =>
        if isEnd then ⟨found.settled, .invalid⟩
        else
          match (if found.cursor.rest.isEmpty then broken else none) with
          | some refusal => ⟨s.settled, refusal⟩
          | none => scan broken fuel found

end Scanner

/-- The text behind a byte order mark, if it starts with one. -/
def skipMark (cursor : Cursor) : Cursor :=
  if nextIs (· == '\uFEFF') cursor.rest then cursor.forward else cursor

/-- The tokens of a text. -/
def Source.tokens (source : Source) : TokenList :=
  let start := Scanner.start source
  Scanner.scan source.broken start.cursor.bound { start with cursor := skipMark start.cursor }

end DscAudit.Yaml

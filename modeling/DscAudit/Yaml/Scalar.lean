import DscAudit.Text.Digit
import DscAudit.Yaml.Cursor

/-!
# Scalars in a YAML text

A scalar is plain, between quotes, or a block.  Reading one gives its text and the cursor behind it.
-/

namespace DscAudit.Yaml

/-! ## Plain scalars -/

/-- How many characters of a plain scalar come next without a blank, `count` having come before.  A colon
ends it before a blank, and within brackets before some marks; these marks end it there as well. -/
def plainLength (inFlow : Bool) (count : Nat) : List Char → Nat
  | [] => count
  | c :: rest =>
    let ends :=
      isSpace c ||
        (c == ':' && nextIsOrEnd (fun d => isSpace d || (inFlow && ",[]\x7b\x7d".contains d)) rest) ||
        (inFlow && ",?[]\x7b\x7d".contains c)
    if ends then count else plainLength inFlow (count + 1) rest

/-- The line ends and blanks at the start of the lines of a scalar: the texts of the line ends, and
the cursor behind them.  There is none if a document starts or ends on one of the lines. -/
def plainBreaks : (fuel : Nat) → Cursor → Except Fault (Option (List Char) × Cursor)
  | 0, cursor => .ok (some [], cursor)
  | fuel + 1, cursor =>
    if nextIs (· == ' ') cursor.rest then plainBreaks fuel cursor.forward
    else
      match cursor.lineBreak? with
      | none => .ok (some [], cursor)
      | some (c, behind) => do
        if ← behind.isAtMarker then return (none, behind)
        else
          let (breaks, behind) ← plainBreaks fuel behind
          return (breaks.map (c :: ·), behind)

/-- What a line end and those after it stand for: a single line feed is a blank. -/
def foldBreaks (first : Char) (more : List Char) : List Char :=
  if first != '\n' then first :: more else if more.isEmpty then [' '] else more

/-- What separates two parts of a plain scalar, empty if the scalar ends; the cursor behind it, and
whether a line ended. -/
def plainSpaces (cursor : Cursor) : Except Fault (List Char × Cursor × Bool) :=
  let (blanks, cursor) := cursor.span (· == ' ')
  match cursor.lineBreak? with
  | none => .ok (blanks, cursor, false)
  | some (first, cursor) => do
    if ← cursor.isAtMarker then return ([], cursor, true)
    else
      match ← plainBreaks cursor.bound cursor with
      | (some breaks, cursor) => return (foldBreaks first breaks, cursor, true)
      | (none, cursor) => return ([], cursor, true)

/-- A plain scalar and the cursor behind it, and whether that is at the start of a line, so that a key
may follow.  On later lines it is indented by at least `indent` columns.  What has been read of it is
`found`, in reverse order, and then come `spaces` if it goes on. -/
def plainFrom (inFlow : Bool) (indent : Int) (found spaces : List Char) (keyAllowed : Bool) :
    (fuel : Nat) → Cursor → Except Fault (List Char × Cursor × Bool)
  | 0, cursor => .ok (found.reverse, cursor, keyAllowed)
  | fuel + 1, cursor => do
    let length := plainLength inFlow 0 cursor.rest
    let behind := cursor.advance length
    if nextIs (· == '#') cursor.rest then return (found.reverse, cursor, keyAllowed)
    else
      if nextIs (· == ':') behind.rest then behind.lookAt 2
      if length == 0 then return (found.reverse, cursor, keyAllowed)
      else
        let found := (cursor.rest.take length).reverse ++ (spaces.reverse ++ found)
        let (spaces, cursor, keyAllowed) ← plainSpaces behind
        if spaces.isEmpty || nextIs (· == '#') cursor.rest || (!inFlow && cursor.column < indent) then
          return (found.reverse, cursor, keyAllowed)
        else plainFrom inFlow indent found spaces keyAllowed fuel cursor

/-! ## Scalars between quotes -/

/-- The character that a one-letter escape stands for. -/
def escaped? : Char → Option Char
  | '0' => some '\x00'
  | 'a' => some '\x07'
  | 'b' => some '\x08'
  | 't' => some '\t'
  | '\t' => some '\t'
  | 'n' => some '\n'
  | 'v' => some '\x0b'
  | 'f' => some '\x0c'
  | 'r' => some '\r'
  | 'e' => some '\x1b'
  | ' ' => some ' '
  | '"' => some '"'
  | '\\' => some '\\'
  | '/' => some '/'
  | 'N' => some '\u0085'
  | '_' => some '\u00A0'
  | 'L' => some '\u2028'
  | 'P' => some '\u2029'
  | _ => none

/-- How many hexadecimal digits follow an escape. -/
def escapeWidth? : Char → Option Nat
  | 'x' => some 2
  | 'u' => some 4
  | 'U' => some 8
  | _ => none

/-- The number that hexadecimal digits write, `value` being that of the digits before. -/
def hexNumber (value : Nat) : (width : Nat) → List Char → Except Fault Nat
  | 0, _ => .ok value
  | _ + 1, [] => .error ⟨.invalid, true⟩
  | width + 1, c :: rest =>
    match Text.hexValue? c with
    | some digit => hexNumber (16 * value + digit) width rest
    | none => .error .within

/-- The character of a code.  Beyond the last one, codes of more than 31 bits are told apart. -/
def character (code : Nat) : Except Fault Char :=
  if code < 0x110000 then .ok (Char.ofNat code)
  else if code < 0x80000000 then .error ⟨.defect .noSuchCharacter, false⟩
  else .error ⟨.defect .characterTooLarge, false⟩

/-- The line ends at the start of the lines of a quoted scalar, where no document starts or ends. -/
def quotedBreaks : (fuel : Nat) → Cursor → Except Fault (List Char × Cursor)
  | 0, cursor => .ok ([], cursor)
  | fuel + 1, cursor => do
    if ← cursor.isAtMarker then cursor.invalid
    else
      let cursor := cursor.skip fun c => c == ' ' || c == '\t'
      match cursor.lineBreak? with
      | none => return ([], cursor)
      | some (c, cursor) =>
        let (breaks, cursor) ← quotedBreaks fuel cursor
        return (c :: breaks, cursor)

/-- An escape behind its backslash, and the cursor behind it. -/
def escape (cursor : Cursor) : Except Fault (List Char × Cursor) :=
  match cursor.next? with
  | none => cursor.invalid
  | some c =>
    match escaped? c, escapeWidth? c with
    | some c, _ => .ok ([c], cursor.forward)
    | none, some width => do
      let c ← character (← hexNumber 0 width cursor.forward.rest)
      return ([c], cursor.forward.advance width)
    | none, none =>
      match cursor.lineBreak? with
      | none => cursor.invalid
      | some (_, behind) => quotedBreaks behind.bound behind

/-- Does the character stand for itself between quotes wherever it is? -/
def isOrdinary (c : Char) : Bool := !(isSpace c || c == '\x27' || c == '"' || c == '\\')

/-- The blanks that come next in a quoted scalar: those within a line stay, those around line ends go. -/
def quotedSpaces (cursor : Cursor) : Except Fault (List Char × Cursor) :=
  let (blanks, cursor) := cursor.span fun c => c == ' ' || c == '\t'
  match cursor.lineBreak? with
  | none => if cursor.rest.isEmpty then cursor.invalid else .ok (blanks, cursor)
  | some (first, cursor) => do
    let (breaks, cursor) ← quotedBreaks cursor.bound cursor
    return (foldBreaks first breaks, cursor)

/-- The content of a scalar behind its opening quote, and the cursor behind the closing one; `found` is
what has been read of it, in reverse order. -/
def quotedFrom (quote : Char) (found : List Char) :
    (fuel : Nat) → Cursor → Except Fault (List Char × Cursor)
  | 0, cursor => cursor.invalid
  | fuel + 1, cursor => do
    let (plain, cursor) := cursor.span isOrdinary
    let found := plain.reverse ++ found
    match cursor.rest with
    | [] => cursor.invalid
    | c :: rest =>
      if isSpace c then
        let (spaces, cursor) ← quotedSpaces cursor
        quotedFrom quote (spaces.reverse ++ found) fuel cursor
      else if c == quote then
        if quote == '\x27' then cursor.lookAt 2
        if quote == '\x27' && nextIs (· == '\x27') rest then
          quotedFrom quote ('\x27' :: found) fuel (cursor.advance 2)
        else return (found.reverse, cursor.forward)
      else if c == '\\' && quote == '"' then
        let (escaped, cursor) ← escape cursor.forward
        quotedFrom quote (escaped.reverse ++ found) fuel cursor
      else quotedFrom quote (c :: found) fuel cursor.forward

/-! ## Block scalars -/

/-- What becomes of the line ends at the end of a block scalar. -/
inductive Chomping where
  | strip
  | clip
  | keep

def chomping? : Char → Option Chomping
  | '+' => some .keep
  | '-' => some .strip
  | _ => none

/-- An indentation of one to nine columns that a digit gives. -/
def increment? (c : Char) : Option Nat :=
  if c.isDigit && c != '0' then some (c.toNat - 0x30) else none

/-- The head of a block scalar: the chomping, the indentation if it is given, and the cursor on the
next line. -/
def blockHead (cursor : Cursor) : Except Fault (Chomping × Option Nat × Cursor) :=
  let chompingAt (cursor : Cursor) := cursor.next?.bind chomping?
  let incrementAt (cursor : Cursor) := cursor.next?.bind increment?
  let (chomping, increment, cursor) := match chompingAt cursor with
    | some chomping =>
      match incrementAt cursor.forward with
      | some increment => (chomping, some increment, cursor.advance 2)
      | none => (chomping, none, cursor.forward)
    | none =>
      match incrementAt cursor with
      | some increment =>
        match chompingAt cursor.forward with
        | some chomping => (chomping, some increment, cursor.advance 2)
        | none => (.clip, some increment, cursor.forward)
      | none => (.clip, none, cursor)
  if nextIsOrEnd (fun c => c == ' ' || isBreak c) cursor.rest then
    match cursor.finishLine? with
    | some cursor => .ok (chomping, increment, cursor)
    | none => .error .within
  else cursor.invalid

/-- The line ends before the first line of a block scalar, the widest indentation of lines so far, and
the cursor behind them. -/
def blockIndentation (widest : Nat) : (fuel : Nat) → Cursor → List Char × Nat × Cursor
  | 0, cursor => ([], widest, cursor)
  | fuel + 1, cursor =>
    if nextIs (· == ' ') cursor.rest then
      blockIndentation (max widest cursor.forward.column) fuel cursor.forward
    else
      match cursor.lineBreak? with
      | none => ([], widest, cursor)
      | some (c, cursor) =>
        let (breaks, widest, cursor) := blockIndentation widest fuel cursor
        (c :: breaks, widest, cursor)

/-- The cursor behind blanks, but no farther than a column. -/
def skipIndent (indent : Nat) (cursor : Cursor) : Cursor :=
  cursor.advance (min (indent - cursor.column) (cursor.rest.takeWhile (· == ' ')).length)

/-- The ends of empty lines, and the cursor behind the indentation of the next line. -/
def blockBreaks (indent : Nat) : (fuel : Nat) → Cursor → List Char × Cursor
  | 0, cursor => ([], cursor)
  | fuel + 1, cursor =>
    let cursor := skipIndent indent cursor
    match cursor.lineBreak? with
    | none => ([], cursor)
    | some (c, cursor) =>
      let (breaks, cursor) := blockBreaks indent fuel cursor
      (c :: breaks, cursor)

/-- Is the cursor at a line of the block? -/
def atBlockLine (indent : Nat) (cursor : Cursor) : Bool :=
  cursor.column == indent && !cursor.rest.isEmpty

def startsBlank (cursor : Cursor) : Bool := nextIs (fun c => c == ' ' || c == '\t') cursor.rest

/-- The lines of a block scalar with what joins them, then the last line end and the ends of empty
lines behind it, and the cursor behind all. -/
def blockLines (folded : Bool) (indent : Nat) (breaks : List Char) :
    (fuel : Nat) → Cursor → List Char × List Char × List Char × Cursor
  | 0, cursor => ([], [], breaks, cursor)
  | fuel + 1, cursor =>
    if atBlockLine indent cursor then
      let (line, behind) := cursor.span (!isBreak ·)
      let (lineEnd, behind) := match behind.lineBreak? with
        | some (c, behind) => ([c], behind)
        | none => ([], behind)
      let (next, behind) := blockBreaks indent behind.bound behind
      if atBlockLine indent behind then
        let joint :=
          if folded && lineEnd == ['\n'] && !startsBlank cursor && !startsBlank behind then
            if next.isEmpty then [' '] else []
          else lineEnd
        let (more, lineEnd, tail, behind) := blockLines folded indent next fuel behind
        (breaks ++ line ++ joint ++ more, lineEnd, tail, behind)
      else (breaks ++ line, lineEnd, next, behind)
    else ([], [], breaks, cursor)

/-- A block scalar behind its mark, and the cursor behind it.  Its lines are indented more than the
collection around it, whose indentation is given. -/
def blockScalar (folded : Bool) (outer : Int) (cursor : Cursor) :
    Except Fault (List Char × Cursor) := do
  let (chomping, increment, cursor) ← blockHead cursor
  let least := max 1 (outer + 1).toNat
  let fuel := cursor.bound
  let (indent, breaks, cursor) := match increment with
    | some increment =>
      let indent := least + increment - 1
      let (breaks, cursor) := blockBreaks indent fuel cursor
      (indent, breaks, cursor)
    | none =>
      let (breaks, widest, cursor) := blockIndentation 0 fuel cursor
      (max least widest, breaks, cursor)
  let (text, lineEnd, tail, cursor) := blockLines folded indent breaks fuel cursor
  let text := match chomping with
    | .strip => text
    | .clip => text ++ lineEnd
    | .keep => text ++ lineEnd ++ tail
  return (text, cursor)

end DscAudit.Yaml

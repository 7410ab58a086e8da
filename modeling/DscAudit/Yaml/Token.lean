import DscAudit.Text.Encoding
import DscAudit.Yaml.Scalar

/-!
# Tokens of a YAML text

Blocks are marked by tokens at the places where indentation opens and closes them.
-/

namespace DscAudit.Yaml

inductive Token where
  | versionDirective (major : Nat)
  | tagDirective (handle suffix : String)
  | otherDirective
  | documentStart
  | documentEnd
  | streamEnd
  | blockSequenceStart
  | blockMappingStart
  | blockEnd
  | flowSequenceStart
  | flowMappingStart
  | flowSequenceEnd
  | flowMappingEnd
  | blockEntry
  | flowEntry
  | key
  | value
  | reference (name : String)
  | anchor (name : String)
  | tag (handle : Option String) (suffix : String)
  | scalar (text : String) (isPlain : Bool)
  deriving DecidableEq

/-!
## What stands in front of a node

Directives stand in front of a document, anchors and tags in front of a node.
-/

open Text (Octets)

def isWordChar (c : Char) : Bool := c.isAlphanum || c == '-' || c == '_'

/-- Does a directive, or a part of one, end here? -/
def endsWord (cursor : Cursor) : Bool := nextIsOrEnd (fun c => c == ' ' || isBreak c) cursor.rest

/-! ## Tags -/

/-- Characters of a tag that are written as they are. -/
def isTagChar (c : Char) : Bool := c.isAlphanum || "-;/?:@&=+$,_.!~*\x27()[]".contains c

/-- The octets that escapes with two hexadecimal digits write, and the cursor behind them. -/
def tagEscapes : (fuel : Nat) → Cursor → Except Fault (Octets × Cursor)
  | 0, cursor => .ok ([], cursor)
  | fuel + 1, cursor =>
    if nextIs (· == '%') cursor.rest then do
      let octet ← hexNumber 0 2 cursor.forward.rest
      let (octets, behind) ← tagEscapes fuel (cursor.advance 3)
      return (octet.toUInt8 :: octets, behind)
    else .ok ([], cursor)

/-- The characters of a tag and the cursor behind them. -/
def tagText : (fuel : Nat) → Cursor → Except Fault (List Char × Cursor)
  | 0, cursor => .ok ([], cursor)
  | fuel + 1, cursor =>
    if nextIs isTagChar cursor.rest then do
      let (text, cursor) := cursor.span isTagChar
      let (more, cursor) ← tagText fuel cursor
      return (text ++ more, cursor)
    else if nextIs (· == '%') cursor.rest then do
      let (octets, cursor) ← tagEscapes cursor.bound cursor
      match Text.Utf8.strict? octets with
      | none => cursor.invalid
      | some text =>
        let (more, cursor) ← tagText fuel cursor
        return (text ++ more, cursor)
    else .ok ([], cursor)

/-- The characters of a tag, at least one. -/
def tagSuffix (cursor : Cursor) : Except Fault (String × Cursor) := do
  let (text, behind) ← tagText cursor.bound cursor
  if behind.index = cursor.index then cursor.invalid else return (String.ofList text, behind)

/-- A handle: an exclamation mark, or a word between two of them. -/
def tagHandle (cursor : Cursor) : Except Fault (String × Cursor) :=
  match cursor.rest with
  | '!' :: rest =>
    if nextIs (· == ' ') rest then .ok ("!", cursor.forward)
    else
      let (word, behind) := cursor.forward.span isWordChar
      if nextIs (· == '!') behind.rest then
        .ok (String.ofList ('!' :: word ++ ['!']), behind.forward)
      else behind.invalid
  | _ => cursor.invalid

/-- Is there an exclamation mark before the next blank? -/
def hasHandle (cursor : Cursor) : Except Fault Bool := do
  let word := cursor.rest.takeWhile fun c => !(c == ' ' || isBreak c || c == '!')
  cursor.lookAt (word.length + 1)
  return nextIs (· == '!') (cursor.rest.drop word.length)

/-- A tag, and the cursor behind it. -/
def tag (cursor : Cursor) : Except Fault (Token × Cursor) := do
  let (token, cursor) ←
    match cursor.rest with
    | '!' :: '<' :: _ => do
      let (suffix, cursor) ← tagSuffix (cursor.advance 2)
      if nextIs (· == '>') cursor.rest then pure (Token.tag none suffix, cursor.forward)
      else cursor.invalid
    | '!' :: rest => do
      cursor.lookAt 2
      if nextIsOrEnd isSpace rest then pure (Token.tag none "!", cursor.forward)
      else if ← hasHandle cursor.forward then
        let (handle, cursor) ← tagHandle cursor
        let (suffix, cursor) ← tagSuffix cursor
        pure (Token.tag (some handle) suffix, cursor)
      else
        let (suffix, cursor) ← tagSuffix cursor.forward
        pure (Token.tag (some "!") suffix, cursor)
    | _ => cursor.invalid
  if endsWord cursor then return (token, cursor) else cursor.invalid

/-! ## Directives -/

/-- A number in a directive. -/
def directiveNumber (cursor : Cursor) : Except Fault (Nat × Cursor) :=
  let (digits, behind) := cursor.span Char.isDigit
  if digits.isEmpty then cursor.invalid
  else .ok (digits.foldl (fun n c => 10 * n + (c.toNat - 0x30)) 0, behind)

/-- The version of a directive: two numbers with a point between them. -/
def version (cursor : Cursor) : Except Fault (Token × Cursor) := do
  let (major, cursor) ← directiveNumber (cursor.skip (· == ' '))
  if nextIs (· == '.') cursor.rest then
    let (_, cursor) ← directiveNumber cursor.forward
    if endsWord cursor then return (.versionDirective major, cursor) else cursor.invalid
  else cursor.invalid

/-- The handle of a directive and what it stands for. -/
def tagDirective (cursor : Cursor) : Except Fault (Token × Cursor) := do
  let (handle, cursor) ← tagHandle (cursor.skip (· == ' '))
  if nextIs (· == ' ') cursor.rest then
    let (suffix, cursor) ← tagSuffix (cursor.skip (· == ' '))
    if endsWord cursor then return (.tagDirective handle suffix, cursor) else cursor.invalid
  else cursor.invalid

/-- A directive, and the cursor on the next line. -/
def directive (cursor : Cursor) : Except Fault (Token × Cursor) := do
  let (name, cursor) := cursor.forward.span isWordChar
  if name.isEmpty || !endsWord cursor then cursor.invalid
  else
    let (token, cursor) ←
      if name = "YAML".toList then version cursor
      else if name = "TAG".toList then tagDirective cursor
      else pure (Token.otherDirective, cursor.skip (!isBreak ·))
    match cursor.finishLine? with
    | some cursor => return (token, cursor)
    | none => .error .within

/-! ## Anchors -/

/-- The name of an anchor or of a reference to one behind its mark. -/
def anchorName (cursor : Cursor) : Except Fault (String × Cursor) :=
  let (name, behind) := cursor.span isWordChar
  if name.isEmpty then cursor.invalid
  else if nextIsOrEnd (fun c => isSpace c || "?:,]\x7d%@\x60".contains c) behind.rest then
    .ok (String.ofList name, behind)
  else behind.invalid

end DscAudit.Yaml

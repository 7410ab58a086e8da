import DscAudit.Yaml.Kind
import DscAudit.Yaml.Token.Lexer

/-!
# Nodes of a YAML document

The tokens of a document make a node: a scalar, a sequence or a mapping.  The nodes of a document are
numbered, because a reference stands for the very node that the anchor of its name was put on, which may
be one that the reference is a part of.
-/

namespace DscAudit.Yaml

/-- The number of a node of a document. -/
abbrev NodeId := Nat

/-- What a node consists of. -/
inductive Content where
  | scalar (text : String)
  | sequence (items : List NodeId)
  | mapping (entries : List (NodeId × NodeId))

structure Node where
  kind : TagKind
  content : Content

/-- The nodes of a document and the one that the document is. -/
structure Document where
  nodes : Array Node
  root : NodeId

/-- What stands where there is no node. -/
def Node.leftOut : Node := ⟨.null, .scalar ""⟩

/-! ## Reading -/

/-- The tokens that are left, what stops those who look for more, what handles stand for, the nodes that
anchors were put on, and the nodes so far. -/
structure Composition where
  tokens : List Token
  stop : Refusal
  handles : List (String × String)
  anchors : List (String × NodeId)
  nodes : Array Node

/-- A step in reading the nodes of a document. -/
abbrev Compose := StateT Composition (Except Refusal)

namespace Compose

def invalid {α : Type} : Compose α := throw .invalid

/-- The next token. -/
def peek : Compose Token := do
  let composition ← get
  match composition.tokens with
  | token :: _ => return token
  | [] => throw composition.stop

/-- Goes behind the next token. -/
def skip : Compose Unit := modify fun composition =>
  { composition with tokens := composition.tokens.tail }

/-- Goes behind the next token if it is the given one, and tells whether it is. -/
def skipIf (token : Token) : Compose Bool := do
  if (← peek) = token then
    skip
    return true
  else return false

/-- Puts an anchor on a node. -/
def register (anchor : Option String) (id : NodeId) : Compose Unit := modify fun composition =>
  { composition with anchors := (anchor.map fun name => (name, id)).toList ++ composition.anchors }

/-- A new node. -/
def add (anchor : Option String) (node : Node) : Compose NodeId := do
  let id := (← get).nodes.size
  modify fun composition => { composition with nodes := composition.nodes.push node }
  register anchor id
  return id

/-- The node that an anchor was put on. -/
def anchored? (name : String) : Compose (Option NodeId) := do
  return ((← get).anchors.find? fun entry => entry.1 == name).map (·.2)

/-- A new node that is left out. -/
def addEmpty : Compose NodeId := add none Node.leftOut

/-- A new collection, known by its anchor before its parts are read. -/
def collection (anchor : Option String) (kind : TagKind) (read : Compose Content) :
    Compose NodeId := do
  let id ← add anchor ⟨kind, .sequence []⟩
  let content ← read
  modify fun composition =>
    { composition with nodes := composition.nodes.setIfInBounds id ⟨kind, content⟩ }
  return id

/-! ### Anchors and tags -/

/-- The anchor and the tag in front of a node. -/
structure Properties where
  anchor : Option String
  tag : Option (Option String × String)

/-- The properties that come next, in any order. -/
def properties : Compose Properties := do
  match ← peek with
  | .anchor name =>
    skip
    match ← peek with
    | .tag handle suffix =>
      skip
      return ⟨some name, some (handle, suffix)⟩
    | _ => return ⟨some name, none⟩
  | .tag handle suffix =>
    skip
    match ← peek with
    | .anchor name =>
      skip
      return ⟨some name, some (handle, suffix)⟩
    | _ => return ⟨none, some (handle, suffix)⟩
  | _ => return ⟨none, none⟩

/-- The full name of a tag. -/
def tagName : Option (Option String × String) → Compose (Option String)
  | none => return none
  | some (none, suffix) => return some suffix
  | some (some handle, suffix) => do
    match (← get).handles.find? fun entry => entry.1 == handle with
    | some (_, start) => return some (start ++ suffix)
    | none => invalid

/-- The kind of a scalar.  A lone exclamation mark makes it count as plain. -/
def scalarKind (isPlain : Bool) (text : String) : Option String → TagKind
  | none => if isPlain then .ofPlain text else .str
  | some "!" => .ofPlain text
  | some name => .ofName name

/-- The kind of a collection. -/
def collectionKind (untagged : TagKind) : Option String → TagKind
  | none => untagged
  | some "!" => untagged
  | some name => .ofName name

/-- Where a node stands: whether a block may open there, and whether a sequence may stand there that is
not indented more than the mapping around it. -/
inductive Context where
  | flow
  | block
  | blockOrItems
  deriving DecidableEq

/-! ### Nodes -/

/-- Does a left-out node come before this token in a block mapping? -/
def endsEntry (token : Token) : Bool := [.key, .value, .blockEnd].contains token

/-- Does a left-out item come before this token in a block sequence? -/
def endsItem (token : Token) : Bool := [.blockEntry, .blockEnd].contains token

/-- Does a left-out item come before this token in a sequence that is not indented? -/
def endsFlatItem (token : Token) : Bool := token = .blockEntry || endsEntry token

/-- Does a left-out node come before this token within brackets that the given token closes? -/
def endsPart (close : Token) (token : Token) : Bool := token = .flowEntry || token = close

mutual

/-- A node. -/
def node (context : Context) : (fuel : Nat) → Compose NodeId
  | 0 => invalid
  | fuel + 1 => do
    match ← peek with
    | .reference name =>
      skip
      match ← anchored? name with
      | some id => return id
      | none => invalid
    | _ =>
      let props ← properties
      let name ← tagName props.tag
      let token ← peek
      let anchors := (← get).anchors
      if props.anchor.any fun anchor => anchors.any (·.1 == anchor) then invalid
      else content context props.anchor name token fuel

/-- The content of a node behind its properties.  It may be left out if there are any. -/
def content (context : Context) (anchor name : Option String) (token : Token) :
    (fuel : Nat) → Compose NodeId
  | 0 => invalid
  | fuel + 1 =>
    let sequence (read : Compose (List NodeId)) : Compose NodeId :=
      collection anchor (collectionKind .seq name) (.sequence <$> read)
    let mapping (read : Compose (List (NodeId × NodeId))) : Compose NodeId :=
      collection anchor (collectionKind .map name) (.mapping <$> read)
    match token, context with
    | .blockEntry, .blockOrItems => sequence (flatItems [] fuel)
    | .scalar text isPlain, _ => do
      skip
      add anchor ⟨scalarKind isPlain text name, .scalar text⟩
    | .flowSequenceStart, _ => do
      skip
      sequence (flowItems [] fuel)
    | .flowMappingStart, _ => do
      skip
      mapping (flowEntries [] fuel)
    | .blockSequenceStart, .block => do
      skip
      sequence (blockItems [] fuel)
    | .blockSequenceStart, .blockOrItems => do
      skip
      sequence (blockItems [] fuel)
    | .blockMappingStart, .block => do
      skip
      mapping (blockEntries [] fuel)
    | .blockMappingStart, .blockOrItems => do
      skip
      mapping (blockEntries [] fuel)
    | _, _ =>
      if anchor.isNone && name.isNone then invalid
      else add anchor ⟨scalarKind true "" name, .scalar ""⟩

/-- A node, unless it is left out. -/
def nodeUnless (isLeftOut : Token → Bool) (context : Context) : (fuel : Nat) → Compose NodeId
  | 0 => invalid
  | fuel + 1 => do
    if isLeftOut (← peek) then addEmpty else node context fuel

/-- A value behind its mark, unless there is none or it is left out. -/
def value (isLeftOut : Token → Bool) (context : Context) : (fuel : Nat) → Compose NodeId
  | 0 => invalid
  | fuel + 1 => do
    if ← skipIf .value then nodeUnless isLeftOut context fuel else addEmpty

/-- The items of a block sequence behind those that were read, which are in reverse order, and its end. -/
def blockItems (items : List NodeId) : (fuel : Nat) → Compose (List NodeId)
  | 0 => invalid
  | fuel + 1 => do
    if ← skipIf .blockEntry then
      let item ← nodeUnless endsItem .block fuel
      blockItems (item :: items) fuel
    else if ← skipIf .blockEnd then return items.reverse
    else invalid

/-- The items of a sequence that is not indented more than the mapping around it. -/
def flatItems (items : List NodeId) : (fuel : Nat) → Compose (List NodeId)
  | 0 => invalid
  | fuel + 1 => do
    if ← skipIf .blockEntry then
      let item ← nodeUnless endsFlatItem .block fuel
      flatItems (item :: items) fuel
    else return items.reverse

/-- The entries of a block mapping and its end. -/
def blockEntries (entries : List (NodeId × NodeId)) :
    (fuel : Nat) → Compose (List (NodeId × NodeId))
  | 0 => invalid
  | fuel + 1 => do
    if ← skipIf .key then
      let key ← nodeUnless endsEntry .blockOrItems fuel
      let value ← value endsEntry .blockOrItems fuel
      blockEntries ((key, value) :: entries) fuel
    else if ← skipIf .blockEnd then return entries.reverse
    else invalid

/-- The items of a sequence in brackets, which commas separate, and its end.  An item with the mark of a
key is a mapping of one entry. -/
def flowItems (items : List NodeId) : (fuel : Nat) → Compose (List NodeId)
  | 0 => invalid
  | fuel + 1 => do
    if ← skipIf .flowSequenceEnd then return items.reverse
    else
      if !items.isEmpty then
        if !(← skipIf .flowEntry) then invalid
      if ← skipIf .flowSequenceEnd then return items.reverse
      else
        let item ← flowItem fuel
        flowItems (item :: items) fuel

/-- An item of a sequence in brackets. -/
def flowItem : (fuel : Nat) → Compose NodeId
  | 0 => invalid
  | fuel + 1 => do
    let isLeftOut := endsPart .flowSequenceEnd
    if (← peek) = .key then
      collection none .map do
        skip
        let key ← nodeUnless (fun token => token = .value || isLeftOut token) .flow fuel
        let value ← value isLeftOut .flow fuel
        return .mapping [(key, value)]
    else node .flow fuel

/-- The entries of a mapping in brackets, which commas separate, and its end. -/
def flowEntries (entries : List (NodeId × NodeId)) :
    (fuel : Nat) → Compose (List (NodeId × NodeId))
  | 0 => invalid
  | fuel + 1 => do
    if ← skipIf .flowMappingEnd then return entries.reverse
    else
      if !entries.isEmpty then
        if !(← skipIf .flowEntry) then invalid
      if ← skipIf .flowMappingEnd then return entries.reverse
      else
        let entry ← flowEntry fuel
        flowEntries (entry :: entries) fuel

/-- An entry of a mapping in brackets, which may have a key alone. -/
def flowEntry : (fuel : Nat) → Compose (NodeId × NodeId)
  | 0 => invalid
  | fuel + 1 => do
    let isLeftOut := endsPart .flowMappingEnd
    if ← skipIf .key then
      let key ← nodeUnless (fun token => token = .value || isLeftOut token) .flow fuel
      return (key, ← value isLeftOut .flow fuel)
    else
      let key ← node .flow fuel
      return (key, ← addEmpty)

end

/-! ### Documents -/

/-- What standard handles stand for. -/
def defaultHandles : List (String × String) := [("!", "!"), ("!!", "tag:yaml.org,2002:")]

def isDirective : Token → Bool
  | .versionDirective _ => true
  | .tagDirective _ _ => true
  | .otherDirective => true
  | _ => false

/-- The handles of the directives that come next.  A version is given at most once, and a handle as
well. -/
def directives (hasVersion : Bool) (handles : List (String × String)) :
    (fuel : Nat) → Compose (List (String × String))
  | 0 => invalid
  | fuel + 1 => do
    match ← peek with
    | .versionDirective major =>
      if hasVersion || major != 1 then invalid
      else
        skip
        directives true handles fuel
    | .tagDirective handle suffix =>
      if handles.any fun entry => entry.1 == handle then invalid
      else
        skip
        directives hasVersion (handles ++ [(handle, suffix)]) fuel
    | .otherDirective =>
      skip
      directives hasVersion handles fuel
    | _ => return handles ++ defaultHandles

/-- Goes behind marks of the end of a document. -/
def skipEnds : (fuel : Nat) → Compose Unit
  | 0 => invalid
  | fuel + 1 => do
    if ← skipIf .documentEnd then skipEnds fuel

/-- The start of a document behind directives. -/
def explicitStart (fuel : Nat) : Compose Unit := do
  let handles ← directives false [] fuel
  if ← skipIf .documentStart then
    modify fun composition => { composition with handles := handles }
  else invalid

/-- The root of a document that starts with a mark. -/
def explicitDocument (fuel : Nat) : Compose NodeId := do
  explicitStart fuel
  let token ← peek
  if isDirective token || [.documentStart, .documentEnd, .streamEnd].contains token then addEmpty
  else node .block fuel

/-- The root of the only document of a stream, unless the stream is empty. -/
def root? (fuel : Nat) : Compose (Option NodeId) := do
  let token ← peek
  if token = .streamEnd then return none
  else
    let root ←
      if isDirective token || token = .documentStart then explicitDocument fuel else node .block fuel
    skipEnds fuel
    if (← peek) = .streamEnd then return some root
    else
      explicitStart fuel
      invalid

end Compose

/-- The only document of a stream, unless the stream is empty. -/
def TokenList.document? (list : TokenList) : Except Refusal (Option Document) := do
  let start : Composition :=
    { tokens := list.tokens, stop := list.stop, handles := Compose.defaultHandles, anchors := []
      nodes := #[] }
  let (root?, composition) ← (Compose.root? (8 * list.tokens.length + 10)).run start
  return root?.map fun root => ⟨composition.nodes, root⟩

end DscAudit.Yaml

import DscAudit.Yaml.Graph
import DscAudit.Yaml.Merge
import DscAudit.Yaml.SetOrder
import DscAudit.Yaml.Token.Lexer

/-!
# Making data of the nodes of a document

Every node becomes one atom or one cell.  A collection is an empty cell at first; its parts are made later,
after those of all collections that were met before it.  So the first refusal that is found is the one
nearest to the root, and a collection may be a part of itself.  A file of one document has a datum; an
empty file has none, which is nothing.
-/

namespace DscAudit.Yaml

/-- The nodes of a document, what has been made of them, the cells so far, and the collections whose parts
are still to be made, the last one first. -/
structure Construction where
  nodes : Nodes
  made : Array (Option Ref)
  cells : Array Cell
  pending : List (NodeId × Nat)

/-- A step in making data. -/
abbrev Construct := StateT Construction (Except Refusal)

namespace Construct

def invalid {α : Type} : Construct α := throw .invalid

def defect {α : Type} (defect : Defect) : Construct α := throw (.defect defect)

/-- A new cell. -/
def newCell (cell : Cell) : Construct Nat := do
  let id := (← get).cells.size
  modify fun construction => { construction with cells := construction.cells.push cell }
  return id

def setCell (id : Nat) (cell : Cell) : Construct Unit := modify fun construction =>
  { construction with cells := construction.cells.setIfInBounds id cell }

/-- An empty cell for a collection whose parts are made later. -/
def postpone (id : NodeId) (cell : Cell) : Construct Ref := do
  let cellId ← newCell cell
  modify fun construction =>
    { construction with pending := (id, cellId) :: construction.pending }
  return .cell cellId

/-! ## Single nodes -/

/-- The text of a scalar.  In place of a scalar a mapping may have it as its default value. -/
def textOf? (nodes : Nodes) : (fuel : Nat) → NodeId → Option String
  | 0, _ => none
  | fuel + 1, id =>
    match nodes.contentOf id with
    | .scalar text => some text
    | .sequence _ => none
    | .mapping entries =>
      match entries.find? fun entry => nodes.kindOf entry.1 = .value with
      | some entry => textOf? nodes fuel entry.2
      | none => none

/-- The atom of a node whose kind is that of a scalar.  A point in time needs a text of its own. -/
def atom (id : NodeId) (kind : TagKind) : Construct Ref := do
  let nodes := (← get).nodes
  match textOf? nodes (nodes.size + 1) id with
  | none => invalid
  | some text =>
    match kind, nodes.contentOf id with
    | .timestamp, .mapping _ => defect (.notTextual "list")
    | kind, _ => return .atom (← Atom.read kind id text)

/-- What a node is made to at first. -/
def begin (id : NodeId) : Construct Ref := do
  match (← get).nodes.kindOf id with
  | .seq => postpone id (.list [])
  | .omap => postpone id (.list [])
  | .pairs => postpone id (.list [])
  | .map => postpone id (.table [])
  | .set => postpone id (.set [])
  | kind => atom id kind

/-- What a node is made to, once. -/
def make (id : NodeId) : Construct Ref := do
  match (← get).made.getD id none with
  | some ref => return ref
  | none =>
    let ref ← begin id
    modify fun construction =>
      { construction with made := construction.made.setIfInBounds id (some ref) }
    return ref

/-! ## Parts of collections -/

/-- Entries with a value under a key; a key that is there already keeps its place. -/
def insert {α : Type} (key : Atom) (value : α) : List (Atom × α) → List (Atom × α)
  | [] => [(key, value)]
  | entry :: entries =>
    if entry.1.identity = key.identity then (entry.1, value) :: entries
    else entry :: insert key value entries

/-- The entries of a mapping that has merged all that it merges.  No collection is a key. -/
def entries (id : NodeId) (fuel : Nat) : Construct (List (Atom × Ref)) := do
  let nodes ← (← get).nodes.merge id fuel
  modify fun construction => { construction with nodes := nodes }
  ((nodes.entries? id).getD []).foldlM (fun table entry => do
    match ← make entry.1 with
    | .cell _ => invalid
    | .atom key => return insert key (← make entry.2) table) []

/-- A pair of the key and the value of a mapping with one entry. -/
def pair (id : NodeId) : Construct Ref := do
  match (← get).nodes.entries? id with
  | some [(key, value)] =>
    let first ← make key
    let second ← make value
    return .cell (← newCell (.pair first second))
  | _ => invalid

/-- Makes the parts of a collection. -/
def finish (fuel : Nat) (task : NodeId × Nat) : Construct Unit := do
  let (id, cell) := task
  let nodes := (← get).nodes
  match nodes.kindOf id, nodes.contentOf id with
  | .seq, .sequence items => setCell cell (.list (← items.mapM make))
  | .omap, .sequence items => setCell cell (.list (← items.mapM pair))
  | .pairs, .sequence items => setCell cell (.list (← items.mapM pair))
  | .map, .mapping _ => setCell cell (.table (← entries id fuel))
  | .set, .mapping _ => setCell cell (.set (SetOrder.arrange ((← entries id fuel).map (·.1))))
  | _, _ => invalid

/-- Makes the parts of all collections, in the order in which they were met.  Each round makes nodes for
the first time or is the last one, so `rounds` bounds their number. -/
def finishAll (fuel : Nat) : (rounds : Nat) → Construct Unit
  | 0 => return
  | rounds + 1 => do
    let pending := (← get).pending
    if pending.isEmpty then return
    else
      modify fun construction => { construction with pending := [] }
      pending.reverse.forM (finish fuel)
      finishAll fuel rounds

end Construct

/-- The number of entries that the mappings of a document have. -/
def Document.entryCount (document : Document) : Nat :=
  document.nodes.foldl (fun count node =>
    match node.content with
    | .mapping entries => count + entries.length
    | _ => count) 0

/-- The data of a document. -/
def Document.graph (document : Document) : Except Refusal Graph := do
  let start : Construction :=
    { nodes := document.nodes, made := .replicate document.nodes.size none, cells := #[], pending := [] }
  let makeAll : Construct Ref := do
    let root ← Construct.make document.root
    Construct.finishAll (3 * document.entryCount + 4) (document.nodes.size + 1)
    return root
  let (root, construction) ← makeAll.run start
  return ⟨construction.cells, root⟩

/-! ## Documents -/

/-- The datum of a file, as many levels deep as asked for if it has no end. -/
def read (levels : Nat) (content : Text.Octets) : Except Refusal Datum := do
  match ← (Source.ofFile content).tokens.document? with
  | none => return .null
  | some document => return (← document.graph).datum levels

end DscAudit.Yaml

import DscAudit.Yaml.Node

/-!
# Merging mappings

A mapping may merge the entries of others under the key `<<`.  They come in front of its own entries, which
therefore win over them; of several mappings that are merged at once the first wins, so it comes last.  A
mapping whose entries are merged has merged those of others before.
-/

namespace DscAudit.Yaml

/-- The nodes of a document by their numbers. -/
abbrev Nodes := Array Node

/-- An entry of a mapping: its key and its value. -/
abbrev NodeEntry := NodeId × NodeId

namespace Nodes

def kindOf (nodes : Nodes) (id : NodeId) : TagKind := (nodes.getD id Node.leftOut).kind

def contentOf (nodes : Nodes) (id : NodeId) : Content := (nodes.getD id Node.leftOut).content

/-- The entries of a mapping. -/
def entries? (nodes : Nodes) (id : NodeId) : Option (List NodeEntry) :=
  match nodes.contentOf id with
  | .mapping entries => some entries
  | _ => none

/-- The nodes with other entries of a mapping. -/
def setEntries (nodes : Nodes) (id : NodeId) (entries : List NodeEntry) : Nodes :=
  nodes.modify id fun node => { node with content := .mapping entries }

/-- The first entry whose key merges, and the entries without it. -/
def splitMerge? (nodes : Nodes) : List NodeEntry → Option (NodeEntry × List NodeEntry)
  | [] => none
  | entry :: entries =>
    if nodes.kindOf entry.1 = .merge then some (entry, entries)
    else (nodes.splitMerge? entries).map fun (found, rest) => (found, entry :: rest)

/-- A key that stands for a default value is a text in a mapping. -/
def withTextKeys (nodes : Nodes) (entries : List NodeEntry) : Nodes :=
  entries.foldl (fun nodes entry =>
    if nodes.kindOf entry.1 = .value then
      nodes.modify entry.1 fun node => { node with kind := .str }
    else nodes) nodes

mutual

/-- The entries that a mapping merges and that are left to be merged, taken out of it; and the nodes
then.  Each step takes an entry that merges out of a mapping, so `fuel` bounds their number. -/
def takeMerged (id : NodeId) : (fuel : Nat) → Nodes → Except Refusal (List NodeEntry × Nodes)
  | 0, nodes => .ok ([], nodes)
  | fuel + 1, nodes =>
    match nodes.entries? id with
    | none => .ok ([], nodes)
    | some entries =>
      match nodes.splitMerge? entries with
      | none => .ok ([], nodes.withTextKeys entries)
      | some (entry, rest) => do
        let (merged, nodes) ← mergedOf entry.2 fuel (nodes.setEntries id rest)
        let (more, nodes) ← takeMerged id fuel nodes
        return (merged ++ more, nodes)

/-- The entries of a mapping that is merged, or of several, the last ones first. -/
def mergedOf (id : NodeId) : (fuel : Nat) → Nodes → Except Refusal (List NodeEntry × Nodes)
  | 0, nodes => .ok ([], nodes)
  | fuel + 1, nodes =>
    match nodes.contentOf id with
    | .scalar _ => .error .invalid
    | .mapping _ => mergedMapping id fuel nodes
    | .sequence items =>
      items.foldlM (fun (merged, nodes) item => do
        let (found, nodes) ← mergedMapping item fuel nodes
        return (found ++ merged, nodes)) ([], nodes)

/-- The entries of a mapping that is merged, in which others are merged by then. -/
def mergedMapping (id : NodeId) : (fuel : Nat) → Nodes → Except Refusal (List NodeEntry × Nodes)
  | 0, nodes => .ok ([], nodes)
  | fuel + 1, nodes =>
    match nodes.entries? id with
    | none => .error .invalid
    | some _ => do
      let (merged, nodes) ← takeMerged id fuel nodes
      let entries := merged ++ (nodes.entries? id).getD []
      return (entries, nodes.setEntries id entries)

end

/-- The nodes after a mapping has merged all that it merges. -/
def merge (nodes : Nodes) (id : NodeId) (fuel : Nat) : Except Refusal Nodes := do
  let (_, nodes) ← mergedMapping id fuel nodes
  return nodes

end Nodes

end DscAudit.Yaml

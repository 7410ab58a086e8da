import DscAudit.Yaml.Atom

/-!
# Data with shared parts

The collections of a document are cells, because one may be a part of several others and even of itself.
A message shows a collection within itself by a mark only.  Cells that lead back to none of themselves are
finite data; the others are opened as many levels deep as asked for.
-/

namespace DscAudit.Yaml

/-- A scalar, or the number of a cell. -/
inductive Ref where
  | atom (atom : Atom)
  | cell (id : Nat)

/-- A collection. -/
inductive Cell where
  | list (items : List Ref)
  | table (entries : List (Atom × Ref))
  | set (keys : List Atom)
  | pair (first second : Ref)

structure Graph where
  cells : Array Cell
  root : Ref

namespace Cell

/-- What stands for a collection within itself. -/
def mark : Cell → List Char
  | list _ => "[...]".toList
  | table _ => "\x7b...\x7d".toList
  | set _ => "set(...)".toList
  | pair _ _ => "(...)".toList

/-- The text that shows a collection, when the texts of its parts are known. -/
def shown (showRef : Ref → List Char) : Cell → List Char
  | list items => '[' :: joined (items.map showRef) ++ [']']
  | table entries =>
    '\x7b' :: joined (entries.map fun entry =>
      entry.1.datum.literalText ++ ": ".toList ++ showRef entry.2) ++ ['\x7d']
  | set [] => "set()".toList
  | set keys => '\x7b' :: joined (keys.map fun key => key.datum.literalText) ++ ['\x7d']
  | pair first second => '(' :: showRef first ++ ", ".toList ++ showRef second ++ [')']
where
  joined (texts : List (List Char)) : List Char := ", ".toList.intercalate texts

/-- The finite datum of a collection, when those of its parts are known. -/
def toDatum (datumOf : Ref → Datum) : Cell → Datum
  | list items => .list (items.map datumOf)
  | table entries => .table (entries.map fun entry => (entry.1.datum, datumOf entry.2))
  | cell =>
    let shown := String.ofList (cell.shown fun ref => (datumOf ref).literalText)
    .foreign shown shown

/-- The collection without its parts. -/
def emptied : Cell → Datum
  | table _ => .table []
  | _ => .list []

/-- What the collection refers to. -/
def refs : Cell → List Ref
  | list items => items
  | table entries => entries.map (·.2)
  | set _ => []
  | pair first second => [first, second]

end Cell

namespace Graph

/-- The text that shows a part of the graph, within the cells that are being shown. -/
def shown (g : Graph) : (fuel : Nat) → (around : List Nat) → Ref → List Char
  | _, _, .atom atom => atom.datum.literalText
  | 0, _, .cell _ => []
  | fuel + 1, around, .cell id =>
    match g.cells[id]? with
    | none => []
    | some cell =>
      if around.contains id then cell.mark else cell.shown (g.shown fuel (id :: around))

/-- The text that shows a part of the graph; every cell is within itself only once. -/
def literal (g : Graph) (ref : Ref) : String := String.ofList (g.shown (g.cells.size + 1) [] ref)

/-! ## Finite parts -/

/-- What is known of a cell while its parts are looked at. -/
inductive Progress where
  | unseen
  /-- No datum is known, because some parts are not settled or never can be. -/
  | unsettled
  | settled (datum : Datum)

def Progress.datum? : Progress → Option Datum
  | settled datum => some datum
  | _ => none

/-- The datum of a part, if that is finite. -/
def settled? (known : Array Progress) : Ref → Option Datum
  | .atom atom => some atom.datum
  | .cell id => (known.getD id .unsettled).datum?

/-- Settles the cells that a part of the graph leads to.  A cell counts as unsettled until all of its parts
are settled, so it stays so if it leads back to itself. -/
def settle (g : Graph) : (fuel : Nat) → Array Progress → Ref → Array Progress
  | 0, known, _ => known
  | _, known, .atom _ => known
  | fuel + 1, known, .cell id =>
    match known.getD id .unsettled, g.cells[id]? with
    | .unseen, some cell =>
      let known := cell.refs.foldl (g.settle fuel) (known.setIfInBounds id .unsettled)
      if cell.refs.all fun ref => (settled? known ref).isSome then
        let datum := cell.toDatum fun ref => (settled? known ref).getD .null
        known.setIfInBounds id (.settled datum)
      else known
    | _, _ => known

/-! ## Data -/

/-- The datum of a part of the graph; an endless one is opened some levels deep. -/
def datumAt (g : Graph) (known : Array Progress) : (levels : Nat) → Ref → Datum
  | _, .atom atom => atom.datum
  | levels, .cell id =>
    match settled? known (.cell id), g.cells[id]? with
    | some datum, _ => datum
    | none, none => .null
    | none, some cell =>
      let shown := g.literal (.cell id)
      match levels, cell with
      | _, .pair _ _ => .foreign shown shown
      | 0, cell => .endless shown cell.emptied
      | levels + 1, cell => .endless shown (cell.toDatum (g.datumAt known levels))

/-- The datum of the graph. -/
def datum (g : Graph) (levels : Nat) : Datum :=
  let unseen : Array Progress := .replicate g.cells.size .unseen
  g.datumAt (g.settle (g.cells.size + 1) unseen g.root) levels g.root

end Graph

end DscAudit.Yaml

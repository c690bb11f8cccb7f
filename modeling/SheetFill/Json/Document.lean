import SheetFill.Error
import SheetFill.Json.Layer
import SheetFill.Json.Reader
import SheetFill.Json.Writer
import SheetFill.Scope

/-!
# JSON documents as data

A JSON document is a data source whose nodes are pointers. A location is a path of keys separated by
slashes; empty segments count for nothing. Arrays on the way stand for their items, null items for
nothing, so a location may lead to any number of nodes.

A look-up starts at the longest bound path that the location starts with, at the node bound there, and
at the root if no path is bound.

## Main definitions

* `Document.resolve` — the nodes of a location.
* `Document.textAt` — the text of a key at a location.
* the instance of `Scope`.
-/

namespace SheetFill.Json

open Text

/-- A document and the nodes bound to its paths. -/
structure Document where
  root : Value
  /-- The visible layers, by ascending stamps. -/
  layers : List Layer
  /-- The stamp given out last. -/
  clock : Nat

namespace Document

/-- A document with nothing bound. -/
def ofValue (root : Value) : Document := ⟨root, [], 0⟩

/-- The document of a JSON text. -/
def read? (text : String) : Except FillError Document :=
  match Value.read? text with
  | none => .error .json
  | some root => .ok (ofValue root)

/-- The segments of a location. -/
def segments (location : String) : Path :=
  ((cut '/' location.toList).filter fun segment => !segment.isEmpty).map String.ofList

/-! ## Look-ups -/

/-- The nodes that a place stands for: the items of an array, nothing for null, else the place. -/
def spread (root : Value) (p : Pointer) : List Pointer :=
  match p.resolve root with
  | some (.array items) => (List.range items.length).map p.index
  | some .null | none => []
  | some _ => [p]

/-- Is there an object with the key at a place? -/
def hasKey (root : Value) (key : String) (p : Pointer) : Bool :=
  match p.resolve root with
  | some v => v.hasMember key
  | none => false

/-- One segment further from each node. -/
def follow (root : Value) (nodes : List Pointer) (segment : String) : List Pointer :=
  (nodes.filter (hasKey root segment)).flatMap fun p => spread root (p.key segment)

/-- The nodes some segments further. -/
def walk (root : Value) (nodes : List Pointer) (path : Path) : List Pointer :=
  path.foldl (follow root) nodes

/-- The longest bound path that a path starts with: its node and the segments left. -/
def start? (layers : List Layer) (path : Path) : Option (Pointer × Path) :=
  (List.range (path.length + 1)).reverse.findSome? fun n =>
    (Layer.top? layers (path.take n)).map fun l => (l.node, path.drop n)

/-- The nodes of a path. Where no path is bound the search starts at the root, if that is allowed. -/
def resolve (d : Document) (path : Path) (fromRoot : Bool) : List Pointer :=
  match start? d.layers path with
  | some (node, rest) => walk d.root [node] rest
  | none => if fromRoot then walk d.root (spread d.root .root) path else []

/-- The value of a key in an object; a key is also looked for without the at signs it starts with. -/
def keyValue? (key : String) (v : Value) : Option Value :=
  match v.member? key with
  | some w => some w
  | none => v.member? (String.ofList (key.toList.dropWhile (· == '@')))

/-- The text of a key at the first node of a location. -/
def textAt (d : Document) (location key : String) (search : Bool) : String :=
  match d.resolve (segments location) search with
  | [] => ""
  | p :: _ => match (p.resolve d.root).bind (keyValue? key) with
    | some v => v.scalarText
    | none => ""

/-! ## Bound nodes -/

/-- The value of the node bound to a path. -/
def bound? (d : Document) (path : String) : Option Value :=
  (Layer.top? d.layers (segments path)).bind fun l => l.node.resolve d.root

/-- The number of paths with a visible node. -/
def boundCount (d : Document) : Nat := (d.layers.map (·.path)).eraseDups.length

instance : Scope Document Pointer where
  nodes d path := d.resolve (segments path) true
  text d location key search := d.textAt location key search
  bind d path node :=
    { d with layers := Layer.bind d.layers (segments path) node (d.clock + 1), clock := d.clock + 1 }
  hideBelow d path := { d with layers := Layer.hideBelow d.layers (segments path) }
  release d path := { d with layers := Layer.release d.layers (segments path) }

end Document

end SheetFill.Json

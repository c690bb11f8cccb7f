import Mathlib.Data.List.Basic
import SheetFill.Json.Document

/-!
# Documents with a stack for every path

The nodes bound to the paths of a document lie on stacks. A map has a stack for every path with a node, and
no stack for other paths. A path is a text here: its segments with single slashes between them.

A layer of a stack carries the stamp of the moment at which it was bound, and the stacks that it hides:
layers of paths below its own that it put out of sight, a stack for every path as they were in the map.

`Json.Document` keeps the layers of all stacks in one list, by their stamps. `StackDocument` is how they
are stored.

## Main definitions

* `StackLayer`, `Stack` — what lies on a stack, and a stack with its path.
* `Stack.keepOlder` — what is left of stacks when everything from a stamp on is discarded.
* `StackDocument` — a document and the map of its stacks, with the instance of `Scope`.
-/

namespace SheetFill.Json

open Text

mutual

/-- A node on a stack, with the stacks that it hides. -/
structure StackLayer where
  node : Pointer
  stamp : Nat
  hidden : List Stack

/-- The layers of a path, the newest one last. -/
structure Stack where
  path : String
  layers : List StackLayer

end

namespace Stack

mutual

/-- What is left of the stacks that layers hide when the layers from a stamp on are discarded. -/
def uncovered (stamp : Nat) : List StackLayer → List Stack
  | [] => []
  | ⟨_, s, hidden⟩ :: layers =>
    (if s < stamp then [] else keepOlder stamp hidden) ++ uncovered stamp layers

/--
What is left of stacks when everything from a stamp on is discarded: of each stack the older layers, if it
has any, and before it the older ones that its other layers were hiding.
-/
def keepOlder (stamp : Nat) : List Stack → List Stack
  | [] => []
  | ⟨path, layers⟩ :: ss =>
    let older := layers.filter fun l => l.stamp < stamp
    uncovered stamp layers ++ (if older.isEmpty then [] else [⟨path, older⟩]) ++ keepOlder stamp ss

end

/-- The layers of a stack in the order of their stamps. -/
def inOrder (layers : List StackLayer) : List StackLayer :=
  Order.inOrder (fun a b => decide (a.stamp ≤ b.stamp)) layers

/-- The text of a path. -/
def pathText (path : Path) : String := String.ofList (joinWith ['/'] (path.map String.toList))

/-- A location with single slashes between its segments. -/
def normal (location : String) : String := pathText (Document.segments location)

/-- Does the text of a path start with that of another one and a slash? All others are below the empty one. -/
def isBelow (top path : String) : Bool :=
  if top.isEmpty then !path.isEmpty else (top.toList ++ ['/']).isPrefixOf path.toList

end Stack

/-- A document and the stacks of the nodes bound to its paths. -/
structure StackDocument where
  root : Value
  /-- The stacks, by their paths. -/
  table : Std.TreeMap String (List StackLayer)
  /-- The stamp given out last. -/
  clock : Nat

namespace StackDocument

/-- A document with nothing bound. -/
def ofValue (root : Value) : StackDocument := ⟨root, ∅, 0⟩

/-- The layers of a path, if it has a stack. -/
def layersAt (table : Std.TreeMap String (List StackLayer)) (path : String) : List StackLayer :=
  table.getD path []

/-- The newest layer of a path. -/
def top? (d : StackDocument) (path : String) : Option StackLayer := (layersAt d.table path).getLast?

/-! ## Look-ups -/

/-- The longest bound path that a path starts with: its node and the segments left. -/
def start? (d : StackDocument) (path : Path) : Option (Pointer × Path) :=
  (List.range (path.length + 1)).reverse.findSome? fun n =>
    (d.top? (Stack.pathText (path.take n))).map fun l => (l.node, path.drop n)

/-- The nodes of a path. Where no path is bound the search starts at the root, if that is allowed. -/
def resolve (d : StackDocument) (path : Path) (fromRoot : Bool) : List Pointer :=
  match d.start? path with
  | some (node, rest) => Document.walk d.root [node] rest
  | none => if fromRoot then Document.walk d.root (Document.spread d.root .root) path else []

/-- The text of a key at the first node of a location. -/
def textAt (d : StackDocument) (location key : String) (search : Bool) : String :=
  match d.resolve (Document.segments location) search with
  | [] => ""
  | p :: _ => match (p.resolve d.root).bind (Document.keyValue? key) with
    | some v => v.scalarText
    | none => ""

/-- The value of the node bound to a path. -/
def bound? (d : StackDocument) (path : String) : Option Value :=
  (d.top? (Stack.normal path)).bind fun l => l.node.resolve d.root

/-- The number of paths with a stack. -/
def boundCount (d : StackDocument) : Nat := d.table.size

/-! ## Changes -/

/-- The stacks of a map, in the order of their paths. -/
def stacksOf (table : Std.TreeMap String (List StackLayer)) : List Stack :=
  table.toList.map fun entry => ⟨entry.1, entry.2⟩

/-- Takes the stacks below a path out of the map. -/
def takeBelow (table : Std.TreeMap String (List StackLayer)) (path : String) :
    List Stack × Std.TreeMap String (List StackLayer) :=
  ((stacksOf table).filter fun stack => Stack.isBelow path stack.path,
    table.filter fun other _ => !Stack.isBelow path other)

/-- Takes the newest layer off the stack of a path, and the stack out of the map if that was its last one. -/
def dropTop (table : Std.TreeMap String (List StackLayer)) (path : String) :
    Std.TreeMap String (List StackLayer) :=
  let rest := (layersAt table path).dropLast
  if rest.isEmpty then table.erase path else table.insert path rest

/-- Puts the layers of a stack on the stack that the map has for its path, each into its place. -/
def merge (table : Std.TreeMap String (List StackLayer)) (stack : Stack) :
    Std.TreeMap String (List StackLayer) :=
  table.insert stack.path (Stack.inOrder (layersAt table stack.path ++ stack.layers))

/-- Puts stacks back into the map. -/
def restore (table : Std.TreeMap String (List StackLayer)) (back : List Stack) :
    Std.TreeMap String (List StackLayer) :=
  back.foldl merge table

/-- Binds a node to a path. -/
def bind (d : StackDocument) (location : String) (node : Pointer) : StackDocument :=
  let path := Stack.normal location
  { d with
    table := d.table.insert path (layersAt d.table path ++ [⟨node, d.clock + 1, []⟩])
    clock := d.clock + 1 }

/--
Takes the stacks below a path out of the map. The newest layer of the path hides what they have that is
older than itself; without a layer they are discarded.
-/
def hideBelow (d : StackDocument) (location : String) : StackDocument :=
  let path := Stack.normal location
  let (below, table) := takeBelow d.table path
  match (layersAt table path).getLast? with
  | none => { d with table }
  | some top =>
    let top' := { top with hidden := top.hidden ++ Stack.keepOlder top.stamp below }
    { d with table := table.insert path ((layersAt table path).dropLast ++ [top']) }

/--
Removes the newest layer of a path. The stacks below the path are taken out of the map, and what they have
that is older than the layer is put back together with what the layer was hiding.
-/
def release (d : StackDocument) (location : String) : StackDocument :=
  let path := Stack.normal location
  match d.top? path with
  | none => d
  | some top =>
    let (below, table) := takeBelow (dropTop d.table path) path
    { d with table := restore table (Stack.keepOlder top.stamp below ++ top.hidden) }

instance : Scope StackDocument Pointer where
  nodes d path := d.resolve (Document.segments path) true
  text d location key search := d.textAt location key search
  bind := bind
  hideBelow := hideBelow
  release := release

end StackDocument

end SheetFill.Json

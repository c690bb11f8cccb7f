import SheetFill.Json.Pointer
import SheetFill.Order

/-!
# Layers of bound nodes

Nodes of a document are bound to paths in layers. A layer carries the *stamp* of the moment at which it
was bound, and the layers that it hides: layers at paths below its own, older than itself, that it put
out of sight. Hidden layers may hide others in turn.

The visible layers are kept in the order of their stamps, over all paths; the stack of one path is the
sublist of its layers, with the newest one on top. Documents are stored with a map that has a stack for every
path; `StackDocument` is that form, and has the same layers after every change.

## Main definitions

* `bind`, `hideBelow`, `release` — the three changes of a list of visible layers.
* `keepOlder` — what is left of layers when everything from a stamp on is discarded.
-/

namespace SheetFill.Json

/-- A path: the segments of a location. -/
abbrev Path := List String

/-- A node bound to a path. -/
structure Layer where
  path : Path
  node : Pointer
  stamp : Nat
  hidden : List Layer
  deriving Repr

namespace Layer

/-- Is `path` below `top`? -/
def isBelow (top path : Path) : Bool := top.isPrefixOf path && top.length < path.length

/-- The newest visible layer of a path. -/
def top? (layers : List Layer) (path : Path) : Option Layer :=
  layers.reverse.find? fun l => l.path == path

/-- Layers by ascending stamps. -/
def byStamp (layers : List Layer) : List Layer :=
  Order.inOrder (fun a b => decide (a.stamp ≤ b.stamp)) layers

mutual

/-- What is left of a layer: itself if it is older than `stamp`, else the older ones it was hiding. -/
def older (stamp : Nat) : Layer → List Layer
  | ⟨path, node, s, hidden⟩ =>
    if s < stamp then [⟨path, node, s, hidden⟩] else keepOlder stamp hidden

/-- What is left of layers when everything from `stamp` on is discarded. -/
def keepOlder (stamp : Nat) : List Layer → List Layer
  | [] => []
  | l :: ls => older stamp l ++ keepOlder stamp ls

end

/-- Binds a node to a path, on top of all layers. -/
def bind (layers : List Layer) (path : Path) (node : Pointer) (stamp : Nat) : List Layer :=
  layers ++ [⟨path, node, stamp, []⟩]

/-- Puts layers out of sight under the layer of a stamp. -/
def hideUnder (stamp : Nat) (hidden : List Layer) (l : Layer) : Layer :=
  if l.stamp = stamp then { l with hidden := byStamp (l.hidden ++ hidden) } else l

/--
Takes the layers below a path out of sight. The newest layer of the path hides those that are older
than itself; the others are discarded, and all of them are if nothing is bound to the path.
-/
def hideBelow (layers : List Layer) (path : Path) : List Layer :=
  let below := layers.filter fun l => isBelow path l.path
  let rest := layers.filter fun l => !isBelow path l.path
  match top? layers path with
  | none => rest
  | some t => rest.map (hideUnder t.stamp (keepOlder t.stamp below))

/--
Removes the newest layer of a path. Layers below the path that are newer than it are discarded, and
what it was hiding, or they were, comes back into sight.
-/
def release (layers : List Layer) (path : Path) : List Layer :=
  match top? layers path with
  | none => layers
  | some t =>
    let others := layers.filter fun l => l.stamp != t.stamp
    let below := others.filter fun l => isBelow path l.path
    let rest := others.filter fun l => !isBelow path l.path
    byStamp (rest ++ (keepOlder t.stamp below ++ t.hidden))

end Layer

end SheetFill.Json

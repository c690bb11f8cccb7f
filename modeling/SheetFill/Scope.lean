/-!
# Scopes: what filling a template asks of its data

A template is filled from a hierarchical data source. While it is filled, *nodes* of the source are
bound to paths, and a look-up starts at the longest bound path that leads to it. `Scope` is that view
of a data source as a state `σ` with nodes of type `ν`. The values of cells depend on look-ups alone,
and `Lookup` is the part of a scope that they see.

Bindings of one path form a stack: `release` takes the newest one off again. A node bound to a path
makes older bindings below that path meaningless, which `hideBelow` puts out of sight until the node
is released.

## Main definitions

* `Lookup` — the look-ups in a state.
* `Scope` — the look-ups, and the operations that change the state.
* `enter` — binds a node and hides what was bound below it.
* `within` — runs a computation with a node bound, and releases it afterwards.
-/

namespace SheetFill

/-- A data source that can be looked into. -/
class Lookup (σ : Type) (ν : outParam Type) where
  /-- The nodes at a path, in source order. -/
  nodes : σ → String → List ν
  /--
  The text under a key of a location, or the empty text. Unless a search is allowed, a location with
  no bound path above it has no text.
  -/
  text : σ → (location key : String) → (search : Bool) → String

/-- A data source whose nodes can be bound to paths. -/
class Scope (σ : Type) (ν : outParam Type) extends Lookup σ ν where
  /-- Binds a node to a path, on top of what is bound to it already. -/
  bind : σ → String → ν → σ
  /-- Puts everything out of sight that is bound below a path. -/
  hideBelow : σ → String → σ
  /-- Takes the newest binding off a path, and brings back what it had hidden. -/
  release : σ → String → σ

namespace Scope

export Lookup (nodes text)

variable {σ ν α : Type} [Scope σ ν]

/-- Binds a node to a path and hides what was bound below the path before. -/
def enter (s : σ) (path : String) (node : ν) : σ := hideBelow (bind s path node) path

/-- Runs `f` while a node is bound to a path. -/
def within (s : σ) (path : String) (node : ν) (f : σ → α × σ) : α × σ :=
  let (result, after) := f (enter s path node)
  (result, release after path)

end Scope

end SheetFill

import SheetFill.Cell.Formula
import SheetFill.Order

/-!
# The nesting of a group row

The cells of a group's row are gathered into *tiers*: a tier is a location and the cells that belong to
it. The group iterates over the nodes of every tier, the earlier tiers outside. Tiers are ordered by
the column of their leftmost cell, so the order in which a row's cells are met does not matter.

## Main definitions

* `Tier`, `Nesting` — tiers in iteration order.
* `Nesting.insert` — one more cell.
-/

namespace SheetFill.Group

open Cell

/-- The cells that belong to one location, by ascending columns. -/
structure Tier where
  location : String
  cells : List PlacedFormula
  deriving DecidableEq, Repr

namespace Tier

/-- The number of slashes in the location. -/
def depth (t : Tier) : Nat := t.location.toList.count '/'

/-- The column of the leftmost cell. -/
def firstCol (t : Tier) : Nat :=
  match t.cells with
  | [] => Coordinate.maxNumber
  | c :: _ => c.position.col

/-- Puts a cell before the first one that lies further right. -/
def insertCell (cell : PlacedFormula) : List PlacedFormula → List PlacedFormula
  | [] => [cell]
  | c :: cells =>
    if c.position.col ≤ cell.position.col then c :: insertCell cell cells else cell :: c :: cells

end Tier

/-- The tiers of a group row, the outermost first. -/
structure Nesting where
  tiers : List Tier
  deriving DecidableEq, Repr

namespace Nesting

/-- A row without cells. -/
def empty : Nesting := ⟨[]⟩

/-- Adds a cell to the tier of its location, which is a new one at the end if there is none. -/
def addCell (cell : PlacedFormula) : List Tier → List Tier
  | [] => [⟨cell.formula.body.maxLocation, [cell]⟩]
  | t :: tiers =>
    if t.location = cell.formula.body.maxLocation then
      { t with cells := Tier.insertCell cell t.cells } :: tiers
    else t :: addCell cell tiers

/-- Adds a cell and restores the order of the tiers. -/
def insert (n : Nesting) (cell : PlacedFormula) : Nesting :=
  ⟨Order.inOrder (fun a b => decide (a.firstCol ≤ b.firstCol)) (addCell cell n.tiers)⟩

/-- The number of tiers. -/
def depth (n : Nesting) : Nat := n.tiers.length

/-- All cells, tier by tier. -/
def cells (n : Nesting) : List PlacedFormula := n.tiers.flatMap Tier.cells

end Nesting

end SheetFill.Group

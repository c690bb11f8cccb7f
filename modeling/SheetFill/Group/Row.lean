import SheetFill.Group.Nesting

/-!
# Expanded rows

Expanding a group gives rows of evaluated cells. A tier without nodes still gives one row, its
*placeholder*: literal texts show there, and filters do not.
-/

namespace SheetFill.Group

open Cell

/-- One evaluated cell of a row. -/
structure RowCell where
  col : Nat
  value : String
  filters : List FilterInvocation
  deriving DecidableEq, Repr

/-- One row of an expanded group. -/
structure Row where
  cells : List RowCell
  /-- Does the row stand for a tier without nodes? -/
  placeholder : Bool
  deriving DecidableEq, Repr

namespace RowCell

/-- Nothing to write, and nothing to apply. -/
def isBlank (c : RowCell) : Bool := c.value.isEmpty && c.filters.isEmpty

/-- The cell without its content. -/
def cleared (c : RowCell) : RowCell := { c with value := "", filters := [] }

end RowCell

namespace Row

/-- The row of a group without tiers. -/
def empty : Row := ⟨[], false⟩

/-- Are all cells blank? -/
def isBlank (r : Row) : Bool := r.cells.all RowCell.isBlank

end Row

namespace Tier

variable {σ ν : Type} [Lookup σ ν]

/-- The cells of the tier, evaluated with their filters. -/
def evaluate (t : Tier) (s : σ) : List RowCell :=
  t.cells.map fun c =>
    let (value, filters) := c.formula.resolve s false
    { col := c.position.col, value, filters }

/-- The cells of the tier, evaluated without their filters. -/
def evaluateBare (t : Tier) (s : σ) : List RowCell :=
  t.cells.map fun c =>
    { col := c.position.col, value := c.formula.body.value s false, filters := [] }

end Tier

end SheetFill.Group

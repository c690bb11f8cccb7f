import SheetFill.Group.Nesting

/-!
# Group blocks

A group block is a stretch of template rows: the row whose cells are repeated, and the row whose end
cell closes the group. The rows from the first up to the second, which it does not include, are
*reserved* for the group.

Row-number cells take no part in the iteration, and only their column is kept.
-/

namespace SheetFill.Group

open Cell

/-- A group of a template sheet. -/
structure Block where
  startRow : Nat
  endRow : Nat
  /-- The column of the end cell. -/
  endCol : Nat
  ending : Ending
  /-- The column of the row number, if the row has one. -/
  rowNumberCol : Option Nat
  nesting : Nesting
  deriving DecidableEq, Repr

namespace Block

/-- Sorts the cells of a group's row into the row number and the tiers. -/
def sortCells : List PlacedFormula → Option Nat × Nesting → Option Nat × Nesting
  | [], sorted => sorted
  | c :: cells, (rowNumberCol, nesting) =>
    if c.formula.body.isRowNumber then sortCells cells (some c.position.col, nesting)
    else sortCells cells (rowNumberCol, nesting.insert c)

/-- The block with the given rows and the cells of its first row. -/
def ofCells (startRow endRow endCol : Nat) (ending : Ending) (cells : List PlacedFormula) : Block :=
  let (rowNumberCol, nesting) := sortCells cells (none, .empty)
  { startRow, endRow, endCol, ending, rowNumberCol, nesting }

/-- The number of rows that the template holds ready for the group. -/
def reservation (b : Block) : Nat := b.endRow - b.startRow

/-- The number of tiers. -/
def depth (b : Block) : Nat := b.nesting.depth

/-- The columns of the first row that hold a cell of the group, ascending and without repetition. -/
def columns (b : Block) : List Nat :=
  (Order.inOrder (fun m n => decide (m ≤ n))
    (b.nesting.cells.map (·.position.col) ++ b.rowNumberCol.toList)).eraseDups

end Block

end SheetFill.Group

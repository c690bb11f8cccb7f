import SheetFill.Cell.Filter

/-!
# Output sheets

An output sheet says how a copy of its template sheet is turned into the filled one: first the
*preparations*, which clear the cells that held references and insert rows, then the cell writes. The
sheet is all that a writer of spreadsheets needs; it does not look at the template again.
-/

namespace SheetFill.Output

open Cell

/-- A change of the sheet that comes before its cells are written. -/
inductive Preparation where
  /-- Clears the text of a template cell. -/
  | clearCell (row col : Nat)
  /-- Inserts `count` rows before row `before`, formatted as row `copyFrom`. -/
  | insertRows (before count copyFrom : Nat)
  deriving DecidableEq, Repr, Inhabited

/-- One cell to be written. -/
structure CellWrite where
  /-- The row in the sheet, inserted rows counted. -/
  row : Nat
  col : Nat
  /-- The row in the template. -/
  templateRow : Nat
  templateCol : Nat
  value : String
  /-- For cells of a group, the template row whose format they take. -/
  refRow : Option Nat
  filters : List FilterInvocation
  deriving DecidableEq, Repr, Inhabited

/-- One output sheet. -/
structure Sheet where
  name : String
  /-- The place of the template sheet among the template sheets. -/
  templateIndex : Nat
  /-- May the template sheet give several output sheets? -/
  multiple : Bool
  preparations : List Preparation
  cells : List CellWrite
  deriving DecidableEq, Repr, Inhabited

namespace Preparation

/-- The number of rows inserted. -/
def insertedRows : Preparation → Nat
  | .clearCell _ _ => 0
  | .insertRows _ count _ => count

end Preparation

namespace Sheet

/-- The first write to a cell. -/
def cellAt? (s : Sheet) (row col : Nat) : Option CellWrite :=
  s.cells.find? fun c => c.row == row && c.col == col

/-- The number of rows inserted into the sheet. -/
def insertedRows (s : Sheet) : Nat :=
  s.preparations.foldl (fun n p => n + p.insertedRows) 0

end Sheet

end SheetFill.Output

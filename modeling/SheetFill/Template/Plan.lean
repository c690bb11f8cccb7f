import SheetFill.Group.Block

/-!
# Template sheets, as read and as planned

A template sheet comes as a name and a list of cell texts. Its *plan* is what is left once the texts
are understood: the sheet name as a cell body, the cells outside groups, and the group blocks by
ascending rows. Constant cells are no part of a plan; filling leaves them as they are.
-/

namespace SheetFill.Template

open Cell SheetFill.Group

/-- A cell of a template sheet, as it was typed. -/
structure RawCell where
  position : Coordinate
  text : String
  deriving DecidableEq, Repr

/-- A template sheet, as it was typed. -/
structure RawSheet where
  name : String
  cells : List RawCell
  deriving DecidableEq, Repr

/-- A template sheet, ready to be filled. -/
structure SheetPlan where
  /-- The place of the sheet in its workbook. -/
  index : Nat
  name : Body
  /-- The cells outside groups that hold references or filters. -/
  flat : List PlacedFormula
  groups : List Block
  deriving DecidableEq, Repr

/-- A template workbook, ready to be filled. -/
structure Plan where
  sheets : List SheetPlan
  normalizeNames : Bool
  deriving DecidableEq, Repr

namespace RawSheet

/-- A sheet without cells. -/
def ofName (name : String) : RawSheet := ⟨name, []⟩

/-- The sheet with one more cell. -/
def addCell (sheet : RawSheet) (position : Coordinate) (text : String) : RawSheet :=
  { sheet with cells := sheet.cells ++ [⟨position, text⟩] }

/-- The sheet with one more cell, placed by a cell reference. -/
def addCellAt (sheet : RawSheet) (reference text : String) : Except CoordinateFault RawSheet :=
  (Coordinate.ofA1? reference).map fun position => sheet.addCell position text

end RawSheet

end SheetFill.Template

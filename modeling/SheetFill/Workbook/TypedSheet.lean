import SheetFill.Template.Plan
import SheetFill.Workbook.CellValue

/-!
# Sheets of typed cells

A spreadsheet file lists cells with their positions. Several cells may claim one position: a blank one
then leaves what is there, and of the others the last one counts, whether it has a text or not.

The cells of a sheet are looked up by the name of the sheet. Names should differ; where they do not,
every sheet of a name shows the cells of the first one, and the cells of the others are never read. A
cell that is read and makes no sense spoils the file.

## Main definitions

* `TypedSheet.toRaw?` — the texts of a sheet, row by row.
* `rawSheets?` — the texts of all sheets of a file.
-/

namespace SheetFill.Workbook

open Template

/-- A cell of a spreadsheet file. -/
structure TypedCell where
  position : Coordinate
  value : CellValue
  deriving DecidableEq, Repr

/-- A sheet of a spreadsheet file. -/
structure TypedSheet where
  name : String
  cells : List TypedCell
  deriving DecidableEq, Repr

/-- The last cell of every run of cells at one position. -/
def lastOfEach : List TypedCell → List TypedCell
  | [] => []
  | [c] => [c]
  | c :: d :: rest =>
    if c.position = d.position then lastOfEach (d :: rest) else c :: lastOfEach (d :: rest)

namespace TypedSheet

/-- The cells that fill the positions of a sheet, row by row. -/
def filled (sheet : TypedSheet) : List TypedCell :=
  lastOfEach (Order.inOrder (fun a b => a.position.le b.position)
    (sheet.cells.filter (·.value ≠ .blank)))

/-- The texts of a sheet, row by row, if all its cells make sense. -/
def toRaw? (sheet : TypedSheet) : Option RawSheet :=
  if sheet.cells.all (·.value.isSound) then
    some
      { name := sheet.name
        cells := sheet.filled.filterMap fun c =>
          c.value.text?.map fun text => ⟨c.position, text⟩ }
  else none

end TypedSheet

/-- The texts of all sheets of a file. What a sheet shows is found by its name. -/
def rawSheets? (sheets : List TypedSheet) : Option (List RawSheet) :=
  sheets.mapM fun sheet => (sheets.find? (·.name = sheet.name)).bind TypedSheet.toRaw?

end SheetFill.Workbook

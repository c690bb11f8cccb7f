import SheetFill.Json.Writer
import SheetFill.Output.Sheet

/-!
# Output sheets as JSON

A sheet is an object; so is each of its preparations, told apart by `op`, and each of its cells. The
reference row and the filters of a cell are left out where there are none.

## Main definitions

* `Sheet.toJson` — the value of a sheet.
-/

namespace SheetFill.Output

open Cell Json

/-- A number as a value. -/
def jsonNumber (n : Nat) : Value := .number (.natural n)

/-- The value of a preparation. -/
def Preparation.toJson : Preparation → Value
  | .clearCell row col =>
    .object [("op", .string "clear_cell"), ("row", jsonNumber row), ("col", jsonNumber col)]
  | .insertRows before count copyFrom =>
    .object [("op", .string "insert_rows"), ("before", jsonNumber before),
      ("count", jsonNumber count), ("copy_from", jsonNumber copyFrom)]

/-- The value of a filter invocation. -/
def filterJson (f : FilterInvocation) : Value :=
  .object [("name", .string f.name), ("args", .array (f.args.map .string))]

/-- The value of a cell. -/
def CellWrite.toJson (c : CellWrite) : Value :=
  let refRow := match c.refRow with
    | none => []
    | some row => [("ref_row", jsonNumber row)]
  let filters := if c.filters.isEmpty then [] else [("filters", .array (c.filters.map filterJson))]
  .object ([("row", jsonNumber c.row), ("col", jsonNumber c.col),
    ("original_row", jsonNumber c.templateRow), ("original_col", jsonNumber c.templateCol),
    ("value", .string c.value)] ++ refRow ++ filters)

/-- The value of a sheet. -/
def Sheet.toJson (s : Sheet) : Value :=
  .object [("name", .string s.name), ("template_index", jsonNumber s.templateIndex),
    ("multiple", .bool s.multiple), ("priors", .array (s.preparations.map Preparation.toJson)),
    ("cells", .array (s.cells.map CellWrite.toJson))]

end SheetFill.Output

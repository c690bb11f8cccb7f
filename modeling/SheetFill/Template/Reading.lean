import SheetFill.Settings
import SheetFill.Template.Plan

/-!
# Reading a template sheet

The cells of a sheet are read row by row. In each row the cells are understood first, then the groups
that end in the row are closed, and last a group is opened if the row starts one. So a group may start
in the row in which another one ends, but the rows of two groups do not overlap: while a group is
open no other can start.

All starting cells of a row form one group, which is closed by an end cell in the column of the
leftmost of them.

## Main definitions

* `readCells` — the cells of one row, by what they do.
* `Progress.closeGroup`, `Progress.openGroup` — the matching of starts and ends.
* `SheetPlan.ofRaw?`, `Plan.ofRaw?` — the plan of a sheet and of a workbook.
-/

namespace SheetFill.Template

open Cell SheetFill.Group Text

/-- The cells of a row, by what they do. -/
structure RowCells where
  flat : List PlacedFormula
  starts : List PlacedFormula
  ends : List PlacedFormula

/-- A group whose end was not met yet. -/
structure OpenGroup where
  /-- The leftmost cell of its first row. -/
  start : Coordinate
  cells : List PlacedFormula

/-- What was read of a sheet so far. -/
structure Progress where
  flat : List PlacedFormula
  groups : List Block
  pending : Option OpenGroup

/-- Reads a cell. Blank and inert cells are passed over. -/
def readCell (settings : Settings) (sheet : String) (cell : RawCell) :
    Except FillError (Option PlacedFormula) :=
  if allBlank cell.text.toList then .ok none
  else match Formula.parse cell.text settings.separator with
    | .error e => .error (e.located sheet (.cell cell.position))
    | .ok formula =>
      match settings.knownFilters.bind fun known =>
          formula.filters.find? fun f => !known.contains f.name with
      | some unknown =>
        .error (.template sheet (.cell cell.position) (.unknownFilter unknown.name))
      | none => .ok (if formula.isInert then none else some ⟨cell.position, formula⟩)

/-- Sorts cells by what they do. -/
def RowCells.ofPlaced (cells : List PlacedFormula) : RowCells :=
  { flat := cells.filter fun c => !c.formula.body.isGroup
    starts := cells.filter fun c => c.formula.body.isGroupStart
    ends := cells.filter fun c => c.formula.body.isGroup && !c.formula.body.isGroupStart }

/-- Reads the cells of a row, from left to right. -/
def readCells (settings : Settings) (sheet : String) (cells : List RawCell) :
    Except FillError RowCells := do
  let placed ← cells.mapM (readCell settings sheet)
  return RowCells.ofPlaced (placed.filterMap id)

namespace Progress

/-- Nothing was read. -/
def empty : Progress := ⟨[], [], none⟩

/-- Closes the open group with an end cell. -/
def closeGroup (settings : Settings) (sheet : String) (p : Progress) (last : PlacedFormula) :
    Except FillError Progress :=
  match last.formula.body.ending? with
  | none => .error (.template sheet (.cell last.position) .unrecognizedEnd)
  | some ending =>
    let unmatched := FillError.template sheet (.cell last.position)
      (.unmatchedEnd last.formula.body.raw)
    match p.pending with
    | none => .error unmatched
    | some group =>
      if group.start.col ≠ last.position.col then .error unmatched
      else
        let block := Block.ofCells group.start.row last.position.row last.position.col ending
          group.cells
        if settings.maxDepth < block.depth then
          .error (.template sheet (.cell group.start)
            (.nestingTooDeep block.depth settings.maxDepth))
        else .ok { p with groups := p.groups ++ [block], pending := none }

/-- Opens a group with the starting cells of a row, if there are any. -/
def openGroup (sheet : String) (p : Progress) (starts : List PlacedFormula) :
    Except FillError Progress :=
  match starts with
  | [] => .ok p
  | first :: _ =>
    match p.pending with
    | none => .ok { p with pending := some ⟨first.position, starts⟩ }
    | some group =>
      .error (.template sheet (.cell first.position)
        (if group.start.col = first.position.col then .columnPending group.start
         else .overlap group.start))

/-- Reads a row. -/
def addRow (settings : Settings) (sheet : String) (p : Progress) (row : List RawCell) :
    Except FillError Progress := do
  let cells ← readCells settings sheet row
  let p := { p with flat := p.flat ++ cells.flat }
  let p ← cells.ends.foldlM (closeGroup settings sheet) p
  openGroup sheet p cells.starts

end Progress

/-- The cells of a sheet, row by row. -/
def RawSheet.rows (sheet : RawSheet) : List (List RawCell) :=
  (Order.inOrder (fun a b => a.position.le b.position) sheet.cells).splitBy
    fun a b => a.position.row == b.position.row

/-- The plan of a sheet, or what is wrong with it. -/
def SheetPlan.ofRaw? (settings : Settings) (index : Nat) (sheet : RawSheet) :
    Except FillError SheetPlan := do
  let name ← (Body.parse sheet.name).mapError (FillError.located sheet.name .sheetName)
  let p ← sheet.rows.foldlM (Progress.addRow settings sheet.name) .empty
  match p.pending with
  | some group => .error (.template sheet.name (.cell group.start) .unclosedStart)
  | none => return { index, name, flat := p.flat, groups := p.groups }

/-- The plans of sheets with the given indices. -/
def SheetPlan.ofRaws? (settings : Settings) :
    Nat → List RawSheet → Except FillError (List SheetPlan)
  | _, [] => .ok []
  | index, sheet :: sheets => do
    let plan ← SheetPlan.ofRaw? settings index sheet
    let plans ← SheetPlan.ofRaws? settings (index + 1) sheets
    return plan :: plans

/-- The plan of a workbook, or what is wrong with its first faulty sheet. -/
def Plan.ofRaw? (settings : Settings) (sheets : List RawSheet) : Except FillError Plan := do
  let plans ← SheetPlan.ofRaws? settings 0 sheets
  return { sheets := plans, normalizeNames := settings.normalizeNames }

end SheetFill.Template

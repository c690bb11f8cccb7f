import SheetFill.Group.Walk
import SheetFill.Output.RowShifts
import SheetFill.Output.RowSums
import SheetFill.Output.Sheet
import SheetFill.Template.Plan

/-!
# Assembling an output sheet

One output sheet is assembled from a sheet plan and a scope. The cells that held references are
cleared. Then the groups are expanded from the top down: rows without content are passed over, a fixed
group keeps as many rows as it reserves, and a growing group has rows inserted for those beyond. The
cells outside groups come last, moved down by the rows inserted above them.

The rows of a group are looked at one at a time, as the walk through it yields them. What a group has
added by the time it fails stays in the draft.

## Main definitions

* `writeRows` — the cell writes of the rows that a walk yields.
* `Draft.addBlock` — one group: its writes, and the insertion that makes room for them.
* `SheetPlan.fillWith` — one output sheet, with rows added up in a given way; `SheetPlan.fill` without
  bound.
-/

namespace SheetFill.Template

open Cell SheetFill.Group Output Text

/-- The preparations that clear the cells of the plan. -/
def SheetPlan.clearings (t : SheetPlan) : List Preparation :=
  t.flat.map (fun c => .clearCell c.position.row c.position.col) ++
    t.groups.flatMap fun b =>
      b.columns.map (fun col => .clearCell b.startRow col) ++ [.clearCell b.endRow b.endCol]

/-- A write in the row that a group keeps after `k` others, in a group moved down by `delta` rows. -/
def groupWrite (sums : RowSums) (b : Block) (delta k col : Nat) (value : String)
    (filters : List FilterInvocation) : CellWrite :=
  { row := sums.add (sums.add b.startRow delta) k, col
    templateRow := sums.add b.startRow k, templateCol := col
    value, refRow := some (sums.add b.startRow (min k 1)), filters }

/-- The writes of a row; a row with content is numbered if the group has a row number. -/
def rowWrites (sums : RowSums) (b : Block) (delta k : Nat) (row : Row) : List CellWrite :=
  (match b.rowNumberCol with
    | some col =>
      if row.isBlank then [] else [groupWrite sums b delta k col (decimal (sums.add k 1)) []]
    | none => []) ++
  row.cells.map fun c => groupWrite sums b delta k c.col c.value c.filters

section Rows

variable {σ ν : Type} [Scope σ ν]

/--
The writes of the rows that a walk has yet to yield, after `k` rows were kept; the number of rows kept in
the end; and the scope after the walk.
-/
def writeRows (sums : RowSums) (b : Block) (delta k : Nat) (w : Walk ν) (s : σ) :
    List CellWrite × Nat × σ :=
  match _h : w.next s with
  | (none, _, s) => ([], k, s)
  | (some row, w, s) =>
    if row.isBlank && !row.placeholder then writeRows sums b delta k w s
    else if b.ending = .fixed ∧ b.reservation ≤ k then writeRows sums b delta k w s
    else
      let (writes, kept, s) := writeRows sums b delta (sums.add k 1) w s
      (rowWrites sums b delta k row ++ writes, kept, s)
termination_by w
decreasing_by all_goals exact Walk.before_of_next _h

end Rows

/-- A sheet under construction. -/
structure Draft where
  preparations : List Preparation
  cells : List CellWrite
  shifts : RowShifts
  deriving DecidableEq, Repr

/-- The draft of a plan before its groups are added. -/
def SheetPlan.draft (t : SheetPlan) : Draft := ⟨t.clearings, [], .empty⟩

namespace Draft

variable {σ ν : Type} [Scope σ ν]

/-- Has rows inserted at the end of a group that was moved down by `delta` rows. -/
def insertRows (d : Draft) (sums : RowSums) (b : Block) (delta count : Nat) :
    Except FillError Unit × Draft :=
  let insertion := .insertRows (sums.add b.endRow delta) count (sums.add (sums.add b.startRow 2) delta)
  let (answer, shifts) := d.shifts.attempt b.endRow count
  (answer.mapError .structural, { d with preparations := d.preparations ++ [insertion], shifts })

/-- Expands a group and adds its rows. -/
def addBlock (d : Draft) (sums : RowSums) (b : Block) (s : σ) : Except FillError Unit × Draft × σ :=
  let delta := d.shifts.shift b.startRow
  let (writes, kept, s) := writeRows sums b delta 0 (Walk.ofTiers b.nesting.tiers) s
  let d := { d with cells := d.cells ++ writes }
  if b.ending = .grow ∧ b.reservation < kept then
    let (answer, d) := d.insertRows sums b delta (kept - b.reservation)
    (answer, d, s)
  else (.ok (), d, s)

/-- Expands groups and adds their rows, in order, up to the first failure. -/
def addBlocks (sums : RowSums) : List Block → Draft → σ → Except FillError Unit × Draft × σ
  | [], d, s => (.ok (), d, s)
  | b :: blocks, d, s =>
    match d.addBlock sums b s with
    | (.error e, d, s) => (.error e, d, s)
    | (.ok _, d, s) => addBlocks sums blocks d s

end Draft

section Fill

variable {σ ν : Type} [Scope σ ν]

/-- The write of a cell outside groups. -/
def flatWrite (sums : RowSums) (shifts : RowShifts) (s : σ) (c : PlacedFormula) : CellWrite :=
  let (value, filters) := c.formula.resolve s true
  { row := sums.add c.position.row (shifts.shift c.position.row), col := c.position.col
    templateRow := c.position.row, templateCol := c.position.col
    value, refRow := none, filters }

/-- One output sheet, and the scope after its assembly. -/
def SheetPlan.fillWith (sums : RowSums) (t : SheetPlan) (multiple : Bool) (s : σ) :
    Except FillError Sheet × σ :=
  let name := t.name.value s true
  let (answer, d, s) := Draft.addBlocks sums t.groups t.draft s
  (answer.map fun _ =>
    { name, templateIndex := t.index, multiple, preparations := d.preparations
      cells := d.cells ++ t.flat.map (flatWrite sums d.shifts s) }, s)

/-- One output sheet, and the scope after its assembly, with rows added up without bound. -/
def SheetPlan.fill (t : SheetPlan) (multiple : Bool) (s : σ) : Except FillError Sheet × σ :=
  t.fillWith .unbounded multiple s

end Fill

end SheetFill.Template

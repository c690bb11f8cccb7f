import SheetFill.Cell.Filter

/-!
# Formulas: a cell body and its filters

A cell text is cut at the filter separator, except inside references. The first part is the body, each
further part a filter.

## Main definitions

* `Formula.parse` — body and filters of a cell text.
* `Formula.isInert` — cells that a template leaves as they are.
* `Formula.resolve` — value and invocations in a scope.
* `PlacedFormula` — a formula with its place in the sheet.
-/

namespace SheetFill.Cell

/-- A cell body followed by filters. -/
structure Formula where
  body : Body
  filters : List FilterCall
  deriving DecidableEq, Repr

/-- A formula at its place in a sheet. -/
structure PlacedFormula where
  position : Coordinate
  formula : Formula
  deriving DecidableEq, Repr

namespace Formula

/-- Reads a cell text. -/
def parse (text : String) (separator : Char) : Except FillError Formula :=
  match splitOutside separator text.toList with
  | [] => return { body := ← Body.parse "", filters := [] }
  | body :: filters => do
    let body ← Body.parse (String.ofList body)
    let filters ← filters.mapM FilterCall.parse
    return { body, filters }

/-- Does the cell hold neither references nor filters? -/
def isInert (f : Formula) : Bool := f.body.isConst && f.filters.isEmpty

section Value

variable {σ ν : Type} [Lookup σ ν]

/-- The value of the body and the invocations of the filters. -/
def resolve (f : Formula) (s : σ) (search : Bool) : String × List FilterInvocation :=
  (f.body.value s search, f.filters.map fun filter => filter.invoke s)

end Value

end Formula

end SheetFill.Cell

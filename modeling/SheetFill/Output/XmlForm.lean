import SheetFill.Output.Sheet
import SheetFill.Xml.Element

/-!
# Output sheets as XML

A sheet is an element with the preparations in `priors` and the cells in `cells`; both are written
even when they are empty. Positions are attributes; the value of a cell and the arguments of a filter
are texts.

## Main definitions

* `Sheet.toXml` — the element of a sheet.
-/

namespace SheetFill.Output

open Cell Xml

/-- The element of a preparation. -/
def Preparation.toXml : Preparation → Element
  | .clearCell row col => .empty "clear-cell" [.number "row" row, .number "col" col]
  | .insertRows before count copyFrom =>
    .empty "insert-rows"
      [.number "before" before, .number "count" count, .number "copy-from" copyFrom]

/-- The element of a filter invocation. -/
def filterXml (f : FilterInvocation) : Element :=
  if f.args.isEmpty then .empty "filter" [⟨"name", f.name⟩]
  else .parent "filter" [⟨"name", f.name⟩] (f.args.map (.text "arg" []))

/-- The element of a cell. -/
def CellWrite.toXml (c : CellWrite) : Element :=
  let refRow := match c.refRow with
    | none => []
    | some row => [Attribute.number "ref-row" row]
  .parent "cell"
    ([.number "row" c.row, .number "col" c.col, .number "original-row" c.templateRow,
      .number "original-col" c.templateCol] ++ refRow)
    (.text "value" [] c.value :: c.filters.map filterXml)

/-- The element of a sheet. -/
def Sheet.toXml (s : Sheet) : Element :=
  .parent "sheet"
    [⟨"name", s.name⟩, .number "template" s.templateIndex,
      ⟨"multiple", if s.multiple then "true" else "false"⟩]
    [.parent "priors" [] (s.preparations.map Preparation.toXml),
      .parent "cells" [] (s.cells.map CellWrite.toXml)]

end SheetFill.Output

import SheetFill.Output.Document
import SheetFill.Template.Filling
import SheetFill.Template.Reading
import SheetFill.Workbook.TypedSheet

/-!
# From a template file to a document

The whole way: the bytes of a template file give sheets of typed cells, these give texts and then a
plan, the plan is filled from a data source, and the output sheets are written as they come. The first
failure on the way ends it.

Which bytes make a spreadsheet is left to a decoder; what is settled here is that a file is refused for
its size before its bytes are looked at.

## Main definitions

* `planOf` — the plan of sheets of typed cells.
* `readTemplate` — the plan of a template file.
* `Plan.render` — the document of a filled plan.
* `compile` — the document of sheets of typed cells.
-/

namespace SheetFill

open Output Template

/-- The document of a plan, filled in a scope. Nothing is filled after the first failure. -/
def Template.Plan.render {σ ν : Type} [Scope σ ν] (p : Plan) (format : Format) (s : σ) :
    Except FillError String × σ :=
  let (sheets, s) := p.fillAll s
  (sheets.map format.render, s)

namespace Workbook

/-- The plan of sheets of typed cells. -/
def planOf (settings : Settings) (sheets : List TypedSheet) : Except FillError Plan :=
  match rawSheets? sheets with
  | none => .error .workbook
  | some raw => Plan.ofRaw? settings raw

/--
Reads a template file. A file that cannot be read gives the reason; it is read up to one byte more than
it may have.
-/
def readTemplate (settings : Settings) (decode : ByteArray → Option (List TypedSheet))
    (contents : Except String ByteArray) : Except FillError Plan :=
  match contents with
  | .error reason => .error (.io reason)
  | .ok bytes =>
    if settings.maxTemplateSize < bytes.size then
      .error (.templateTooLarge (settings.maxTemplateSize + 1) settings.maxTemplateSize)
    else match decode bytes with
      | none => .error .workbook
      | some sheets => planOf settings sheets

/-- The document of sheets of typed cells, filled in a scope. -/
def compile {σ ν : Type} [Scope σ ν] (settings : Settings) (sheets : List TypedSheet) (s : σ) :
    Except FillError String × σ :=
  match planOf settings sheets with
  | .error e => (.error e, s)
  | .ok plan => plan.render settings.format s

end Workbook

end SheetFill

import SheetFill.Number.Literal
import SheetFill.Number.Shortest

/-!
# Values of cells

The cells of a spreadsheet file have types; a template is made of texts. A value of any type is read as
the text that one would have typed for it, but for errors, which are no text at all. Dates that the
file keeps as numbers are read as these numbers.

A file names an error by its literal, and only seven literals are known. A cell with another one makes
no sense.

## Main definitions

* `CellError.ofLiteral?` — the error that a literal names.
* `CellValue.isSound` — does a value make sense?
* `CellValue.text?` — the text of a value.

## Main results

* `CellError.ofLiteral?_literal`, `CellError.literal_of_ofLiteral?` — every error has one literal and
  is named by no other text.
-/

namespace SheetFill.Workbook

open Number

/-! ## Errors -/

/-- What a cell shows that has no value. -/
inductive CellError where
  | divisionByZero
  | notAvailable
  | unknownName
  | emptyIntersection
  | invalidNumber
  | lostReference
  | wrongType
  deriving DecidableEq, Repr, Inhabited

namespace CellError

/-- The literal of an error. -/
def literal : CellError → String
  | divisionByZero => "#DIV/0!"
  | notAvailable => "#N/A"
  | unknownName => "#NAME?"
  | emptyIntersection => "#NULL!"
  | invalidNumber => "#NUM!"
  | lostReference => "#REF!"
  | wrongType => "#VALUE!"

/-- All errors. -/
def all : List CellError :=
  [divisionByZero, notAvailable, unknownName, emptyIntersection, invalidNumber, lostReference,
    wrongType]

/-- The error that a literal names. -/
def ofLiteral? (text : String) : Option CellError := all.find? (·.literal = text)

theorem ofLiteral?_literal (e : CellError) : ofLiteral? e.literal = some e := by
  cases e <;> decide

theorem literal_of_ofLiteral? {text : String} {e : CellError} (h : ofLiteral? text = some e) :
    e.literal = text := by
  simpa using List.find?_some h

end CellError

/-! ## Values -/

/-- The value of a cell, as a spreadsheet file holds it. -/
inductive CellValue where
  | text (s : String)
  /-- A number, by its literal. -/
  | number (literal : String)
  | bool (b : Bool)
  /-- A date kept as a text. -/
  | isoDate (s : String)
  /-- An error, by its literal. -/
  | error (literal : String)
  | blank
  deriving DecidableEq, Repr, Inhabited

/--
Numbers are written around a point whatever their size, and whole numbers without one. A decimal
half-way between two others goes up.
-/
def numberLayout : Layout := ⟨none, none, [], .up⟩

/-- The text of a double; a zero has no sign. -/
def doubleText (x : Binary64) : String := if x.isZero then "0" else numberLayout.write x

/-- The text of a number. What is no literal is taken as it is, and what is too large is infinite. -/
def numberText (literal : String) : String :=
  match DecimalLiteral.read? literal.toList with
  | none => literal
  | some d =>
    match d.toDouble? with
    | none => if d.negative then "-inf" else "inf"
    | some x => doubleText x

namespace CellValue

/-- Does a value make sense? An error has to be one of those that are known. -/
def isSound : CellValue → Bool
  | error literal => (CellError.ofLiteral? literal).isSome
  | _ => true

/-- The text of a value, if it has one. An empty text counts as none. -/
def text? (v : CellValue) : Option String :=
  let text := match v with
    | .text s | .isoDate s => s
    | .number literal => numberText literal
    | .bool b => if b then "TRUE" else "FALSE"
    | .error _ | .blank => ""
  if text.isEmpty then none else some text

end CellValue

end SheetFill.Workbook

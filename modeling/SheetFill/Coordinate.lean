import SheetFill.Text.Blank
import SheetFill.Text.Decimal

/-!
# Cell coordinates and A1 references

A cell is addressed by its row and its column, both counted from zero. The A1 form writes the column
in letters and the row, counted from one, in decimal.

Column letters are bijective base 26: `A` to `Z`, then `AA` to `AZ`, `BA` and so on, without a letter
for zero. Rows and columns of a reference are held to 32 bits, so a reference may be out of range in
either part.

## Main definitions

* `Coordinate.toA1` — the A1 form.
* `Coordinate.ofA1?` — the reading of a reference, or the fault that is found first: missing letters,
  an unreadable row, row zero, a column out of range.
-/

namespace SheetFill

open Text

/-- The position of a cell; row and column count from zero. -/
@[ext]
structure Coordinate where
  row : Nat
  col : Nat
  deriving DecidableEq, Repr, Inhabited

/-- Why the row of a cell reference cannot be read. -/
inductive RowFault where
  | empty
  | notADigit
  | tooLarge
  deriving DecidableEq, Repr

/-- Why a text is no cell reference. -/
inductive CoordinateFault where
  | missingLetters (text : String)
  | badRow (text : String) (fault : RowFault)
  | rowZero (text : String)
  | columnOutOfRange (letters : String)
  deriving DecidableEq, Repr

namespace RowFault

def message : RowFault → String
  | .empty => "cannot parse integer from empty string"
  | .notADigit => "invalid digit found in string"
  | .tooLarge => "number too large to fit in target type"

end RowFault

namespace CoordinateFault

def message : CoordinateFault → String
  | .missingLetters text => "Missing column letters in cell reference '" ++ text ++ "'"
  | .badRow text fault => "Invalid row in cell reference '" ++ text ++ "': " ++ fault.message
  | .rowZero text => "Row numbers start at 1 in cell reference '" ++ text ++ "'"
  | .columnOutOfRange letters => "Column '" ++ letters ++ "' is out of range"

end CoordinateFault

namespace Coordinate

/-- The largest row or column number that a reference may spell. -/
def maxNumber : Nat := 4294967295

/-- Reading order: by rows, and inside a row by columns. -/
def le (a b : Coordinate) : Bool := a.row < b.row || (a.row == b.row && a.col ≤ b.col)

theorem le_iff {a b : Coordinate} : a.le b ↔ a.row < b.row ∨ a.row = b.row ∧ a.col ≤ b.col := by
  simp [le]

theorem le_total (a b : Coordinate) : a.le b ∨ b.le a := by
  simp only [le_iff]
  omega

theorem le_trans (a b c : Coordinate) : a.le b → b.le c → a.le c := by
  simp only [le_iff]
  omega

/-! ## Writing -/

/-- The letters of a column. -/
def columnLetters (col : Nat) : List Char :=
  if col < 26 then [Char.ofNat (65 + col)]
  else columnLetters (col / 26 - 1) ++ [Char.ofNat (65 + col % 26)]
termination_by col
decreasing_by omega

/-- The A1 form of a coordinate. -/
def toA1 (c : Coordinate) : String :=
  String.ofList (columnLetters c.col ++ decimalDigits (c.row + 1))

/-! ## Reading -/

/-- The number that column letters spell, counted from one, after letters that spell `n`. -/
def readColumn : Nat → List Char → Option Nat
  | n, [] => some n
  | n, c :: cs =>
    let n := n * 26 + (c.toUpper.toNat - 64)
    if n ≤ maxNumber then readColumn n cs else none

/-- Reads digits after a number `n`; of a wrong character and an excess the leftmost is reported. -/
def readDigits : Nat → List Char → Except RowFault Nat
  | n, [] => .ok n
  | n, c :: cs =>
    if c.isDigit then
      let n := 10 * n + digitValue c
      if n ≤ maxNumber then readDigits n cs else .error .tooLarge
    else .error .notADigit

/-- Reads a row number: digits, with an optional plus sign before them. -/
def readRow : List Char → Except RowFault Nat
  | [] => .error .empty
  | ['+'] => .error .notADigit
  | '+' :: cs => readDigits 0 cs
  | cs => readDigits 0 cs

/-- Reads a cell reference; blanks around it are ignored. -/
def ofA1? (reference : String) : Except CoordinateFault Coordinate :=
  let text := trim reference.toList
  let letters := text.takeWhile Char.isAlpha
  if letters.isEmpty then .error (.missingLetters (String.ofList text))
  else match readRow (text.dropWhile Char.isAlpha) with
    | .error fault => .error (.badRow (String.ofList text) fault)
    | .ok 0 => .error (.rowZero (String.ofList text))
    | .ok (row + 1) => match readColumn 0 letters with
      | none => .error (.columnOutOfRange (String.ofList letters))
      | some n => .ok ⟨row, n - 1⟩

end Coordinate

end SheetFill

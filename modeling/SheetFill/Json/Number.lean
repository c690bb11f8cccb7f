import SheetFill.Number.Literal
import SheetFill.Number.Shortest

/-!
# JSON numbers

An integer literal that fits 64 bits, signed or unsigned, is kept as an integer. Every other number is
a double: its digits are taken up as long as they fit 64 bits, what is left of the whole part counts as
powers of ten, what is left of the fraction is passed over, and the digits so gathered are multiplied
or divided by a power of ten, in double precision. A number beyond the largest double is refused.

## Main definitions

* `Number.read?` — the number of a literal.
* `Number.text` — its text: integers in plain digits, doubles in the layout `layout`.
-/

namespace SheetFill.Json

open Number Text

/-- A JSON number. -/
inductive Number where
  /-- A number from zero up. -/
  | natural (n : Nat)
  /-- The negative of a number. -/
  | negative (n : Nat)
  | double (x : Binary64)
  deriving DecidableEq, Repr, Inhabited

namespace Number

/-! ## The grammar of literals -/

/-- The parts of a number literal. -/
structure Literal where
  minus : Bool
  whole : List Char
  fraction : List Char
  /-- The exponent that is written, if there is one. -/
  exponent : Option Int
  deriving DecidableEq, Repr

/-- Reads what follows the whole part of a literal. -/
def readFraction : List Char → Option (List Char × Option Int)
  | '.' :: cs =>
    let fraction := cs.takeWhile Char.isDigit
    if fraction.isEmpty then none
    else (readExponent (cs.dropWhile Char.isDigit)).map fun exponent => (fraction, exponent)
  | cs => (readExponent cs).map fun exponent => ([], exponent)

/-- Reads the parts of a literal. A whole part of several digits does not start with a zero. -/
def readLiteral (cs : List Char) : Option Literal :=
  let (minus, cs) := match cs with
    | '-' :: cs => (true, cs)
    | cs => (false, cs)
  let whole := cs.takeWhile Char.isDigit
  if whole.isEmpty || (whole.head? == some '0' && whole.length ≠ 1) then none
  else (readFraction (cs.dropWhile Char.isDigit)).map fun (fraction, exponent) =>
    { minus, whole, fraction, exponent }

/-! ## The value of a literal -/

/-- The largest number of 64 bits. -/
def maxWord : Nat := 18446744073709551615

/-- The largest magnitude of a negative number of 64 bits. -/
def maxNegative : Nat := 9223372036854775808

/-- Takes up digits as long as the number fits 64 bits; the digits that are left. -/
def absorb : Nat → List Char → Nat × List Char
  | n, [] => (n, [])
  | n, c :: cs =>
    let next := 10 * n + digitValue c
    if next ≤ maxWord then absorb next cs else (n, c :: cs)

/-- The largest power of ten by which a double is multiplied or divided at once. -/
def maxPower : Nat := 308

/-- A power of ten as a double. -/
def powerOfTen (n : Nat) : Binary64 := (roundRatio false (tenPow n) 1).getD (.zero false)

/-- Divides a double by `10 ^ n`, in steps of the largest power, until nothing is left of it. -/
def divideByPower (x : Binary64) (n : Nat) : Option Binary64 :=
  if n ≤ maxPower then x.div (powerOfTen n)
  else if x.isZero then some x
  else (x.div (powerOfTen maxPower)).bind fun y => divideByPower y (n - maxPower)
termination_by n
decreasing_by
  have positive : 0 < maxPower := by decide
  omega

/-- The double `±n * 10 ^ e`. -/
def scaled (minus : Bool) (n : Nat) (e : Int) : Option Binary64 :=
  match roundRatio minus n 1 with
  | none => none
  | some x =>
    if e < 0 then divideByPower x e.natAbs
    else if e ≤ maxPower then x.mul (powerOfTen e.toNat)
    else if x.isZero then some x
    else none

/-- The number of a literal. -/
def ofLiteral (l : Literal) : Option Number :=
  let (n, wholeLeft) := absorb 0 l.whole
  if l.fraction.isEmpty && l.exponent.isNone && wholeLeft.isEmpty then
    if !l.minus then some (.natural n)
    else if 1 ≤ n ∧ n ≤ maxNegative then some (.negative n)
    else (scaled true n 0).map .double
  else
    let (n, fractionLeft) := absorb n l.fraction
    let taken := l.fraction.length - fractionLeft.length
    (scaled l.minus n ((wholeLeft.length : Int) - taken + l.exponent.getD 0)).map .double

/-- Reads a number. -/
def read? (cs : List Char) : Option Number := (readLiteral cs).bind ofLiteral

/-! ## Text -/

/--
Doubles with exponents from -5 to 15 are written around a point, with a digit behind it; others in
scientific form. A half goes to the even neighbour.
-/
def layout : Layout := ⟨some (-5), some 16, ['.', '0'], .toEven⟩

/-- The text of a number. -/
def text : Number → String
  | .natural n => decimal n
  | .negative n => "-" ++ decimal n
  | .double x => layout.write x

end Number

end SheetFill.Json

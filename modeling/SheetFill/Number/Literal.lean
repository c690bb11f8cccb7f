import SheetFill.Number.Binary64
import SheetFill.Text.Decimal

/-!
# Decimal literals

A decimal literal is a sign, digits with a point among them or at either end, and an exponent; sign,
point and exponent may be missing, but not all digits. It stands for an exact decimal, which is rounded
once to give a double.

## Main definitions

* `readExponent` — the exponent at the end of a literal.
* `DecimalLiteral.read?`, `DecimalLiteral.toDouble?` — the decimal, and the double nearest to it.
-/

namespace SheetFill.Number

open Text

/-- Reads a sign, which is a minus or a plus or missing. Is it a minus? -/
def readSign : List Char → Bool × List Char
  | '-' :: cs => (true, cs)
  | '+' :: cs => (false, cs)
  | cs => (false, cs)

/-- Reads the exponent at the end of a literal, if there is one. -/
def readExponent : List Char → Option (Option Int)
  | [] => some none
  | e :: cs =>
    if e = 'e' ∨ e = 'E' then
      let (minus, digits) := readSign cs
      if digits.isEmpty || digits.any (fun c => !c.isDigit) then none
      else
        let n : Int := digitsValue digits
        some (some (if minus then -n else n))
    else none

/-- The decimal `±coefficient * 10 ^ exponent`. -/
structure DecimalLiteral where
  negative : Bool
  coefficient : Nat
  exponent : Int
  deriving DecidableEq, Repr

namespace DecimalLiteral

/-- Reads the digits after the point, if there is a point. -/
def readFraction : List Char → List Char × List Char
  | '.' :: cs => (cs.takeWhile Char.isDigit, cs.dropWhile Char.isDigit)
  | cs => ([], cs)

/-- Reads a decimal literal. -/
def read? (cs : List Char) : Option DecimalLiteral :=
  let (negative, cs) := readSign cs
  let whole := cs.takeWhile Char.isDigit
  let (fraction, cs) := readFraction (cs.dropWhile Char.isDigit)
  if whole.isEmpty && fraction.isEmpty then none
  else (readExponent cs).map fun exponent =>
    { negative, coefficient := digitsValue (whole ++ fraction)
      exponent := exponent.getD 0 - fraction.length }

/-- From this power of ten on a decimal is beyond the largest double. -/
def tooLarge : Int := 310

/-- Below this power of ten a decimal is nearer to zero than to any other double. -/
def tooSmall : Int := -330

/-- The double nearest to a decimal, if that is not beyond the largest double. -/
def toDouble? (d : DecimalLiteral) : Option Binary64 :=
  let magnitude := d.exponent + (decimalDigits d.coefficient).length
  if d.coefficient = 0 ∨ magnitude < tooSmall then some (.zero d.negative)
  else if tooLarge < magnitude then none
  else roundRatio d.negative (d.coefficient * tenPow d.exponent.toNat)
    (tenPow (-d.exponent).toNat)

end DecimalLiteral

end SheetFill.Number

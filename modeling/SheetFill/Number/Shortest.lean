import SheetFill.Number.Binary64
import SheetFill.Text.Decimal

/-!
# Shortest decimal text of a double

A double is written with the fewest decimal digits that still read back as that double, and of the
decimals with so few digits the nearest one is taken.

The decimals that read back as a double fill an interval around it: half-way to its two neighbours,
the ends included exactly if its mantissa is even. For one digit, two digits and so on, the two
neighbours of the value on the grid of decimals with so many digits are tested against the interval;
if any decimal of that grid lies in it, one of these two does.

How digits and exponent are laid out is a matter of the output format, and given by a `Layout`.

## Main definitions

* `shortest` — digits and exponent.
* `Layout`, `Layout.write` — the text.
-/

namespace SheetFill.Number

open Text

/-- A decimal number: `0.d₁d₂… * 10 ^ (exponent + 1)`, where `exponent` is that of the first digit. -/
structure Decimal where
  digits : List Char
  exponent : Int
  deriving DecidableEq, Repr

/-- Where a decimal half-way between two others goes. -/
inductive Tie where
  | toEven
  | up
  deriving DecidableEq, Repr

/-- The exponent of the first decimal digit of a positive fraction. -/
def firstExponent (num den : Nat) : Int :=
  let e : Int := ((decimalDigits num).length : Int) - (decimalDigits den).length
  if den * tenPow e.toNat ≤ num * tenPow (-e).toNat then e else e - 1

/--
The interval that rounds to the double `x`, in units of a quarter of its last place: its two ends, as
numbers of such units.
-/
def roundingInterval (x : Binary64) : Nat × Nat :=
  if x.mantissa = leastFull ∧ minExponent < x.exponent then
    (4 * x.mantissa - 1, 4 * x.mantissa + 2)
  else (4 * x.mantissa - 2, 4 * x.mantissa + 2)

/-- Does the decimal `n * 10 ^ p` read back as `x`? -/
def readsBack (x : Binary64) (n : Nat) (p : Int) : Bool :=
  let (low, high) := roundingInterval x
  -- All three numbers are brought to whole multiples of one unit.
  let decimal := n * tenPow p.toNat * twoPow (2 - x.exponent).toNat
  let binaryScale := tenPow (-p).toNat * twoPow (x.exponent - 2).toNat
  if x.mantissa % 2 = 0 then
    decide (low * binaryScale ≤ decimal) && decide (decimal ≤ high * binaryScale)
  else decide (low * binaryScale < decimal) && decide (decimal < high * binaryScale)

/-- The digits of a number without its last zeros, and how many zeros these were. -/
def stripZeros (n : Nat) : Nat × Nat :=
  let digits := (decimalDigits n).reverse
  let zeros := (digits.takeWhile (· == '0')).length
  (n / tenPow zeros, zeros)

/-- The nearer of the two neighbours of `x` on the grid of multiples of `10 ^ p` that read back. -/
def onGrid (tie : Tie) (x : Binary64) (p : Int) : Option Nat :=
  let num := x.ratio.1 * tenPow (-p).toNat
  let den := x.ratio.2 * tenPow p.toNat
  let below := num / den
  let rest := num % den
  match readsBack x below p && decide (0 < below), readsBack x (below + 1) p with
  | false, false => none
  | true, false => some below
  | false, true => some (below + 1)
  | true, true =>
    if 2 * rest < den then some below
    else if den < 2 * rest then some (below + 1)
    else match tie with
      | .toEven => some (below + below % 2)
      | .up => some (below + 1)

/-- Searches the grids of `n`, `n + 1`, … digits, `more` of them. -/
def searchGrids (tie : Tie) (x : Binary64) (first : Int) (n : Nat) : Nat → Option (Nat × Int)
  | 0 => none
  | more + 1 =>
    match onGrid tie x (first - n + 1) with
    | some m => some (m, first - n + 1)
    | none => searchGrids tie x first (n + 1) more

/-- The shortest decimal that reads back as a double; seventeen digits always do. -/
def shortest (tie : Tie) (x : Binary64) : Decimal :=
  if x.isZero then ⟨['0'], 0⟩
  else
    match searchGrids tie x (firstExponent x.ratio.1 x.ratio.2) 1 17 with
    | none => ⟨['0'], 0⟩
    | some (m, p) =>
      let (m, zeros) := stripZeros m
      ⟨decimalDigits m, p + zeros + (decimalDigits m).length - 1⟩

/-- How an output format writes doubles. -/
structure Layout where
  /-- Decimals with a lower exponent are written in scientific form, if there is such a limit. -/
  lowest : Option Int
  /-- So are decimals with this exponent or a higher one. -/
  limit : Option Int
  /-- What follows a whole number in positional form. -/
  wholeEnd : List Char
  tie : Tie
  deriving DecidableEq, Repr

namespace Layout

/-- Digits around a decimal point. -/
def positional (layout : Layout) (d : Decimal) : List Char :=
  if d.exponent < 0 then
    '0' :: '.' :: (List.replicate (-d.exponent - 1).toNat '0' ++ d.digits)
  else
    let whole := d.exponent.toNat + 1
    let fraction := d.digits.drop whole
    d.digits.take whole ++ List.replicate (whole - d.digits.length) '0' ++
      (if fraction.isEmpty then layout.wholeEnd else '.' :: fraction)

/-- One digit before the point, and the exponent with its sign. -/
def scientific (d : Decimal) : List Char :=
  d.digits.take 1 ++ (if d.digits.length ≤ 1 then [] else '.' :: d.digits.drop 1) ++
    'e' :: (if d.exponent < 0 then '-' else '+') :: decimalDigits d.exponent.natAbs

/-- Is the decimal written around a point? -/
def isPositional (layout : Layout) (d : Decimal) : Bool :=
  (match layout.lowest with
    | none => true
    | some lowest => decide (lowest ≤ d.exponent)) &&
  (match layout.limit with
    | none => true
    | some limit => decide (d.exponent < limit))

/-- The text of a double. -/
def write (layout : Layout) (x : Binary64) : String :=
  let d := shortest layout.tie x
  let text := if layout.isPositional d then layout.positional d else scientific d
  String.ofList (if x.negative then '-' :: text else text)

end Layout

end SheetFill.Number

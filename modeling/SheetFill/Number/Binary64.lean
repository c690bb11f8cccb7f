import SheetFill.Number.Power

/-!
# Double-precision numbers

The finite double-precision numbers as exact values: a sign, a mantissa below `2 ^ 53` and an exponent
of two. Arithmetic is done on exact fractions and rounded once, to the nearest double, a tie going to
the even mantissa; nothing depends on the arithmetic of the machine.

## Main definitions

* `Binary64` — a finite double.
* `roundRatio` — the double nearest to a fraction, or none where the fraction is too large.
* `Binary64.mul`, `Binary64.div` — rounded products and quotients.
-/

namespace SheetFill.Number

/--
A finite double, of value `±mantissa * 2 ^ exponent`. The mantissa has 53 bits, or the exponent is the
least one.
-/
structure Binary64 where
  negative : Bool
  mantissa : Nat
  exponent : Int
  deriving DecidableEq, Repr, Inhabited

/-- The least exponent of a double. -/
def minExponent : Int := -1074

/-- The largest exponent of a double. -/
def maxExponent : Int := 971

/-- The least mantissa of 53 bits. -/
def leastFull : Nat := twoPow 52

/-- The quotient rounded to the nearest whole number, a tie to the even one. -/
def divRound (num den : Nat) : Nat :=
  let q := num / den
  let r := num % den
  if 2 * r < den then q
  else if den < 2 * r then q + 1
  else q + q % 2

/-- A fraction scaled by a power of two. -/
def scaleRatio (num den : Nat) (e : Int) : Nat × Nat :=
  (num * twoPow e.toNat, den * twoPow (-e).toNat)

/-- The exponent at which the whole part of a positive fraction has 53 bits, or the least exponent. -/
def ratioExponent (num den : Nat) : Int :=
  let e : Int := (num.log2 : Int) - den.log2 - 52
  let (n, d) := scaleRatio num den (-e)
  let e := if n < d * leastFull then e - 1 else e
  if e < minExponent then minExponent else e

/-- The double nearest to `num / den`, if that is not beyond the largest double. -/
def roundRatio (negative : Bool) (num den : Nat) : Option Binary64 :=
  if num = 0 then some ⟨negative, 0, minExponent⟩
  else
    let e := ratioExponent num den
    let (n, d) := scaleRatio num den (-e)
    let q := divRound n d
    let (q, e) := if q = 2 * leastFull then (leastFull, e + 1) else (q, e)
    if maxExponent < e then none else some ⟨negative, q, e⟩

namespace Binary64

/-- Zero of either sign. -/
def zero (negative : Bool) : Binary64 := ⟨negative, 0, minExponent⟩

/-- Is it a zero? -/
def isZero (x : Binary64) : Bool := x.mantissa == 0

/-- The magnitude as a fraction. -/
def ratio (x : Binary64) : Nat × Nat := scaleRatio x.mantissa 1 x.exponent

/-- The product with another magnitude. -/
def mul (x y : Binary64) : Option Binary64 :=
  roundRatio x.negative (x.ratio.1 * y.ratio.1) (x.ratio.2 * y.ratio.2)

/-- The quotient by another magnitude, which is not zero. -/
def div (x y : Binary64) : Option Binary64 :=
  roundRatio x.negative (x.ratio.1 * y.ratio.2) (x.ratio.2 * y.ratio.1)

end Binary64

example : roundRatio false 1 3 = some ⟨false, 6004799503160661, -54⟩ := by decide +kernel
example : roundRatio true (twoPow 1024) 1 = none := by decide +kernel

end SheetFill.Number

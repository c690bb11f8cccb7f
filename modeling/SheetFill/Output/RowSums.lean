/-!
# Sums of row numbers

The rows of a sheet are numbers of 32 bits. A sum of such numbers may need more, and it then wraps around.
That happens in no sheet of a reasonable size, and where it does not, sums are what they are for all natural
numbers. Everything that adds up rows is told which of the two kinds of sums to use.

## Main definitions

* `RowSums` — sums without bound, and sums of 32 bits.
* `RowSums.hold` — what is left of a number.

## Main results

* `RowSums.hold_hold_add` — it does not matter where in a sum the bits beyond are dropped.
* `RowSums.hold_of_lt` — rows of 32 bits are left as they are.
-/

namespace SheetFill.Output

/-- The kinds of sums. -/
inductive RowSums where
  /-- Sums of natural numbers. -/
  | unbounded
  /-- Sums of 32 bits, which wrap around. -/
  | wrapping
  deriving DecidableEq, Repr

namespace RowSums

/-- The number of rows that 32 bits can tell apart. -/
def limit : Nat := 4294967296

/-- The sum of two row numbers. -/
def add : RowSums → Nat → Nat → Nat
  | .unbounded, a, b => a + b
  | .wrapping, a, b => (a + b) % limit

/-- What is left of a number. -/
def hold : RowSums → Nat → Nat
  | .unbounded, n => n
  | .wrapping, n => n % limit

@[simp] theorem hold_unbounded (n : Nat) : hold .unbounded n = n := rfl

@[simp] theorem add_unbounded (a b : Nat) : add .unbounded a b = a + b := rfl

theorem add_eq_hold (sums : RowSums) (a b : Nat) : sums.add a b = sums.hold (a + b) := by
  cases sums with
  | unbounded => rfl
  | wrapping => rfl

/-- It does not matter where in a sum the bits beyond are dropped. -/
@[simp] theorem hold_hold_add (sums : RowSums) (a b : Nat) :
    sums.hold (sums.hold a + b) = sums.hold (a + b) := by
  cases sums with
  | unbounded => rfl
  | wrapping => exact Nat.mod_add_mod a limit b

/-- Numbers of 32 bits are left as they are. -/
theorem hold_of_lt (sums : RowSums) {n : Nat} (h : n < limit) : sums.hold n = n := by
  cases sums with
  | unbounded => rfl
  | wrapping => exact Nat.mod_eq_of_lt h

/-- Below a number that is left as it is, all are. -/
theorem hold_of_le (sums : RowSums) {n m : Nat} (hm : sums.hold m = m) (h : n ≤ m) : sums.hold n = n := by
  cases sums with
  | unbounded => rfl
  | wrapping =>
      have hlt : m < limit := Nat.mod_eq_iff_lt (by decide) |>.1 hm
      exact Nat.mod_eq_of_lt (Nat.lt_of_le_of_lt h hlt)

end RowSums

end SheetFill.Output

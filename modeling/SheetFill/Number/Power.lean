/-!
# Powers of two and ten

The two bases between which numbers are converted.
-/

namespace SheetFill.Number

/-- Two to the power `n`. -/
def twoPow (n : Nat) : Nat := Nat.pow 2 n

/-- Ten to the power `n`. -/
def tenPow (n : Nat) : Nat := Nat.pow 10 n

theorem tenPow_succ (n : Nat) : tenPow (n + 1) = tenPow n * 10 := rfl

theorem tenPow_pos (n : Nat) : 0 < tenPow n := Nat.pow_pos (n := n) (show 0 < 10 by decide)

end SheetFill.Number

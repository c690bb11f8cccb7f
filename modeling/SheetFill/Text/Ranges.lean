/-!
# Character classes as range tables

A character class of the Unicode standard is a long list of code points with long runs in it. It is
kept as an ascending list of inclusive ranges, and a look-up stops at the first range that ends at or
after the code point: a low code point is settled after a few comparisons, however long the table is.
-/

namespace SheetFill.Text

/-- Is `n` in one of the inclusive ranges of an ascending table? -/
def inRanges : List (Nat × Nat) → Nat → Bool
  | [], _ => false
  | (lo, hi) :: rest, n => if n ≤ hi then decide (lo ≤ n) else inRanges rest n

/-- What is found in a table is in one of its ranges. -/
theorem exists_of_inRanges {ranges : List (Nat × Nat)} {n : Nat} (h : inRanges ranges n = true) :
    ∃ range ∈ ranges, range.1 ≤ n ∧ n ≤ range.2 := by
  induction ranges with
  | nil => cases h
  | cons range rest ih =>
      rw [inRanges] at h
      split at h
      · next hhi => exact ⟨range, List.mem_cons_self, of_decide_eq_true h, hhi⟩
      · obtain ⟨found, hmem, hbounds⟩ := ih h
        exact ⟨found, List.mem_cons_of_mem _ hmem, hbounds⟩

end SheetFill.Text

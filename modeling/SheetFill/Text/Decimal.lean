/-!
# Natural numbers in decimal

Row numbers, counts and sizes are written in plain decimal digits, without sign, leading zeros or
separators. `digitsValue` reads such digits back; it also gives a value to digit sequences with
leading zeros.

## Main results

* `digitsValue_decimalDigits` — what is written reads back.
* `isDigit_of_mem_decimalDigits`, `decimalDigits_ne_nil` — only digits are written, and at least one.
* `eq_zero_of_head?_decimalDigits` — the first digit is a zero only if it is the only one.
-/

namespace SheetFill.Text

/-- The decimal digit of a number below ten. -/
def digitChar (d : Nat) : Char := Char.ofNat (48 + d)

/-- The number that a decimal digit stands for. -/
def digitValue (c : Char) : Nat := c.toNat - 48

/-- The decimal digits of a number, the most significant first. -/
def decimalDigits (n : Nat) : List Char :=
  if n < 10 then [digitChar n] else decimalDigits (n / 10) ++ [digitChar (n % 10)]
termination_by n
decreasing_by omega

/-- A number in decimal. -/
def decimal (n : Nat) : String := String.ofList (decimalDigits n)

/-- The number that a sequence of decimal digits stands for. -/
def digitsValue (cs : List Char) : Nat := cs.foldl (fun v c => 10 * v + digitValue c) 0

theorem digitValue_digitChar {d : Nat} (h : d < 10) : digitValue (digitChar d) = d := by
  have all : ∀ e ∈ List.range 10, digitValue (digitChar e) = e := by decide
  exact all d (List.mem_range.mpr h)

theorem isDigit_digitChar {d : Nat} (h : d < 10) : (digitChar d).isDigit = true := by
  have all : ∀ e ∈ List.range 10, (digitChar e).isDigit = true := by decide
  exact all d (List.mem_range.mpr h)

/-- Every digit is the digit of a number below ten. -/
theorem exists_digitChar {c : Char} (h : c.isDigit = true) : ∃ d < 10, c = digitChar d := by
  simp only [Char.isDigit, Bool.and_eq_true, decide_eq_true_eq, ge_iff_le, UInt32.le_iff_toNat_le] at h
  have hlow : 48 ≤ c.toNat := h.1
  have hhigh : c.toNat ≤ 57 := h.2
  refine ⟨c.toNat - 48, by omega, ?_⟩
  rw [digitChar, show 48 + (c.toNat - 48) = c.toNat by omega, Char.ofNat_toNat]

/-- Further digits do not make a number smaller. -/
theorem digitsValue_le_foldl (cs : List Char) (n : Nat) :
    n ≤ cs.foldl (fun v c => 10 * v + digitValue c) n := by
  induction cs generalizing n with
  | nil => exact Nat.le_refl _
  | cons c cs ih =>
      have := ih (10 * n + digitValue c)
      rw [List.foldl_cons]
      omega

theorem digitsValue_decimalDigits (n : Nat) : digitsValue (decimalDigits n) = n := by
  rw [decimalDigits]
  split
  · next h => simp [digitsValue, digitValue_digitChar h]
  · have ih := digitsValue_decimalDigits (n / 10)
    simp only [digitsValue, List.foldl_append, List.foldl_cons, List.foldl_nil] at ih ⊢
    rw [ih, digitValue_digitChar (by omega)]
    omega
termination_by n
decreasing_by omega

theorem isDigit_of_mem_decimalDigits {n : Nat} {c : Char} (h : c ∈ decimalDigits n) :
    c.isDigit = true := by
  rw [decimalDigits] at h
  split at h
  · next hn =>
      rw [List.mem_singleton.mp h]
      exact isDigit_digitChar hn
  · rcases List.mem_append.mp h with h | h
    · exact isDigit_of_mem_decimalDigits h
    · rw [List.mem_singleton.mp h]
      exact isDigit_digitChar (by omega)
termination_by n
decreasing_by omega

theorem decimalDigits_ne_nil (n : Nat) : decimalDigits n ≠ [] := by
  rw [decimalDigits]
  split <;> simp

/-- There are no leading zeros. -/
theorem eq_zero_of_head?_decimalDigits {n : Nat} (h : (decimalDigits n).head? = some '0') : n = 0 := by
  rw [decimalDigits] at h
  split at h
  · next hn =>
      have all : ∀ m ∈ List.range 10, digitChar m = '0' → m = 0 := by decide
      exact all n (List.mem_range.2 hn) (Option.some.inj h)
  · next hn =>
      have hfirst : (decimalDigits (n / 10)).head? = some '0' := by
        rw [List.head?_append] at h
        cases hdigits : decimalDigits (n / 10) with
        | nil => exact absurd hdigits (decimalDigits_ne_nil _)
        | cons c cs =>
            rw [hdigits] at h
            exact h
      have := eq_zero_of_head?_decimalDigits hfirst
      omega
termination_by n
decreasing_by omega

end SheetFill.Text

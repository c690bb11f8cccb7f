import SheetFill.Text.Ranges

/-!
# Blanks

Text around names, paths and filters is trimmed of *blanks*: the characters with the Unicode property
White_Space. The zero-width space and the byte order mark do not have it, the ideographic space does.

## Main definitions

* `isBlank` — the class.
* `trimStart`, `trimEnd`, `trim` — removal of the blanks at one end, or at both.
* `allBlank` — nothing is left after trimming.
-/

namespace SheetFill.Text

/-- The characters with the property White_Space, as ascending ranges. -/
def blankRanges : List (Nat × Nat) := [
  (0x09, 0x0D), (0x20, 0x20), (0x85, 0x85), (0xA0, 0xA0), (0x1680, 0x1680), (0x2000, 0x200A),
  (0x2028, 0x2029), (0x202F, 0x202F), (0x205F, 0x205F), (0x3000, 0x3000)]

/-- A blank is a character with the property White_Space. -/
def isBlank (c : Char) : Bool := inRanges blankRanges c.toNat

/-- Removes the blanks at the start. -/
def trimStart (cs : List Char) : List Char := cs.dropWhile isBlank

/-- Removes the blanks at the end. -/
def trimEnd (cs : List Char) : List Char := (cs.reverse.dropWhile isBlank).reverse

/-- Removes the blanks at both ends. -/
def trim (cs : List Char) : List Char := trimEnd (trimStart cs)

/-- A text that holds blanks only, or nothing. -/
def allBlank (cs : List Char) : Bool := cs.all isBlank

theorem mem_trimStart {c : Char} {cs : List Char} (hc : c ∈ cs) (hblank : isBlank c = false) :
    c ∈ trimStart cs := by
  rw [trimStart]
  induction cs with
  | nil => exact hc
  | cons d ds ih =>
      rw [List.dropWhile_cons]
      split
      · next hd =>
          rcases List.mem_cons.1 hc with rfl | hc
          · rw [hblank] at hd
            cases hd
          · exact ih hc
      · exact hc

/-- What is not a blank is not trimmed. -/
theorem mem_trim {c : Char} {cs : List Char} (hc : c ∈ cs) (hblank : isBlank c = false) :
    c ∈ trim cs := by
  rw [trim, trimEnd, List.mem_reverse]
  exact mem_trimStart (List.mem_reverse.2 (mem_trimStart hc hblank)) hblank

theorem mem_of_mem_trim {c : Char} {cs : List Char} (h : c ∈ trim cs) : c ∈ cs := by
  rw [trim, trimEnd, List.mem_reverse] at h
  exact (List.dropWhile_sublist _).subset (List.mem_reverse.1 ((List.dropWhile_sublist _).subset h))

theorem exists_mem_of_not_allBlank {cs : List Char} (h : ¬ allBlank cs = true) :
    ∃ c ∈ cs, isBlank c = false := by
  rw [allBlank, List.all_eq_true, Classical.not_forall] at h
  obtain ⟨c, hc⟩ := h
  rw [Classical.not_imp, Bool.not_eq_true] at hc
  exact ⟨c, hc⟩

theorem trimStart_eq_self {cs : List Char} (h : ∀ c ∈ cs.head?, isBlank c = false) : trimStart cs = cs := by
  cases cs with
  | nil => rfl
  | cons c cs => exact List.dropWhile_cons_of_neg (Bool.eq_false_iff.1 (h c rfl))

/-- A text that neither begins nor ends with a blank stays as it is. -/
theorem trim_eq_self {cs : List Char} (hhead : ∀ c ∈ cs.head?, isBlank c = false)
    (hlast : ∀ c ∈ cs.getLast?, isBlank c = false) : trim cs = cs := by
  have hreverse : trimStart cs.reverse = cs.reverse :=
    trimStart_eq_self fun c hc => hlast c (by rwa [List.head?_reverse] at hc)
  rw [trim, trimStart_eq_self hhead, trimEnd, ← trimStart, hreverse, List.reverse_reverse]

theorem trim_cons_of_isBlank {c : Char} (h : isBlank c = true) (cs : List Char) :
    trim (c :: cs) = trim cs := by
  rw [trim, trimStart, List.dropWhile_cons_of_pos h, ← trimStart, ← trim]

theorem trim_eq_nil_of_allBlank {cs : List Char} (h : allBlank cs = true) : trim cs = [] := by
  induction cs with
  | nil => rfl
  | cons c cs ih =>
      rw [allBlank, List.all_cons, Bool.and_eq_true] at h
      rw [trim_cons_of_isBlank h.1, ih h.2]

example : trim "\u3000 a b\t".toList = "a b".toList := by decide
example : isBlank '\u200b' = false := by decide

end SheetFill.Text

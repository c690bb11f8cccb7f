import Mathlib.Data.List.Basic
import Mathlib.Data.List.Induction
import Mathlib.Data.List.TakeWhile
import SheetFill.Coordinate

/-!
# A1 references, read and written

The letters of a column are digits from one to twenty-six of a numeral system without a zero, so every number
from one on has exactly one spelling in capitals. Rows are decimal: a spelling may have zeros in front, and a
plus sign before them, and without these it is the only one of its row. Both numbers are held to the same
bound while they are read, and since further characters never make a number smaller, a spelling is refused
exactly if the number that it stands for exceeds the bound.

So a reference is read as soon as it has the right form, what is read is written in a normal form of it, and
two references name the same cell only if they have the same normal form.

## Main definitions

* `Coordinate.lettersValue` — the number that column letters stand for.
* `Coordinate.IsA1` — a text is made of letters and digits whose numbers are in range.
* `Coordinate.normalForm` — capitals, and digits without leading zeros.

## Main results

* `columnLetters_lettersValue`, `lettersValue_columnLetters` — letters and columns determine each other.
* `ofA1?_eq_ok_iff` — the references that are read, and what is read.
* `Coordinate.ofA1?_normalizes` — reading and writing are inverse, up to the normal form.
-/

namespace SheetFill

namespace Text

/-- Written back, digits lose the zeros in front; nothing is left of a number that is zero. -/
theorem dropWhile_zero_eq {ds : List Char} (h : ∀ c ∈ ds, c.isDigit = true) :
    ds.dropWhile (· == '0') = if digitsValue ds = 0 then [] else decimalDigits (digitsValue ds) := by
  induction ds using List.reverseRecOn with
  | nil => rfl
  | append_singleton ds c ih =>
      have hfront := ih fun c hc => h c (List.mem_append_left _ hc)
      obtain ⟨d, hd, rfl⟩ := exists_digitChar (h c (by simp))
      have hvalue : digitsValue (ds ++ [digitChar d]) = 10 * digitsValue ds + d := by
        simp [digitsValue, digitValue_digitChar hd]
      rw [hvalue, List.dropWhile_append, hfront]
      by_cases hzeros : digitsValue ds = 0
      · -- the last digit is the first that may differ from zero
        have all : ∀ e ∈ List.range 10,
            [digitChar e].dropWhile (· == '0') = if e = 0 then [] else [digitChar e] := by decide
        rw [hzeros, if_pos rfl, List.isEmpty_nil, if_pos rfl, all d (List.mem_range.2 hd)]
        by_cases hzero : d = 0
        · simp [hzero]
        · have hlast : decimalDigits d = [digitChar d] := by rw [decimalDigits, if_pos hd]
          simp [hzero, hlast]
      · have hwritten : decimalDigits (10 * digitsValue ds + d) =
            decimalDigits (digitsValue ds) ++ [digitChar d] := by
          rw [decimalDigits, if_neg (by omega)]
          rw [show (10 * digitsValue ds + d) / 10 = digitsValue ds by omega,
            show (10 * digitsValue ds + d) % 10 = d by omega]
        have hpos : ¬ 10 * digitsValue ds + d = 0 := by omega
        rw [if_neg hzeros, if_neg hpos, hwritten]
        simp [decimalDigits_ne_nil]

end Text

namespace Coordinate

open Text

/-! ## Column letters -/

/-- The place of a letter in the alphabet, counted from one, whatever its case. -/
def letterValue (c : Char) : Nat := c.toUpper.toNat - 64

/-- The number that letters stand for in bijective base 26; without letters it is zero. -/
def lettersValue (cs : List Char) : Nat := cs.foldl (fun v c => 26 * v + letterValue c) 0

theorem lettersValue_concat (cs : List Char) (c : Char) :
    lettersValue (cs ++ [c]) = 26 * lettersValue cs + letterValue c := by
  simp [lettersValue]

theorem toNat_lt_of_isAlpha {c : Char} (h : c.isAlpha = true) : c.toNat < 123 := by
  unfold Char.isAlpha Char.isUpper Char.isLower at h
  simp only [Bool.or_eq_true, Bool.and_eq_true, decide_eq_true_eq, UInt32.le_iff_toNat_le, ge_iff_le] at h
  have hupper : 'Z'.val.toNat = 90 := rfl
  have hlower : 'z'.val.toNat = 122 := rfl
  have hc : c.toNat = c.val.toNat := rfl
  omega

/-- A letter has one of twenty-six places, and the place determines the capital. -/
theorem letter_cases {c : Char} (h : c.isAlpha = true) :
    0 < letterValue c ∧ letterValue c ≤ 26 ∧ c.toUpper = Char.ofNat (64 + letterValue c) := by
  have all : ∀ n ∈ List.range 123, (Char.ofNat n).isAlpha = true →
      0 < letterValue (Char.ofNat n) ∧ letterValue (Char.ofNat n) ≤ 26 ∧
        (Char.ofNat n).toUpper = Char.ofNat (64 + letterValue (Char.ofNat n)) := by decide +kernel
  have hletter := all c.toNat (List.mem_range.2 (toNat_lt_of_isAlpha h))
  rw [Char.ofNat_toNat] at hletter
  exact hletter h

/-- The capitals have the places one to twenty-six. -/
theorem capital_cases {d : Nat} (h : d < 26) :
    (Char.ofNat (65 + d)).isAlpha = true ∧ (Char.ofNat (65 + d)).toUpper = Char.ofNat (65 + d) ∧
      letterValue (Char.ofNat (65 + d)) = d + 1 := by
  have all : ∀ e ∈ List.range 26, (Char.ofNat (65 + e)).isAlpha = true ∧
      (Char.ofNat (65 + e)).toUpper = Char.ofNat (65 + e) ∧ letterValue (Char.ofNat (65 + e)) = e + 1 := by
    decide
  exact all d (List.mem_range.2 h)

theorem lettersValue_pos {cs : List Char} (hne : cs ≠ []) (h : ∀ c ∈ cs, c.isAlpha = true) :
    0 < lettersValue cs := by
  induction cs using List.reverseRecOn with
  | nil => exact absurd rfl hne
  | append_singleton cs c _ =>
      have hc := (letter_cases (h c (by simp))).1
      rw [lettersValue_concat]
      omega

/-- Letters are written back in capitals. -/
theorem columnLetters_lettersValue {cs : List Char} (hne : cs ≠ []) (h : ∀ c ∈ cs, c.isAlpha = true) :
    columnLetters (lettersValue cs - 1) = cs.map Char.toUpper := by
  induction cs using List.reverseRecOn with
  | nil => exact absurd rfl hne
  | append_singleton cs c ih =>
      have hcs : ∀ c ∈ cs, c.isAlpha = true := fun c hc => h c (List.mem_append_left _ hc)
      obtain ⟨hlow, hhigh, hcapital⟩ := letter_cases (h c (by simp))
      rw [lettersValue_concat, List.map_append, List.map_singleton, hcapital, columnLetters]
      by_cases hfront : cs = []
      · subst hfront
        have hfirst : 26 * lettersValue [] + letterValue c - 1 = letterValue c - 1 := by
          simp [lettersValue]
        rw [hfirst, if_pos (by omega), show 65 + (letterValue c - 1) = 64 + letterValue c by omega]
        rfl
      · have hpos := lettersValue_pos hfront hcs
        rw [if_neg (by omega),
          show (26 * lettersValue cs + letterValue c - 1) / 26 - 1 = lettersValue cs - 1 by omega,
          show 65 + (26 * lettersValue cs + letterValue c - 1) % 26 = 64 + letterValue c by omega,
          ih hfront hcs]

/-- The letters of a column stand for it, counted from one. -/
theorem lettersValue_columnLetters (col : Nat) : lettersValue (columnLetters col) = col + 1 := by
  rw [columnLetters]
  split
  · next hcol => simp [lettersValue, (capital_cases hcol).2.2]
  · have ih := lettersValue_columnLetters (col / 26 - 1)
    rw [lettersValue_concat, ih, (capital_cases (Nat.mod_lt col (by omega))).2.2]
    omega
termination_by col
decreasing_by omega

theorem columnLetters_ne_nil (col : Nat) : columnLetters col ≠ [] := by
  rw [columnLetters]
  split <;> simp

theorem isAlpha_of_mem_columnLetters {col : Nat} {c : Char} (h : c ∈ columnLetters col) :
    c.isAlpha = true := by
  rw [columnLetters] at h
  split at h
  · next hcol =>
      rw [List.mem_singleton.1 h]
      exact (capital_cases hcol).1
  · rcases List.mem_append.1 h with h | h
    · exact isAlpha_of_mem_columnLetters h
    · rw [List.mem_singleton.1 h]
      exact (capital_cases (Nat.mod_lt col (by omega))).1
termination_by col
decreasing_by omega

/-! ## Reading within bounds -/

theorem lettersValue_le_foldl (cs : List Char) (n : Nat) :
    n ≤ cs.foldl (fun v c => 26 * v + letterValue c) n := by
  induction cs generalizing n with
  | nil => exact Nat.le_refl _
  | cons c cs ih =>
      have := ih (26 * n + letterValue c)
      rw [List.foldl_cons]
      omega

/-- Letters are read if their number is in range; no number on the way to it is larger. -/
theorem readColumn_eq_some_iff {n m : Nat} {cs : List Char} (hn : n ≤ maxNumber) :
    readColumn n cs = some m ↔
      cs.foldl (fun v c => 26 * v + letterValue c) n = m ∧ m ≤ maxNumber := by
  induction cs generalizing n with
  | nil =>
      simp only [readColumn, List.foldl_nil, Option.some.injEq]
      constructor
      · rintro rfl
        exact ⟨rfl, hn⟩
      · exact fun h => h.1
  | cons c cs ih =>
      have hstep : n * 26 + (c.toUpper.toNat - 64) = 26 * n + letterValue c := by
        rw [Nat.mul_comm, letterValue]
      simp only [readColumn, List.foldl_cons, hstep]
      by_cases hfits : 26 * n + letterValue c ≤ maxNumber
      · rw [if_pos hfits, ih hfits]
      · have hgrows := lettersValue_le_foldl cs (26 * n + letterValue c)
        rw [if_neg hfits]
        constructor
        · intro h
          cases h
        · intro h
          omega

theorem readDigits_eq_ok_iff {n m : Nat} {cs : List Char} (hn : n ≤ maxNumber) :
    readDigits n cs = .ok m ↔ (∀ c ∈ cs, c.isDigit = true) ∧
      cs.foldl (fun v c => 10 * v + digitValue c) n = m ∧ m ≤ maxNumber := by
  induction cs generalizing n with
  | nil =>
      simp only [readDigits, List.foldl_nil, Except.ok.injEq]
      constructor
      · rintro rfl
        exact ⟨by simp, rfl, hn⟩
      · exact fun h => h.2.1
  | cons c cs ih =>
      simp only [readDigits, List.foldl_cons, List.forall_mem_cons]
      by_cases hdigit : c.isDigit = true
      · rw [if_pos hdigit]
        by_cases hfits : 10 * n + digitValue c ≤ maxNumber
        · rw [if_pos hfits, ih hfits]
          simp [hdigit]
        · have hgrows := digitsValue_le_foldl cs (10 * n + digitValue c)
          rw [if_neg hfits]
          constructor
          · intro h
            cases h
          · intro h
            omega
      · rw [if_neg hdigit]
        constructor
        · intro h
          cases h
        · intro h
          exact absurd h.1.1 hdigit

/-- A row is one or more digits whose number is in range, with or without a plus sign. -/
theorem readRow_eq_ok_iff {cs : List Char} {m : Nat} :
    readRow cs = .ok m ↔ ∃ digits, (cs = digits ∨ cs = '+' :: digits) ∧ digits ≠ [] ∧
      (∀ c ∈ digits, c.isDigit = true) ∧ digitsValue digits = m ∧ m ≤ maxNumber := by
  have hplus (digits : List Char) : ¬ ∀ c ∈ '+' :: digits, c.isDigit = true := fun h =>
    absurd (h '+' List.mem_cons_self) (by decide)
  unfold readRow
  split
  · simp
  · constructor
    · intro h
      cases h
    · rintro ⟨digits, rfl | hcs, hne, hdigits, -⟩
      · exact absurd hdigits (hplus [])
      · exact absurd (List.cons.inj hcs).2.symm hne
  · next cs hne =>
      rw [readDigits_eq_ok_iff (Nat.zero_le _)]
      constructor
      · rintro ⟨hdigits, hvalue⟩
        exact ⟨cs, .inr rfl, by simpa using hne, hdigits, hvalue⟩
      · rintro ⟨digits, rfl | hcs, -, hdigits, hvalue⟩
        · exact absurd hdigits (hplus cs)
        · rw [(List.cons.inj hcs).2]
          exact ⟨hdigits, hvalue⟩
  · next hne _ hplain =>
      rw [readDigits_eq_ok_iff (Nat.zero_le _)]
      constructor
      · rintro ⟨hdigits, hvalue⟩
        exact ⟨cs, .inl rfl, hne, hdigits, hvalue⟩
      · rintro ⟨digits, rfl | hcs, -, hdigits, hvalue⟩
        · exact ⟨hdigits, hvalue⟩
        · exact absurd hcs (hplain digits)

/-! ## References -/

/--
The text is made of letters and digits, perhaps with a plus sign between them, and stands for a column and a
row in range. There is a letter; and there is a digit, since the row is not zero.
-/
structure IsA1 (text letters digits : List Char) : Prop where
  text_eq : text = letters ++ digits ∨ text = letters ++ '+' :: digits
  letters_ne_nil : letters ≠ []
  isAlpha : ∀ c ∈ letters, c.isAlpha = true
  isDigit : ∀ c ∈ digits, c.isDigit = true
  col_le : lettersValue letters ≤ maxNumber
  row_pos : 0 < digitsValue digits
  row_le : digitsValue digits ≤ maxNumber

/-- Letters and digits in capitals, without zeros in front. -/
def normalForm (letters digits : List Char) : List Char :=
  letters.map Char.toUpper ++ digits.dropWhile (· == '0')

/-- The cell that letters and digits name. -/
def named (letters digits : List Char) : Coordinate := ⟨digitsValue digits - 1, lettersValue letters - 1⟩

namespace IsA1

variable {text letters digits : List Char}

theorem digits_ne_nil (h : IsA1 text letters digits) : digits ≠ [] := by
  intro hnil
  have hpos := h.row_pos
  rw [hnil] at hpos
  exact absurd hpos (by decide)

/-- The letters are those that the text begins with. -/
theorem span_text (h : IsA1 text letters digits) :
    text.takeWhile Char.isAlpha = letters ∧
      (text.dropWhile Char.isAlpha = digits ∨ text.dropWhile Char.isAlpha = '+' :: digits) := by
  obtain ⟨d, ds, hdigits⟩ := List.exists_cons_of_ne_nil h.digits_ne_nil
  have hd : d.isAlpha = false := by
    have all : ∀ e ∈ List.range 10, (digitChar e).isAlpha = false := by decide
    obtain ⟨e, he, rfl⟩ := exists_digitChar (h.isDigit d (by simp [hdigits]))
    exact all e (List.mem_range.2 he)
  rcases h.text_eq with rfl | rfl
  · rw [List.takeWhile_append_of_pos h.isAlpha, List.dropWhile_append_of_pos h.isAlpha, hdigits]
    simp [hd]
  · rw [List.takeWhile_append_of_pos h.isAlpha, List.dropWhile_append_of_pos h.isAlpha]
    simp [show '+'.isAlpha = false from rfl]

/-- The cell that a text names is written in its normal form. -/
theorem toA1_named (h : IsA1 text letters digits) :
    (named letters digits).toA1 = String.ofList (normalForm letters digits) := by
  have hrow : digitsValue digits - 1 + 1 = digitsValue digits := Nat.sub_add_cancel h.row_pos
  have hpos : ¬ digitsValue digits = 0 := Nat.pos_iff_ne_zero.1 h.row_pos
  rw [toA1, named, normalForm, columnLetters_lettersValue h.letters_ne_nil h.isAlpha, hrow,
    dropWhile_zero_eq h.isDigit, if_neg hpos]

/-- Rows and columns in range leave room to count from one. -/
theorem named_lt (h : IsA1 text letters digits) :
    (named letters digits).row < maxNumber ∧ (named letters digits).col < maxNumber := by
  have hcol := lettersValue_pos h.letters_ne_nil h.isAlpha
  have := h.row_pos
  have := h.row_le
  have := h.col_le
  simp only [named]
  omega

end IsA1

/-- A reference is read if it has the form of one, and then names the cell of its letters and digits. -/
theorem ofA1?_eq_ok_iff {reference : String} {c : Coordinate} :
    ofA1? reference = .ok c ↔
      ∃ letters digits, IsA1 (trim reference.toList) letters digits ∧ c = named letters digits := by
  unfold ofA1?
  generalize trim reference.toList = text
  constructor
  · intro h
    simp only at h
    split at h
    · cases h
    · next hletters =>
        split at h
        · cases h
        · cases h
        · next row hrow =>
            split at h
            · cases h
            · next col hcol =>
                obtain ⟨digits, hrest, hne, hdigits, hvalue, hle⟩ := readRow_eq_ok_iff.1 hrow
                obtain ⟨hletter, hcolle⟩ := (readColumn_eq_some_iff (Nat.zero_le _)).1 hcol
                have htext : text.takeWhile Char.isAlpha ++ text.dropWhile Char.isAlpha = text :=
                  List.takeWhile_append_dropWhile
                have hcol : lettersValue (text.takeWhile Char.isAlpha) = col := hletter
                have hform : IsA1 text (text.takeWhile Char.isAlpha) digits :=
                  { text_eq := by
                      rcases hrest with hrest | hrest
                      · exact .inl (by rw [← hrest, htext])
                      · exact .inr (by rw [← hrest, htext])
                    letters_ne_nil := by simpa using hletters
                    isAlpha := fun _ hc => List.mem_takeWhile_imp hc
                    isDigit := hdigits
                    col_le := by omega
                    row_pos := by omega
                    row_le := by omega }
                refine ⟨_, digits, hform, ?_⟩
                rw [named, hcol, hvalue, ← Except.ok.inj h]
                rfl
  · rintro ⟨letters, digits, h, rfl⟩
    obtain ⟨hletters, hrest⟩ := h.span_text
    have hrow : readRow (text.dropWhile Char.isAlpha) = .ok (digitsValue digits) :=
      readRow_eq_ok_iff.2 ⟨digits, hrest, h.digits_ne_nil, h.isDigit, rfl, h.row_le⟩
    have hcol : readColumn 0 letters = some (lettersValue letters) :=
      (readColumn_eq_some_iff (Nat.zero_le _)).2 ⟨rfl, h.col_le⟩
    obtain ⟨row, hvalue⟩ := Nat.exists_eq_succ_of_ne_zero (Nat.pos_iff_ne_zero.1 h.row_pos)
    simp only [hletters, hrow, hvalue, hcol, named]
    simp [h.letters_ne_nil]

/-! ## References written and read back -/

theorem not_isBlank_of_isAlpha {c : Char} (h : c.isAlpha = true) : isBlank c = false := by
  have all : ∀ n ∈ List.range 123, (Char.ofNat n).isAlpha = true → isBlank (Char.ofNat n) = false := by
    decide +kernel
  have hletter := all c.toNat (List.mem_range.2 (toNat_lt_of_isAlpha h))
  rw [Char.ofNat_toNat] at hletter
  exact hletter h

theorem not_isBlank_of_isDigit {c : Char} (h : c.isDigit = true) : isBlank c = false := by
  have all : ∀ d ∈ List.range 10, isBlank (digitChar d) = false := by decide
  obtain ⟨d, hd, rfl⟩ := exists_digitChar h
  exact all d (List.mem_range.2 hd)

/-- The form of a cell in range is a reference; nothing is trimmed from it. -/
theorem isA1_toA1 {c : Coordinate} (hrow : c.row < maxNumber) (hcol : c.col < maxNumber) :
    IsA1 (trim c.toA1.toList) (columnLetters c.col) (decimalDigits (c.row + 1)) := by
  have htrim : trim (columnLetters c.col ++ decimalDigits (c.row + 1)) =
      columnLetters c.col ++ decimalDigits (c.row + 1) := by
    apply trim_eq_self
    · intro d hd
      rw [List.head?_append_of_ne_nil _ (columnLetters_ne_nil c.col)] at hd
      exact not_isBlank_of_isAlpha (isAlpha_of_mem_columnLetters (List.mem_of_mem_head? hd))
    · intro d hd
      rw [List.getLast?_append_of_ne_nil _ (decimalDigits_ne_nil (c.row + 1))] at hd
      exact not_isBlank_of_isDigit (isDigit_of_mem_decimalDigits (List.mem_of_mem_getLast? hd))
  rw [toA1, String.toList_ofList, htrim]
  exact
    { text_eq := .inl rfl
      letters_ne_nil := columnLetters_ne_nil c.col
      isAlpha := fun _ => isAlpha_of_mem_columnLetters
      isDigit := fun _ => isDigit_of_mem_decimalDigits
      col_le := by rw [lettersValue_columnLetters]; omega
      row_pos := by rw [digitsValue_decimalDigits]; omega
      row_le := by rw [digitsValue_decimalDigits]; omega }

theorem ofA1?_toA1 {c : Coordinate} (hrow : c.row < maxNumber) (hcol : c.col < maxNumber) :
    ofA1? c.toA1 = .ok c := by
  refine ofA1?_eq_ok_iff.2 ⟨_, _, isA1_toA1 hrow hcol, ?_⟩
  rw [named, lettersValue_columnLetters, digitsValue_decimalDigits]
  rfl

/--
Every cell in range is read back from its A1 form. A text is read if and only if it has the form of a reference
once it is trimmed; the cell that it names lies in range, so that its row and its column can be counted from
one, and is written in the normal form of the text. Two references name the same cell if and only if they have
the same normal form.
-/
theorem ofA1?_normalizes :
    (∀ c : Coordinate, c.row < maxNumber → c.col < maxNumber → ofA1? c.toA1 = .ok c) ∧
      (∀ reference : String,
        ((∃ c, ofA1? reference = .ok c) ↔
          ∃ letters digits, IsA1 (trim reference.toList) letters digits) ∧
        ∀ letters digits, IsA1 (trim reference.toList) letters digits →
          ∃ c, ofA1? reference = .ok c ∧ c.toA1 = String.ofList (normalForm letters digits) ∧
            c.row + 1 ≤ maxNumber ∧ c.col + 1 ≤ maxNumber) ∧
      ∀ (reference reference' : String) (letters digits letters' digits' : List Char),
        IsA1 (trim reference.toList) letters digits → IsA1 (trim reference'.toList) letters' digits' →
          (ofA1? reference = ofA1? reference' ↔
            normalForm letters digits = normalForm letters' digits') := by
  refine ⟨fun c => ofA1?_toA1, fun reference => ⟨?_, fun letters digits h => ?_⟩, ?_⟩
  · constructor
    · rintro ⟨c, hc⟩
      obtain ⟨letters, digits, h, -⟩ := ofA1?_eq_ok_iff.1 hc
      exact ⟨letters, digits, h⟩
    · rintro ⟨letters, digits, h⟩
      exact ⟨named letters digits, ofA1?_eq_ok_iff.2 ⟨letters, digits, h, rfl⟩⟩
  · exact ⟨named letters digits, ofA1?_eq_ok_iff.2 ⟨letters, digits, h, rfl⟩, h.toA1_named, h.named_lt⟩
  · intro reference reference' letters digits letters' digits' h h'
    rw [ofA1?_eq_ok_iff.2 ⟨letters, digits, h, rfl⟩, ofA1?_eq_ok_iff.2 ⟨letters', digits', h', rfl⟩,
      Except.ok.injEq]
    constructor
    · intro hcell
      have hforms := congrArg toA1 hcell
      rw [h.toA1_named, h'.toA1_named] at hforms
      exact String.ofList_injective hforms
    · intro hforms
      have hwritten : (named letters digits).toA1 = (named letters' digits').toA1 := by
        rw [h.toA1_named, h'.toA1_named, hforms]
      have hread := ofA1?_toA1 h.named_lt.1 h.named_lt.2
      rw [hwritten, ofA1?_toA1 h'.named_lt.1 h'.named_lt.2] at hread
      exact (Except.ok.inj hread).symm

/-- The last cell of all, and a lax spelling of it. -/
theorem ofA1?_normalizes_last :
    let last : Coordinate := ⟨4294967294, 4294967294⟩
    let spelled := "  mwlqkwu+004294967295 "
    ofA1? last.toA1 = .ok last ∧ (∃ c, ofA1? spelled = .ok c ∧ c.toA1 = "MWLQKWU4294967295") ∧
      ofA1? spelled = ofA1? "MWLQKWU4294967295" := by
  intro last spelled
  have h : IsA1 (trim spelled.toList) "mwlqkwu".toList "004294967295".toList :=
    { text_eq := by decide +kernel, letters_ne_nil := by decide, isAlpha := List.all_eq_true.1 (by decide),
      isDigit := List.all_eq_true.1 (by decide), col_le := by decide, row_pos := by decide, row_le := by decide }
  have hnormal : IsA1 (trim "MWLQKWU4294967295".toList) "MWLQKWU".toList "4294967295".toList :=
    { text_eq := by decide +kernel, letters_ne_nil := by decide, isAlpha := List.all_eq_true.1 (by decide),
      isDigit := List.all_eq_true.1 (by decide), col_le := by decide, row_pos := by decide, row_le := by decide }
  refine ⟨ofA1?_normalizes.1 last (by decide) (by decide), ?_, ?_⟩
  · obtain ⟨c, hc, hwritten, -⟩ := (ofA1?_normalizes.2.1 spelled).2 _ _ h
    exact ⟨c, hc, hwritten.trans (by decide)⟩
  · exact (ofA1?_normalizes.2.2 _ _ _ _ _ _ h hnormal).2 (by decide)

example : ofA1? "MWLQKWV1" = .error (.columnOutOfRange "MWLQKWV") := by decide +kernel

end Coordinate

end SheetFill

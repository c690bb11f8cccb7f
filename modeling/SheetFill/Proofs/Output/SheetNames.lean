import Mathlib.Data.List.Nodup
import Mathlib.Data.List.Perm.Subperm
import Mathlib.Data.Nat.Find
import SheetFill.Number.Power
import SheetFill.Output.SheetNames

/-!
# Sheet names given out one after the other

A name that is in use is numbered, and the numbers are tried in turn from 2 on. Two names with numbers of
equally many digits differ in lower case as well, for a number is not changed by lower-casing and does not
change what stands before it. There are more numbers of `k + 1` digits than `n` names as soon as `n` is less
than `9 * 10 ^ k`, so one of them is free, and the search ends there at the latest.

Names given out differ in lower case. So they are their own wanted names: given out anew in the same order,
they stay as they are.

## Main definitions

* `SheetNames.registerAll` — the names given out for a list of wanted ones.
* `SheetNames.candidate` — the name that is tried at a count.
* `SheetNames.SearchEnds` — the count at which a name is free for the first time.

## Main results

* `lowerFrom_append_digits` — a number at the end of a text is apart from its lower-case form.
* `SheetNames.exists_free` — one of the first numbers of a length is free.
* `SheetNames.registerAll_unique` — the names given out are valid, differ, and stay as they are.
-/

namespace SheetFill

namespace Text

open Number

/-! ## Digits -/

/-- A digit has no case, and neither is it ignored where the end of a word is looked for. -/
theorem lowerChar_digit {c : Char} (h : c.isDigit = true) :
    isCaseIgnorable c = false ∧ isCased c = false ∧ c ≠ 'Σ' ∧ lowerChar c = [c] := by
  have all : ∀ d ∈ List.range 10, isCaseIgnorable (digitChar d) = false ∧ isCased (digitChar d) = false ∧
      digitChar d ≠ 'Σ' ∧ lowerChar (digitChar d) = [digitChar d] := by decide +kernel
  obtain ⟨d, hd, rfl⟩ := exists_digitChar h
  exact all d (List.mem_range.2 hd)

theorem lowerFrom_digits {ds : List Char} (h : ∀ c ∈ ds, c.isDigit = true) (before : Bool) :
    lowerFrom before ds = ds := by
  induction ds generalizing before with
  | nil => rfl
  | cons d ds ih =>
      obtain ⟨-, -, hsigma, hlower⟩ := lowerChar_digit (h d List.mem_cons_self)
      rw [lowerFrom, if_neg hsigma, hlower, ih fun c hc => h c (List.mem_cons_of_mem _ hc)]
      rfl

theorem startsCased_append_digits {ds : List Char} (h : ∀ c ∈ ds, c.isDigit = true) (cs : List Char) :
    startsCased (cs ++ ds) = startsCased cs := by
  induction cs with
  | nil =>
      cases ds with
      | nil => rfl
      | cons d ds =>
          obtain ⟨hignorable, hcased, -⟩ := lowerChar_digit (h d List.mem_cons_self)
          simp [startsCased, hignorable, hcased]
  | cons c cs ih => rw [List.cons_append, startsCased, startsCased, ih]

/--
Digits after a text stay as they are in lower case, and the text has the lower-case form that it has alone.
-/
theorem lowerFrom_append_digits {ds : List Char} (h : ∀ c ∈ ds, c.isDigit = true) (cs : List Char)
    (before : Bool) : lowerFrom before (cs ++ ds) = lowerFrom before cs ++ ds := by
  induction cs generalizing before with
  | nil => exact lowerFrom_digits h before
  | cons c cs ih =>
      rw [List.cons_append, lowerFrom, lowerFrom, ih, startsCased_append_digits h, List.append_assoc]

theorem lowerCase_append_decimal (s : String) (n : Nat) :
    lowerCase (s ++ decimal n) = lowerCase s ++ decimal n := by
  have hdigits : ∀ c ∈ decimalDigits n, c.isDigit = true := fun c hc => isDigit_of_mem_decimalDigits hc
  rw [lowerCase, lowerCase, decimal, String.toList_append, String.toList_ofList,
    lowerFrom_append_digits hdigits, String.ofList_append]

/-! ## Numbers of equal length -/

/-- A number from `10 ^ k` on and below `10 ^ (k + 1)` has `k + 1` digits. -/
theorem length_decimalDigits {k n : Nat} (hlow : tenPow k ≤ n) (hhigh : n < tenPow (k + 1)) :
    (decimalDigits n).length = k + 1 := by
  induction k generalizing n with
  | zero =>
      have hn : n < 10 := hhigh
      rw [decimalDigits, if_pos hn]
      rfl
  | succ k ih =>
      have hpos := tenPow_pos k
      rw [tenPow_succ] at hlow hhigh
      have hn : ¬ n < 10 := by omega
      rw [decimalDigits, if_neg hn, List.length_append, ih (by omega) (by omega)]
      rfl

theorem length_decimal {k n : Nat} (hlow : tenPow k ≤ n) (hhigh : n < tenPow (k + 1)) :
    (decimal n).length = k + 1 := by
  rw [← String.length_toList, decimal, String.toList_ofList, length_decimalDigits hlow hhigh]

/-- A number below a power of ten has no more digits than the power has zeros. -/
theorem length_decimal_le {k n : Nat} (h : n < tenPow (k + 1)) : (decimal n).length ≤ k + 1 := by
  induction k with
  | zero =>
      have hn : n < 10 := h
      rw [← String.length_toList, decimal, String.toList_ofList, decimalDigits, if_pos hn]
      exact Nat.le_refl _
  | succ k ih =>
      by_cases hlow : tenPow (k + 1) ≤ n
      · exact Nat.le_of_eq (length_decimal hlow h)
      · have := ih (by omega)
        omega

theorem decimal_injective {m n : Nat} (h : decimal m = decimal n) : m = n := by
  have hdigits : decimalDigits m = decimalDigits n := String.ofList_injective h
  rw [← digitsValue_decimalDigits m, hdigits, digitsValue_decimalDigits]

theorem decimal_ne_empty (n : Nat) : decimal n ≠ "" := by
  intro h
  have hnil : decimalDigits n = [] := String.ofList_injective h
  exact decimalDigits_ne_nil n hnil

/-- There are more than `n` numbers of some length that begins not far above `n`. -/
theorem exists_tenPow (n : Nat) : ∃ k, n < 9 * tenPow k ∧ 2 ≤ tenPow k ∧ tenPow k ≤ 11 * n + 12 := by
  induction n with
  | zero => exact ⟨1, by decide, by decide, by decide⟩
  | succ n ih =>
      obtain ⟨k, hmore, htwo, hle⟩ := ih
      by_cases hnext : n + 1 < 9 * tenPow k
      · exact ⟨k, hnext, htwo, by omega⟩
      · refine ⟨k + 1, ?_, ?_, ?_⟩ <;> rw [tenPow_succ] <;> omega

end Text

namespace Output

namespace SheetNames

open Text Number

/-! ## Candidates -/

/-- The name that stands for a wanted one before it is cut. -/
def base (wanted : String) : String := if wanted.isEmpty then "Sheet" else wanted

/-- The name that is tried at a count: the wanted one at first, and numbered ones from 2 on. -/
def candidate (wanted : String) (count : Nat) : String :=
  if count = 1 then cutTo maxChars (base wanted) else numbered (base wanted) count

/-- The candidates before a count are in use, and the one at the count is free. -/
structure SearchEnds (names : SheetNames) (wanted : String) (count : Nat) : Prop where
  one_le : 1 ≤ count
  inUse_of_lt : ∀ m, 1 ≤ m → m < count → names.inUse (candidate wanted m) = true
  free : names.inUse (candidate wanted count) = false

theorem base_ne_empty (wanted : String) : base wanted ≠ "" := by
  unfold base
  split
  · decide
  · next h => exact fun heq => h (String.isEmpty_iff.2 heq)

theorem length_cutTo (n : Nat) (name : String) : (cutTo n name).length = min n name.length := by
  rw [← String.length_toList, cutTo, String.toList_ofList, List.length_take, String.length_toList]

theorem cutTo_of_length_le {n : Nat} {name : String} (h : name.length ≤ n) : cutTo n name = name := by
  rw [← String.length_toList] at h
  rw [cutTo, List.take_of_length_le h, String.ofList_toList]

theorem candidate_of_two_le {count : Nat} (h : 2 ≤ count) (wanted : String) :
    candidate wanted count = numbered (base wanted) count := by
  rw [candidate, if_neg (by omega)]

theorem candidate_ne_empty (wanted : String) (count : Nat) : candidate wanted count ≠ "" := by
  intro h
  have hlength : (candidate wanted count).length = 0 := by rw [h]; rfl
  unfold candidate at hlength
  split at hlength
  · have hbase : (base wanted).length ≠ 0 := fun hzero =>
      base_ne_empty wanted (String.length_eq_zero_iff.1 hzero)
    rw [length_cutTo, maxChars] at hlength
    omega
  · have hdigits : (decimal count).length ≠ 0 := fun hzero =>
      decimal_ne_empty count (String.length_eq_zero_iff.1 hzero)
    rw [numbered, String.length_append] at hlength
    omega

/-- As long as a number has at most 31 digits, the name has at most 31 characters with it. -/
theorem length_candidate_le {count : Nat} (h : count < tenPow 31) (wanted : String) :
    (candidate wanted count).length ≤ maxChars := by
  unfold candidate
  split
  · rw [length_cutTo]
    omega
  · have hdigits : (decimal count).length ≤ 31 := length_decimal_le h
    rw [numbered, String.length_append, length_cutTo, maxChars]
    omega

/-! ## A free number -/

/-- Numbers of equal length give names that differ in lower case. -/
theorem lowerCase_numbered_injective {base : String} {k m n : Nat}
    (hm : tenPow k ≤ m ∧ m < tenPow (k + 1)) (hn : tenPow k ≤ n ∧ n < tenPow (k + 1))
    (h : lowerCase (numbered base m) = lowerCase (numbered base n)) : m = n := by
  have hmlength := length_decimal hm.1 hm.2
  have hnlength := length_decimal hn.1 hn.2
  simp only [numbered, hmlength, hnlength, lowerCase_append_decimal] at h
  have htext := congrArg String.toList h
  rw [String.toList_append, String.toList_append] at htext
  exact decimal_injective (String.toList_inj.1 (List.append_cancel_left htext))

/-- As long as there are more numbers of a length than names in use, one of the first of them is free. -/
theorem exists_free {names : SheetNames} {k : Nat} (h : names.used.length < 9 * tenPow k)
    (base : String) : ∃ n, tenPow k ≤ n ∧ n ≤ tenPow k + names.used.length ∧
      names.inUse (numbered base n) = false := by
  by_contra hnone
  have hused : ∀ i ≤ names.used.length, lowerCase (numbered base (tenPow k + i)) ∈ names.used := by
    intro i hi
    by_contra hfree
    exact hnone ⟨tenPow k + i, by omega, by omega, by simpa [inUse] using hfree⟩
  let tried := (List.range (names.used.length + 1)).map fun i => lowerCase (numbered base (tenPow k + i))
  have hnodup : tried.Nodup := by
    refine List.Nodup.map_on (fun i hi j hj heq => ?_) List.nodup_range
    rw [List.mem_range] at hi hj
    have hsucc := tenPow_succ k
    have := lowerCase_numbered_injective (k := k) ⟨by omega, by omega⟩ ⟨by omega, by omega⟩ heq
    omega
  have hsubset : tried ⊆ names.used := by
    intro name hname
    obtain ⟨i, hi, rfl⟩ := List.mem_map.1 hname
    exact hused i (by rw [List.mem_range] at hi; omega)
  -- more names were tried than are in use
  have hlength := (hnodup.subperm hsubset).length_le
  simp only [tried, List.length_map, List.length_range] at hlength
  omega

/-! ## The search -/

theorem exists_searchEnds {names : SheetNames} {wanted : String} {n : Nat} (hn : 2 ≤ n)
    (hfree : names.inUse (numbered (base wanted) n) = false) :
    ∃ count ≤ n, SearchEnds names wanted count := by
  have hexists : ∃ m, 1 ≤ m ∧ names.inUse (candidate wanted m) = false :=
    ⟨n, by omega, by rw [candidate_of_two_le hn]; exact hfree⟩
  refine ⟨Nat.find hexists, ?_, (Nat.find_spec hexists).1, ?_, (Nat.find_spec hexists).2⟩
  · exact Nat.find_min' hexists ⟨by omega, by rw [candidate_of_two_le hn]; exact hfree⟩
  · intro m hm hlt
    have hearlier := Nat.find_min hexists hlt
    rw [not_and, Bool.not_eq_false] at hearlier
    exact hearlier hm

/-- Enough tries lead to the first free number. -/
theorem firstFree_eq {names : SheetNames} {base : String} {n : Nat}
    (hfree : names.inUse (numbered base n) = false) {start tries : Nat} (hle : start ≤ n)
    (htries : n ≤ start + tries)
    (hused : ∀ m, start ≤ m → m < n → names.inUse (numbered base m) = true) :
    firstFree names base start tries = numbered base n := by
  induction tries generalizing start with
  | zero =>
      obtain rfl : start = n := by omega
      rfl
  | succ tries ih =>
      rw [firstFree]
      by_cases heq : start = n
      · rw [heq, hfree]
        rfl
      · rw [if_pos (hused start (Nat.le_refl _) (by omega))]
        exact ih (by omega) (by omega) fun m hm hlt => hused m (by omega) hlt

/-- The name given out is the first free candidate, wherever the search ends. -/
theorem SearchEnds.choose_eq {names : SheetNames} {wanted : String} {count : Nat}
    (h : SearchEnds names wanted count) : names.choose wanted = candidate wanted count := by
  obtain ⟨k, hmore, htwo, hle⟩ := exists_tenPow names.used.length
  obtain ⟨n, hlow, hhigh, hfree⟩ := exists_free hmore (base wanted)
  have hcount : count ≤ n := by
    by_contra hlt
    have := h.inUse_of_lt n (by omega) (by omega)
    rw [candidate_of_two_le (by omega), hfree] at this
    cases this
  show (if names.inUse (cutTo maxChars (base wanted))
    then firstFree names (base wanted) 2 (12 * names.used.length + 10)
    else cutTo maxChars (base wanted)) = candidate wanted count
  by_cases hone : count = 1
  · have hfirst := h.free
    rw [candidate, if_pos hone] at hfirst ⊢
    rw [hfirst]
    rfl
  · have hpos := h.one_le
    have hfirst : names.inUse (candidate wanted 1) = true := h.inUse_of_lt 1 (Nat.le_refl _) (by omega)
    rw [candidate, if_pos rfl] at hfirst
    rw [if_pos hfirst, candidate_of_two_le (by omega)]
    refine firstFree_eq ?_ (by omega) (by omega) fun m hm hlt => ?_
    · rw [← candidate_of_two_le (by omega)]
      exact h.free
    · rw [← candidate_of_two_le hm]
      exact h.inUse_of_lt m (by omega) hlt

/-- As long as there are more numbers of a length than names in use, the search ends at a shorter count. -/
theorem exists_choose_eq {names : SheetNames} {k : Nat} (h : names.used.length < 9 * tenPow (k + 1))
    (wanted : String) : ∃ count < tenPow (k + 2), SearchEnds names wanted count ∧
      names.choose wanted = candidate wanted count := by
  obtain ⟨n, hlow, hhigh, hfree⟩ := exists_free h (base wanted)
  have hpos := tenPow_pos k
  have hsucc := tenPow_succ k
  obtain ⟨count, hle, hends⟩ := exists_searchEnds (by omega) hfree
  refine ⟨count, ?_, hends, hends.choose_eq⟩
  rw [tenPow_succ (k + 1)]
  omega

/-- The search always ends. -/
theorem exists_choose (names : SheetNames) (wanted : String) :
    ∃ count, SearchEnds names wanted count ∧ names.choose wanted = candidate wanted count := by
  obtain ⟨k, hmore, htwo, -⟩ := exists_tenPow names.used.length
  obtain ⟨n, hlow, -, hfree⟩ := exists_free hmore (base wanted)
  obtain ⟨count, -, hends⟩ := exists_searchEnds (by omega) hfree
  exact ⟨count, hends, hends.choose_eq⟩

/-! ## One name -/

theorem inUse_choose (names : SheetNames) (wanted : String) :
    names.inUse (names.choose wanted) = false := by
  obtain ⟨count, hends, hchoose⟩ := exists_choose names wanted
  rw [hchoose]
  exact hends.free

theorem choose_ne_empty (names : SheetNames) (wanted : String) : names.choose wanted ≠ "" := by
  obtain ⟨count, -, hchoose⟩ := exists_choose names wanted
  rw [hchoose]
  exact candidate_ne_empty wanted count

theorem length_choose_le {names : SheetNames} (h : names.used.length < 9 * tenPow 30) (wanted : String) :
    (names.choose wanted).length ≤ maxChars := by
  obtain ⟨count, hcount, -, hchoose⟩ := exists_choose_eq h wanted
  rw [hchoose]
  exact length_candidate_le hcount wanted

/-- A valid name that is free is given out as it is. -/
theorem choose_eq_self {names : SheetNames} {name : String} (hne : name ≠ "")
    (hlength : name.length ≤ maxChars) (hfree : names.inUse name = false) : names.choose name = name := by
  have hempty : name.isEmpty = false := String.isEmpty_eq_false_iff.2 hne
  simp [choose, hempty, cutTo_of_length_le hlength, hfree]

/-! ## A list of names -/

/-- Gives out a name for each of the wanted ones, in order. -/
def registerAll (names : SheetNames) : List String → List String × SheetNames
  | [] => ([], names)
  | wanted :: rest =>
    let (name, names) := names.register wanted
    let (given, names) := registerAll names rest
    (name :: given, names)

theorem registerAll_cons (names : SheetNames) (wanted : String) (rest : List String) :
    names.registerAll (wanted :: rest) =
      (names.choose wanted :: (registerAll (names.register wanted).2 rest).1,
        (registerAll (names.register wanted).2 rest).2) := rfl

theorem length_registerAll (names : SheetNames) (wanted : List String) :
    (names.registerAll wanted).1.length = wanted.length := by
  induction wanted generalizing names with
  | nil => rfl
  | cons next rest ih => rw [registerAll_cons, List.length_cons, List.length_cons, ih]

/-- The names in use at the end are those given out, and those in use before. -/
theorem used_registerAll (names : SheetNames) (wanted : List String) :
    (names.registerAll wanted).2.used =
      ((names.registerAll wanted).1.map lowerCase).reverse ++ names.used := by
  induction wanted generalizing names with
  | nil => rfl
  | cons next rest ih =>
      rw [registerAll_cons, ih, List.map_cons, List.reverse_cons, List.append_assoc]
      rfl

/-- Names given out one after the other never coincide but for case. -/
theorem nodup_used_registerAll {names : SheetNames} (h : names.used.Nodup) (wanted : List String) :
    (names.registerAll wanted).2.used.Nodup := by
  induction wanted generalizing names with
  | nil => exact h
  | cons next rest ih =>
      refine ih (List.nodup_cons.2 ⟨fun hmem => ?_, h⟩)
      have hfree := inUse_choose names next
      rw [inUse, List.contains_iff_mem.2 hmem] at hfree
      cases hfree

theorem ne_empty_of_mem_registerAll {names : SheetNames} {wanted : List String} {name : String}
    (h : name ∈ (names.registerAll wanted).1) : name ≠ "" := by
  induction wanted generalizing names with
  | nil => cases h
  | cons next rest ih =>
      rw [registerAll_cons] at h
      rcases List.mem_cons.1 h with rfl | h
      · exact choose_ne_empty names next
      · exact ih h

theorem length_le_of_mem_registerAll {names : SheetNames} {wanted : List String}
    (hcount : names.used.length + wanted.length ≤ 9 * tenPow 30) {name : String}
    (h : name ∈ (names.registerAll wanted).1) : name.length ≤ maxChars := by
  induction wanted generalizing names with
  | nil => cases h
  | cons next rest ih =>
      rw [List.length_cons] at hcount
      rw [registerAll_cons] at h
      rcases List.mem_cons.1 h with rfl | h
      · exact length_choose_le (by omega) next
      · refine ih ?_ h
        show names.used.length + 1 + rest.length ≤ 9 * tenPow 30
        omega

/-- Valid names that differ from each other and from those in use are given out as they are. -/
theorem registerAll_eq_self {names : SheetNames} {given : List String}
    (hne : ∀ name ∈ given, name ≠ "") (hlength : ∀ name ∈ given, name.length ≤ maxChars)
    (hfree : ∀ name ∈ given, names.inUse name = false)
    (hdiffer : given.Pairwise fun a b => lowerCase a ≠ lowerCase b) :
    (names.registerAll given).1 = given := by
  induction given generalizing names with
  | nil => rfl
  | cons name rest ih =>
      obtain ⟨hname, hrest⟩ := List.pairwise_cons.1 hdiffer
      have hself : names.choose name = name := choose_eq_self (hne name List.mem_cons_self)
        (hlength name List.mem_cons_self) (hfree name List.mem_cons_self)
      have hregister : (names.register name).2.used = lowerCase name :: names.used := by
        rw [register, hself]
      rw [registerAll_cons, hself]
      refine congrArg (name :: ·) (ih (fun n hn => hne n (List.mem_cons_of_mem _ hn))
        (fun n hn => hlength n (List.mem_cons_of_mem _ hn)) (fun n hn => ?_) hrest)
      have hold := hfree n (List.mem_cons_of_mem _ hn)
      rw [inUse, Bool.eq_false_iff, ne_eq, List.contains_iff_mem] at hold ⊢
      rw [hregister, List.mem_cons, not_or]
      exact ⟨(hname n hn).symm, hold⟩

/--
The names given out for any list of wanted ones are not empty, differ in lower case, and as many names are
in use as were given out. Unless there are more than any machine can count, they have at most 31 characters,
and given out anew in the same order they stay as they are. The search for one more name always ends, and
with fewer than 900 million of them at a count of at most nine digits.
-/
theorem registerAll_unique {wanted given : List String} {names : SheetNames}
    (h : empty.registerAll wanted = (given, names)) :
    given.length = wanted.length ∧ (∀ name ∈ given, name ≠ "") ∧
      given.Pairwise (fun a b => lowerCase a ≠ lowerCase b) ∧
      names.used.Nodup ∧ names.size = wanted.length ∧
      (wanted.length ≤ 9 * tenPow 30 → (∀ name ∈ given, name.length ≤ maxChars) ∧
        (empty.registerAll given).1 = given) ∧
      ∀ next, ∃ count, SearchEnds names next count ∧ names.choose next = candidate next count ∧
        (wanted.length < 900000000 → count < 1000000000) := by
  obtain rfl : (empty.registerAll wanted).1 = given := by rw [h]
  obtain rfl : (empty.registerAll wanted).2 = names := by rw [h]
  have hlength := length_registerAll empty wanted
  have hused := used_registerAll empty wanted
  rw [show empty.used = [] from rfl, List.append_nil] at hused
  have hnodup : (empty.registerAll wanted).2.used.Nodup :=
    nodup_used_registerAll List.nodup_nil wanted
  have hsize : (empty.registerAll wanted).2.used.length = wanted.length := by
    rw [hused, List.length_reverse, List.length_map, hlength]
  have hne : ∀ name ∈ (empty.registerAll wanted).1, name ≠ "" :=
    fun name hname => ne_empty_of_mem_registerAll hname
  have hdiffer : (empty.registerAll wanted).1.Pairwise fun a b => lowerCase a ≠ lowerCase b := by
    rw [hused, List.nodup_reverse] at hnodup
    exact List.pairwise_map.1 hnodup
  refine ⟨hlength, hne, hdiffer, hnodup, hsize, fun hcount => ?_, fun next => ?_⟩
  · have hshort : ∀ name ∈ (empty.registerAll wanted).1, name.length ≤ maxChars :=
      fun name hname => length_le_of_mem_registerAll (by simpa [empty] using hcount) hname
    exact ⟨hshort, registerAll_eq_self hne hshort (fun _ _ => rfl) hdiffer⟩
  · by_cases hfew : wanted.length < 900000000
    · have hmore : (empty.registerAll wanted).2.used.length < 9 * tenPow 8 := by
        rw [hsize]
        exact hfew
      obtain ⟨count, hcount, hends, hchoose⟩ := exists_choose_eq hmore next
      exact ⟨count, hends, hchoose, fun _ => hcount⟩
    · obtain ⟨count, hends, hchoose⟩ := exists_choose (empty.registerAll wanted).2 next
      exact ⟨count, hends, hchoose, fun hlt => absurd hlt hfew⟩

/-- Two reports but for case, a name that was given out with a number before, and one without a text. -/
theorem registerAll_unique_reports :
    let wanted := ["Report", "REPORT", "report2", "", "Report of the first quarter of the year"]
    let given := ["Report", "REPORT2", "report22", "Sheet", "Report of the first quarter of "]
    let names : SheetNames := ⟨["report of the first quarter of ", "sheet", "report22", "report2", "report"]⟩
    empty.registerAll wanted = (given, names) ∧ wanted.length ≤ 9 * tenPow 30 ∧
      wanted.length < 900000000 ∧ (∀ name ∈ given, name.length ≤ maxChars) ∧
      (empty.registerAll given).1 = given ∧ ∃ count < 1000000000, SearchEnds names "Report" count := by
  intro wanted given names
  have hgiven : empty.registerAll wanted = (given, names) := by decide +kernel
  have hmany : wanted.length ≤ 9 * tenPow 30 := by decide +kernel
  have hfew : wanted.length < 900000000 := by decide
  obtain ⟨-, -, -, -, -, hvalid, hsearch⟩ := registerAll_unique hgiven
  obtain ⟨hshort, hagain⟩ := hvalid hmany
  obtain ⟨count, hends, -, hcount⟩ := hsearch "Report"
  exact ⟨hgiven, hmany, hfew, hshort, hagain, count, hcount hfew, hends⟩

end SheetNames

end Output

end SheetFill

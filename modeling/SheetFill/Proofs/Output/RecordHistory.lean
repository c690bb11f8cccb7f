import Mathlib.Algebra.GroupWithZero.Nat
import Mathlib.Algebra.Order.BigOperators.Group.List
import Mathlib.Algebra.Order.Group.Nat
import Mathlib.Data.List.Basic
import SheetFill.Proofs.Output.RowShifts

/-!
# The shifts of a whole history

Insertions are recorded one after the other, and some of them are refused. The table keeps one running total
for every boundary, and answers for a row with the total of the nearest boundary at or above it. That is the
sum over all insertions that were accepted at or above the row: boundaries were accepted in ascending order, so
a running total holds everything that was accepted up to its boundary.

## Main definitions

* `RowShifts.Insertion` — rows that are to be recorded as inserted.
* `RowShifts.ofInsertions`, `RowShifts.accepted` — the table after insertions, and those that were accepted.
* `RowShifts.Sums` — a table holds the sums of a history; the invariant of every record.

## Main results

* `RowShifts.Sums.record` — one accepted insertion.
* `RowShifts.sums_ofInsertions` — any sequence of insertions.
* `RowShifts.ofInsertions_prefixSum` — what is refused, what is answered, and that rows stay in order.
-/

namespace SheetFill.Output.RowShifts

/-- Rows that are to be recorded as inserted before a row. -/
structure Insertion where
  boundary : Nat
  count : Nat
  deriving DecidableEq, Repr

/-- The number of rows that insertions insert. -/
def countRows (insertions : List Insertion) : Nat := (insertions.map Insertion.count).sum

/-- Those of the insertions that move a row. -/
def atOrAbove (row : Nat) (insertions : List Insertion) : List Insertion :=
  insertions.filter fun i => i.boundary ≤ row

/-- The table that comes out when an insertion is recorded, or refused. -/
def insert (t : RowShifts) (i : Insertion) : RowShifts := (t.attempt i.boundary i.count).2

/-- The table after insertions, nothing having been recorded before. -/
def ofInsertions (insertions : List Insertion) : RowShifts := insertions.foldl insert empty

/-- Those of the insertions that are accepted, one after the other. -/
def accepted : RowShifts → List Insertion → List Insertion
  | _, [] => []
  | t, i :: insertions =>
    match t.record i.boundary i.count with
    | .ok t' => i :: accepted t' insertions
    | .error _ => accepted t insertions

/-! ## One record -/

variable {t t' : RowShifts}

/-- A record is refused if its boundary lies above the last one, or if too many rows are inserted. -/
theorem exists_fault_iff {boundary count : Nat} :
    (∃ fault, t.record boundary count = .error fault) ↔
      (∃ entry ∈ t.entries.head?, boundary < entry.1) ∨ maxTotal < t.total + count := by
  constructor
  · rintro ⟨fault, h⟩
    rcases record_eq_error_iff.1 h with ⟨entry, hentry, habove, -⟩ | ⟨-, hfull, -⟩
    · exact .inl ⟨entry, hentry, habove⟩
    · exact .inr hfull
  · intro h
    by_cases habove : ∃ entry ∈ t.entries.head?, boundary < entry.1
    · obtain ⟨entry, hentry, hlt⟩ := habove
      exact ⟨_, record_eq_error_iff.2 (.inl ⟨entry, hentry, hlt, rfl⟩)⟩
    · have hfull := h.resolve_left habove
      have hlast : ∀ entry ∈ t.entries.head?, entry.1 ≤ boundary := fun entry hentry =>
        Nat.not_lt.1 fun hlt => habove ⟨entry, hentry, hlt⟩
      exact ⟨_, record_eq_error_iff.2 (.inr ⟨hlast, hfull, rfl⟩)⟩

/-! ## Refused insertions -/

theorem insert_of_error {i : Insertion} {fault : StructuralFault}
    (h : t.record i.boundary i.count = .error fault) : t.insert i = t :=
  attempt_of_fault (record_eq_error_iff_attempt.1 h)

theorem insert_of_ok {i : Insertion} (h : t.record i.boundary i.count = .ok t') : t.insert i = t' :=
  (record_eq_ok_iff_attempt.1 h).2

theorem accepted_append (t : RowShifts) (first later : List Insertion) :
    accepted t (first ++ later) = accepted t first ++ accepted (first.foldl insert t) later := by
  induction first generalizing t with
  | nil => rfl
  | cons i first ih =>
      rw [List.cons_append, accepted, accepted, List.foldl_cons]
      cases hi : t.record i.boundary i.count with
      | error fault =>
          rw [insert_of_error hi]
          exact ih t
      | ok t' =>
          rw [insert_of_ok hi]
          exact congrArg (i :: ·) (ih t')

/-- What follows a refused insertion goes on as if there had been none. -/
theorem foldl_insert_of_error {insertions : List Insertion} {i : Insertion} {fault : StructuralFault}
    (h : (ofInsertions insertions).record i.boundary i.count = .error fault) (later : List Insertion) :
    ofInsertions (insertions ++ i :: later) = ofInsertions (insertions ++ later) ∧
      accepted empty (insertions ++ i :: later) = accepted empty (insertions ++ later) := by
  have hstay : (insertions.foldl insert empty).insert i = insertions.foldl insert empty :=
    insert_of_error h
  have hskip : accepted (insertions.foldl insert empty) (i :: later) =
      accepted (insertions.foldl insert empty) later := by
    rw [ofInsertions] at h
    rw [accepted, h]
  constructor
  · rw [ofInsertions, ofInsertions, List.foldl_append, List.foldl_append, List.foldl_cons, hstay]
  · rw [accepted_append, accepted_append, hskip]

/-! ## The sums of a history -/

/-- The table holds the sums of the insertions, and the last boundary is the lowest of theirs. -/
structure Sums (t : RowShifts) (insertions : List Insertion) : Prop where
  total_eq : t.total = countRows insertions
  shift_eq : ∀ row, t.shift row = countRows (atOrAbove row insertions)
  last_iff : ∀ boundary, (∃ entry ∈ t.entries.head?, boundary < entry.1) ↔
    ∃ i ∈ insertions, boundary < i.boundary

theorem countRows_append (first later : List Insertion) :
    countRows (first ++ later) = countRows first + countRows later := by
  rw [countRows, List.map_append, List.sum_append]
  rfl

theorem sums_empty : Sums empty [] where
  total_eq := rfl
  shift_eq _ := rfl
  last_iff boundary := by simp [empty]

namespace Sums

variable {insertions : List Insertion}

/-- An insertion is refused if one below it was accepted before, or if too many rows are inserted. -/
theorem refused_iff (h : Sums t insertions) (i : Insertion) :
    (∃ fault, t.record i.boundary i.count = .error fault) ↔
      (∃ j ∈ insertions, i.boundary < j.boundary) ∨ maxTotal < countRows insertions + i.count := by
  rw [exists_fault_iff, h.last_iff, h.total_eq]

/-- An accepted insertion is one more summand, and its boundary is the last one from then on. -/
theorem record (h : Sums t insertions) {i : Insertion} (hi : t.record i.boundary i.count = .ok t') :
    Sums t' (insertions ++ [i]) := by
  have hordered : ∀ j ∈ insertions, j.boundary ≤ i.boundary := by
    intro j hj
    by_contra hlt
    obtain ⟨fault, hfault⟩ := (h.refused_iff i).2 (.inl ⟨j, hj, Nat.lt_of_not_le hlt⟩)
    rw [hi] at hfault
    cases hfault
  constructor
  · rw [total_record hi, h.total_eq, countRows_append]
    rfl
  · intro row
    rw [shift_record hi, h.shift_eq, atOrAbove, atOrAbove, List.filter_append, countRows_append]
    by_cases hrow : i.boundary ≤ row
    · simp [hrow, countRows]
    · simp [hrow, countRows]
  · intro boundary
    rw [head?_record hi]
    constructor
    · rintro ⟨entry, hentry, hlt⟩
      rw [← Option.some.inj hentry] at hlt
      exact ⟨i, by simp, hlt⟩
    · rintro ⟨j, hj, hlt⟩
      refine ⟨_, rfl, ?_⟩
      rcases List.mem_append.1 hj with hj | hj
      · exact Nat.lt_of_lt_of_le hlt (hordered j hj)
      · rwa [List.mem_singleton.1 hj] at hlt

/-- Further insertions add the accepted ones among them. -/
theorem foldl_insert (h : Sums t insertions) (later : List Insertion) :
    Sums (later.foldl insert t) (insertions ++ accepted t later) := by
  induction later generalizing t insertions with
  | nil =>
      rw [accepted, List.append_nil]
      exact h
  | cons i later ih =>
      rw [List.foldl_cons, accepted]
      cases hi : t.record i.boundary i.count with
      | error fault =>
          rw [insert_of_error hi]
          exact ih h
      | ok t' =>
          rw [insert_of_ok hi]
          have hlater := ih (h.record hi)
          rwa [List.append_assoc] at hlater

/-- Rows keep their order: a row further down is moved at least as far. -/
theorem strictMono (h : Sums t insertions) : StrictMono fun row => row + t.shift row := by
  intro upper lower hlt
  have hsub : (atOrAbove upper insertions).Sublist (atOrAbove lower insertions) := by
    apply List.monotone_filter_right
    intro i hi
    simp only [decide_eq_true_eq] at hi ⊢
    omega
  have hshift : t.shift upper ≤ t.shift lower := by
    rw [h.shift_eq, h.shift_eq, countRows, countRows]
    exact (hsub.map Insertion.count).sum_le_sum fun _ _ => Nat.zero_le _
  show upper + t.shift upper < lower + t.shift lower
  omega

end Sums

/-- The table after any sequence of insertions holds the sums of those that were accepted. -/
theorem sums_ofInsertions (insertions : List Insertion) :
    Sums (ofInsertions insertions) (accepted empty insertions) :=
  sums_empty.foldl_insert insertions

/--
After any sequence of insertions, the next one is refused if and only if its boundary lies above one that was
accepted, or the rows inserted would be too many; and if it is refused, everything later goes on as without it.
The shift of a row is the number of rows accepted at or above it, the total the number of all, and rows that
are moved so keep their order.
-/
theorem ofInsertions_prefixSum (insertions : List Insertion) :
    let t := ofInsertions insertions
    let before := accepted empty insertions
    (∀ i : Insertion,
      ((∃ fault, t.record i.boundary i.count = .error fault) ↔
        (∃ j ∈ before, i.boundary < j.boundary) ∨ maxTotal < countRows before + i.count) ∧
      ((∃ fault, t.record i.boundary i.count = .error fault) → ∀ later,
        ofInsertions (insertions ++ i :: later) = ofInsertions (insertions ++ later) ∧
          accepted empty (insertions ++ i :: later) = accepted empty (insertions ++ later))) ∧
    (∀ row, t.shift row = countRows (atOrAbove row before)) ∧ t.total = countRows before ∧
      StrictMono fun row => row + t.shift row := by
  intro t before
  have hsums : Sums t before := sums_ofInsertions insertions
  refine ⟨fun i => ⟨hsums.refused_iff i, ?_⟩, hsums.shift_eq, hsums.total_eq, hsums.strictMono⟩
  rintro ⟨fault, hfault⟩
  exact foldl_insert_of_error hfault

/-- A third insertion above the first two is refused, and a fourth one counts as if there had been no third. -/
theorem ofInsertions_prefixSum_refused :
    let first : List Insertion := [⟨5, 3⟩, ⟨12, 2⟩]
    let refused : Insertion := ⟨3, 1⟩
    (∃ fault, (ofInsertions first).record refused.boundary refused.count = .error fault) ∧
      ofInsertions (first ++ refused :: [⟨12, 4⟩]) = ofInsertions (first ++ [⟨12, 4⟩]) ∧
      (ofInsertions (first ++ refused :: [⟨12, 4⟩])).shift 12 = 9 := by
  intro first refused
  have hrefused : ∃ fault, (ofInsertions first).record refused.boundary refused.count = .error fault :=
    ⟨.boundaryOrder 3 12, by decide⟩
  have hlater := (((ofInsertions_prefixSum first).1 refused).2 hrefused [⟨12, 4⟩]).1
  refine ⟨hrefused, hlater, ?_⟩
  rw [hlater, (ofInsertions_prefixSum _).2.1]
  decide

end SheetFill.Output.RowShifts

import SheetFill.Output.RowShifts

/-!
# What a recorded insertion adds to the shifts

A record moves the rows from its boundary on by the number of rows inserted, and leaves the rows above
where they were. It is refused only if its boundary lies above an earlier one, or if too many rows are
inserted in all; and then it leaves the table alone.

## Main results

* `RowShifts.attempt_of_fault` — a refused record leaves the table as it was.
* `RowShifts.exists_record` — a record that succeeds.
* `RowShifts.record_eq_error_iff` — a record that is refused.
* `RowShifts.shift_record` — the shifts after a record.
-/

namespace SheetFill.Output

namespace RowShifts

variable {t t' : RowShifts} {boundary inserted : Nat}

theorem lastBelow?_eq_some_iff {last : Nat} :
    t.lastBelow? boundary = some last ↔ ∃ entry ∈ t.entries.head?, boundary < entry.1 ∧ last = entry.1 := by
  rw [lastBelow?, Option.filter_eq_some_iff, Option.map_eq_some_iff]
  constructor
  · rintro ⟨⟨entry, hentry, rfl⟩, hlt⟩
    exact ⟨entry, hentry, of_decide_eq_true hlt, rfl⟩
  · rintro ⟨entry, hentry, hlt, rfl⟩
    exact ⟨⟨entry, hentry, rfl⟩, decide_eq_true hlt⟩

theorem lastBelow?_eq_none_iff :
    t.lastBelow? boundary = none ↔ ∀ entry ∈ t.entries.head?, entry.1 ≤ boundary := by
  rw [Option.eq_none_iff_forall_ne_some]
  constructor
  · intro h entry hentry
    refine Nat.not_lt.1 fun hlt => h entry.1 ?_
    exact lastBelow?_eq_some_iff.2 ⟨entry, hentry, hlt, rfl⟩
  · intro h last hlast
    obtain ⟨entry, hentry, hlt, -⟩ := lastBelow?_eq_some_iff.1 hlast
    exact absurd (h entry hentry) (Nat.not_le.2 hlt)

theorem attempt_of_lastBelow? {last : Nat} (h : t.lastBelow? boundary = some last) :
    t.attempt boundary inserted = (.error (.boundaryOrder boundary last), t) := by
  rw [attempt, h]

theorem attempt_of_full (h : t.lastBelow? boundary = none) (hfull : maxTotal < t.total + inserted) :
    t.attempt boundary inserted = (.error .insertedRowsOverflow, t) := by
  simp only [attempt, h, if_pos hfull]

theorem attempt_of_room (h : t.lastBelow? boundary = none) (hroom : ¬ maxTotal < t.total + inserted) :
    (t.attempt boundary inserted).1 = .ok () ∧
      (t.attempt boundary inserted).2.entries = put boundary (t.total + inserted) t.entries ∧
      (t.attempt boundary inserted).2.total = t.total + inserted := by
  simp only [attempt, h, if_neg hroom, and_self]

/-- A record is refused for the order of boundaries first, and then for the number of rows. -/
theorem attempt_eq_error_iff {fault : StructuralFault} :
    (t.attempt boundary inserted).1 = .error fault ↔
      (∃ entry ∈ t.entries.head?, boundary < entry.1 ∧ fault = .boundaryOrder boundary entry.1) ∨
        (∀ entry ∈ t.entries.head?, entry.1 ≤ boundary) ∧ maxTotal < t.total + inserted ∧
          fault = .insertedRowsOverflow := by
  rw [← lastBelow?_eq_none_iff]
  cases hlast : t.lastBelow? boundary with
  | some last =>
      obtain ⟨entry, hentry, hlt, rfl⟩ := lastBelow?_eq_some_iff.1 hlast
      rw [attempt_of_lastBelow? hlast]
      constructor
      · rintro ⟨⟩
        exact .inl ⟨entry, hentry, hlt, rfl⟩
      · rintro (⟨entry', hentry', -, rfl⟩ | ⟨hnone, -⟩)
        · rw [Option.some.inj (hentry.symm.trans hentry')]
        · cases hnone
  | none =>
      have hordered := lastBelow?_eq_none_iff.1 hlast
      by_cases hfull : maxTotal < t.total + inserted
      · rw [attempt_of_full hlast hfull]
        constructor
        · rintro ⟨⟩
          exact .inr ⟨rfl, hfull, rfl⟩
        · rintro (⟨entry, hentry, hlt, -⟩ | ⟨-, -, rfl⟩)
          · exact absurd (hordered entry hentry) (Nat.not_le.2 hlt)
          · rfl
      · rw [(attempt_of_room hlast hfull).1]
        constructor
        · nofun
        · rintro (⟨entry, hentry, hlt, -⟩ | ⟨-, hfull', -⟩)
          · exact absurd (hordered entry hentry) (Nat.not_le.2 hlt)
          · exact absurd hfull' hfull

/-- A refused record leaves the table as it was. -/
theorem attempt_of_fault {fault : StructuralFault} (h : (t.attempt boundary inserted).1 = .error fault) :
    (t.attempt boundary inserted).2 = t := by
  cases hlast : t.lastBelow? boundary with
  | some last => rw [attempt_of_lastBelow? hlast]
  | none =>
      by_cases hfull : maxTotal < t.total + inserted
      · rw [attempt_of_full hlast hfull]
      · rw [(attempt_of_room hlast hfull).1] at h
        cases h

/-- A record that is not refused gives its boundary the new total. -/
theorem attempt_of_ok (h : (t.attempt boundary inserted).1 = .ok ()) :
    (t.attempt boundary inserted).2.entries = put boundary (t.total + inserted) t.entries ∧
      (t.attempt boundary inserted).2.total = t.total + inserted := by
  cases hlast : t.lastBelow? boundary with
  | some last =>
      rw [attempt_of_lastBelow? hlast] at h
      cases h
  | none =>
      by_cases hfull : maxTotal < t.total + inserted
      · rw [attempt_of_full hlast hfull] at h
        cases h
      · exact (attempt_of_room hlast hfull).2

theorem record_eq_error_iff_attempt {fault : StructuralFault} :
    t.record boundary inserted = .error fault ↔ (t.attempt boundary inserted).1 = .error fault := by
  rw [record]
  cases (t.attempt boundary inserted).1 with
  | error other => simp [Except.map]
  | ok _ => simp [Except.map]

theorem record_eq_ok_iff_attempt :
    t.record boundary inserted = .ok t' ↔
      (t.attempt boundary inserted).1 = .ok () ∧ (t.attempt boundary inserted).2 = t' := by
  rw [record]
  cases (t.attempt boundary inserted).1 with
  | error other => simp [Except.map]
  | ok _ => simp [Except.map]

/-- A record is refused for the order of boundaries first, and then for the number of rows. -/
theorem record_eq_error_iff {fault : StructuralFault} :
    t.record boundary inserted = .error fault ↔
      (∃ entry ∈ t.entries.head?, boundary < entry.1 ∧ fault = .boundaryOrder boundary entry.1) ∨
        (∀ entry ∈ t.entries.head?, entry.1 ≤ boundary) ∧ maxTotal < t.total + inserted ∧
          fault = .insertedRowsOverflow :=
  record_eq_error_iff_attempt.trans attempt_eq_error_iff

/-- The last entry after a record is the new boundary with the new total. -/
theorem head?_record (h : t.record boundary inserted = .ok t') :
    t'.entries.head? = some (boundary, t.total + inserted) := by
  obtain ⟨hok, rfl⟩ := record_eq_ok_iff_attempt.1 h
  rw [(attempt_of_ok hok).1, head?_put]

theorem total_record (h : t.record boundary inserted = .ok t') : t'.total = t.total + inserted := by
  obtain ⟨hok, rfl⟩ := record_eq_ok_iff_attempt.1 h
  exact (attempt_of_ok hok).2

/-- A boundary at or below the last one is recorded, as long as there is room. -/
theorem exists_record (hlast : ∀ entry ∈ t.entries.head?, entry.1 ≤ boundary)
    (htotal : t.total + inserted ≤ maxTotal) :
    ∃ t', t.record boundary inserted = .ok t' ∧ t'.total = t.total + inserted ∧
      ∀ entry ∈ t'.entries.head?, entry.1 = boundary := by
  cases h : t.record boundary inserted with
  | error fault =>
      rcases record_eq_error_iff.1 h with ⟨entry, hentry, hlt, -⟩ | ⟨-, hfull, -⟩
      · exact absurd (hlast entry hentry) (Nat.not_le.2 hlt)
      · exact absurd htotal (Nat.not_le.2 hfull)
  | ok t' =>
      refine ⟨t', rfl, total_record h, fun entry hentry => ?_⟩
      rw [head?_record h] at hentry
      rw [← Option.some.inj hentry]

/-- Rows from the last boundary on are moved by the total. -/
theorem shift_of_head?_le {row : Nat} (h : ∀ entry ∈ t.entries.head?, entry.1 ≤ row) :
    t.shift row = t.total := by
  obtain ⟨entries, total, htotal⟩ := t
  subst htotal
  cases entries with
  | nil => rfl
  | cons last earlier =>
      have hlast : last.1 ≤ row := h last rfl
      simp [shift, hlast]

/-- Rows from the boundary on are moved further, and rows above it stay where they are. -/
theorem shift_record (h : t.record boundary inserted = .ok t') (row : Nat) :
    t'.shift row = t.shift row + if boundary ≤ row then inserted else 0 := by
  have hordered : ∀ entry ∈ t.entries.head?, entry.1 ≤ boundary := by
    refine lastBelow?_eq_none_iff.1 ?_
    cases hlast : t.lastBelow? boundary with
    | none => rfl
    | some last =>
        obtain ⟨entry, hentry, hlt, -⟩ := lastBelow?_eq_some_iff.1 hlast
        rw [record_eq_error_iff.2 (.inl ⟨entry, hentry, hlt, rfl⟩)] at h
        cases h
  by_cases hrow : boundary ≤ row
  · have hbefore : t.shift row = t.total :=
      shift_of_head?_le fun entry hentry => Nat.le_trans (hordered entry hentry) hrow
    have hafter : t'.shift row = t'.total := by
      refine shift_of_head?_le fun entry hentry => ?_
      rw [head?_record h] at hentry
      rwa [← Option.some.inj hentry]
    rw [hafter, hbefore, total_record h, if_pos hrow]
  · obtain ⟨hok, rfl⟩ := record_eq_ok_iff_attempt.1 h
    rw [if_neg hrow, Nat.add_zero, shift, shift, (attempt_of_ok hok).1]
    -- the new entry lies below the row, and so does the one that it replaces
    cases t.entries with
    | nil => simp [put, hrow]
    | cons last earlier =>
        by_cases hsame : boundary = last.1
        · simp [put, ← hsame, hrow]
        · simp [put, hsame, hrow]

end RowShifts

end SheetFill.Output

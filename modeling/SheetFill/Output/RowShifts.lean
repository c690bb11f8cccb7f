import SheetFill.Error

/-!
# Row shifts

Inserting rows before a template row moves that row and all rows below it down. The table keeps, for
every *boundary* before which rows were inserted, the number of rows inserted up to it. Boundaries are
recorded in ascending order, and a repeated one adds to what it had.

A template row is shifted by the entry of the nearest boundary at or above it.

## Main definitions

* `RowShifts.attempt` — one more insertion, refused when out of order or beyond the rows of a sheet.
* `RowShifts.shift` — the number of rows by which a template row moves down.
-/

namespace SheetFill.Output

/-- The boundaries with the number of rows inserted up to them, the last boundary first. -/
structure RowShifts where
  entries : List (Nat × Nat)
  /-- The number of rows inserted so far. -/
  total : Nat
  total_eq : total = (entries.head?.map Prod.snd).getD 0
  deriving DecidableEq, Repr

namespace RowShifts

/-- Nothing was inserted. -/
def empty : RowShifts := ⟨[], 0, rfl⟩

/-- The largest number of rows that may be inserted. -/
def maxTotal : Nat := 4294967295

/-- Has nothing been recorded? -/
def isEmpty (t : RowShifts) : Bool := t.entries.isEmpty

/-- The entries with a new total for a boundary that is not above the last one. -/
def put (boundary total : Nat) : List (Nat × Nat) → List (Nat × Nat)
  | [] => [(boundary, total)]
  | (last, sum) :: earlier =>
    if boundary = last then (boundary, total) :: earlier
    else (boundary, total) :: (last, sum) :: earlier

theorem head?_put (boundary total : Nat) (entries : List (Nat × Nat)) :
    (put boundary total entries).head? = some (boundary, total) := by
  cases entries with
  | nil => rfl
  | cons last earlier =>
      rw [put]
      split
      · rfl
      · rfl

/-- The last boundary, if a boundary lies above it. -/
def lastBelow? (t : RowShifts) (boundary : Nat) : Option Nat :=
  (t.entries.head?.map Prod.fst).filter fun last => boundary < last

/-- Records that `inserted` rows were inserted before `boundary`. The table comes out in any case. -/
def attempt (t : RowShifts) (boundary inserted : Nat) : Except StructuralFault Unit × RowShifts :=
  match t.lastBelow? boundary with
  | some last => (.error (.boundaryOrder boundary last), t)
  | none =>
    if maxTotal < t.total + inserted then (.error .insertedRowsOverflow, t)
    else
      (.ok (),
        { entries := put boundary (t.total + inserted) t.entries
          total := t.total + inserted
          total_eq := by rw [head?_put]; rfl })

/-- The table after an insertion that is not refused. -/
def record (t : RowShifts) (boundary inserted : Nat) : Except StructuralFault RowShifts :=
  (t.attempt boundary inserted).1.map fun _ => (t.attempt boundary inserted).2

/-- The number of rows by which template row `row` moves down. -/
def shift (t : RowShifts) (row : Nat) : Nat :=
  match t.entries.find? fun entry => decide (entry.1 ≤ row) with
  | none => 0
  | some entry => entry.2

end RowShifts

end SheetFill.Output

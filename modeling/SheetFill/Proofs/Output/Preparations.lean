import Mathlib.Algebra.GroupWithZero.Nat
import SheetFill.Output.Sheet

/-!
# Carrying out preparations

The preparations of an output sheet are carried out in order. Clearing a cell leaves the rows where they
are, and inserting rows moves the rows below them down.

## Main definitions

* `moveRow`, `Sheet.moveRow` — where a row goes.
* `Preparation.Inserts` — the rows that a preparation inserts.
-/

namespace SheetFill.Output

namespace Preparation

/-- Where a row goes. -/
def moveRow (row : Nat) : Preparation → Nat
  | .clearCell _ _ => row
  | .insertRows before count _ => if before ≤ row then row + count else row

/-- Does the preparation insert rows? -/
def isInsertion : Preparation → Bool
  | .clearCell _ _ => false
  | .insertRows _ _ _ => true

/-- Are rows inserted below the row only, if at all? -/
def IsBelow (row : Nat) : Preparation → Prop
  | .clearCell _ _ => True
  | .insertRows before _ _ => row < before

/-- Is the row one of those that the preparation inserts? -/
def Inserts (row : Nat) : Preparation → Prop
  | .clearCell _ _ => False
  | .insertRows before count _ => before ≤ row ∧ row < before + count

end Preparation

/-- Where a row goes when preparations are carried out in order. -/
def moveRow (preparations : List Preparation) (row : Nat) : Nat :=
  preparations.foldl Preparation.moveRow row

/-- Where a row of the template goes. -/
def Sheet.moveRow (s : Sheet) (row : Nat) : Nat := Output.moveRow s.preparations row

theorem moveRow_append (first later : List Preparation) (row : Nat) :
    moveRow (first ++ later) row = moveRow later (moveRow first row) :=
  List.foldl_append

/-- A row above all insertions stays. -/
theorem moveRow_eq_self {preparations : List Preparation} {row : Nat}
    (h : ∀ p ∈ preparations, p.IsBelow row) : moveRow preparations row = row := by
  induction preparations with
  | nil => rfl
  | cons p preparations ih =>
      obtain ⟨hp, hrest⟩ := List.forall_mem_cons.1 h
      have hstay : p.moveRow row = row := by
        cases p with
        | clearCell _ _ => rfl
        | insertRows before _ _ =>
            have habove : ¬ before ≤ row := Nat.not_le.2 hp
            simp only [Preparation.moveRow, if_neg habove]
      exact (congrArg (moveRow preparations) hstay).trans (ih hrest)

theorem insertedRows_eq (s : Sheet) :
    s.insertedRows = (s.preparations.map Preparation.insertedRows).sum := by
  have hrun (preparations : List Preparation) (n : Nat) :
      preparations.foldl (fun n p => n + p.insertedRows) n =
        n + (preparations.map Preparation.insertedRows).sum := by
    induction preparations generalizing n with
    | nil => rfl
    | cons p preparations ih =>
        rw [List.foldl_cons, ih, List.map_cons, List.sum_cons, Nat.add_assoc]
  rw [Sheet.insertedRows, hrun, Nat.zero_add]

end SheetFill.Output

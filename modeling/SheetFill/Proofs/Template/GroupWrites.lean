import Mathlib.Data.List.Basic
import SheetFill.Json.Document
import SheetFill.Proofs.Template.KeptRows

/-!
# What a group adds to a sheet

The rows of a group come one at a time, and one pass over them passes over some, drops others, numbers and
writes the rest, and counts what it writes. What it adds to a sheet can be said of the rows as a whole: those
that the group keeps are written one below the other under consecutive numbers, and rows are inserted for
those beyond the reserved ones. Rows that are not kept leave no trace in numbers and places, and they are
produced all the same.

Row numbers may be added up without bound or in 32 bits. Where all rows lie within 32 bits that makes no
difference.

## Main results

* `keptWrites_eq_unbounded` — the writes of rows within 32 bits.
* `Draft.addBlock_adds_kept` — what a group adds to a draft, and to the changes of the scope.
-/

namespace SheetFill.Template

open Cell SheetFill.Group Output Text

/-! ## Rows within 32 bits -/

theorem reservation_lt {b : Block} (h : b.endRow < RowSums.limit) : b.reservation < RowSums.limit :=
  Nat.lt_of_le_of_lt (Nat.sub_le _ _) h

theorem keptRow_eq_unbounded (sums : RowSums) {b : Block} {top k : Nat} (row : Row) (hb : b.startRow ≤ top)
    (h : top + k + 1 < RowSums.limit) : keptRow sums b top k row = keptRow .unbounded b top k row := by
  have hrow : sums.hold (top + k) = top + k := sums.hold_of_lt (by omega)
  have htemplate : sums.hold (b.startRow + k) = b.startRow + k := sums.hold_of_lt (by omega)
  have href : sums.hold (b.startRow + min k 1) = b.startRow + min k 1 := sums.hold_of_lt (by omega)
  have hnumber : sums.hold (k + 1) = k + 1 := sums.hold_of_lt (by omega)
  simp only [keptRow, hrow, htemplate, href, hnumber, RowSums.hold_unbounded]

/-- Rows within 32 bits are written where they are without bound. -/
theorem keptWrites_eq_unbounded (sums : RowSums) {b : Block} {top : Nat} {rows : List Row}
    (hb : b.startRow ≤ top) (h : top + rows.length < RowSums.limit) :
    keptWrites sums b top rows = keptWrites .unbounded b top rows := by
  refine List.flatMap_congr fun (row, k) hentry => ?_
  have hk : k < rows.length := List.snd_lt_of_mem_zipIdx hentry
  have hcount : sums.hold k = k := sums.hold_of_lt (by omega)
  dsimp only
  rw [hcount, RowSums.hold_unbounded]
  exact keptRow_eq_unbounded sums row hb (by omega)

namespace Draft

variable {σ ν : Type} [Scope σ ν]

/-- In a group whose rows lie within 32 bits it does not matter how rows are added up. -/
theorem addBlock_eq_unbounded (sums : RowSums) {b : Block} (hb : b.endRow < RowSums.limit) (d : Draft) (s : σ)
    (htop : b.startRow + d.shifts.shift b.startRow + (kept b (b.rows s).1).length < RowSums.limit)
    (hend : b.endRow + d.shifts.shift b.startRow < RowSums.limit)
    (hcopy : b.startRow + 2 + d.shifts.shift b.startRow < RowSums.limit) :
    d.addBlock sums b s = d.addBlock .unbounded b s := by
  have hlength : sums.hold (kept b (b.rows s).1).length = (kept b (b.rows s).1).length :=
    sums.hold_of_lt (by omega)
  rw [addBlock_eq_kept (sums.hold_of_lt (reservation_lt hb)), addBlock_eq_kept (RowSums.hold_unbounded _)]
  simp only [keptWrites_eq_unbounded sums (Nat.le_add_right _ _) htop, hlength, insertRows_eq,
    sums.hold_of_lt hend, sums.hold_of_lt hcopy, RowSums.hold_unbounded]

/--
A group adds to a draft the writes of the rows that it keeps: of all its rows those with content and the
placeholders, and of these no more than are reserved if the group is fixed. A growing group that keeps more
rows than are reserved also has rows inserted for the others, and it fails just if the record of that is
refused; no other group inserts or records anything, or fails. What was added stays in the draft even then.
Whatever is kept, all rows are produced: the scope changes as by the whole expansion.

Rows are added up in 32 bits or without bound, and there is no difference where they fit.
-/
theorem addBlock_adds_kept (sums : RowSums) (b : Block) (hb : b.endRow < RowSums.limit) (d : Draft) (s : σ) :
    let e := b.expand s
    let shown := e.rows.filter fun row => !row.isBlank || row.placeholder
    let rows := match b.ending with
      | .fixed => shown.take b.reservation
      | .grow => shown
    let delta := d.shifts.shift b.startRow
    let count := sums.hold rows.length
    let cells := d.cells ++ keptWrites sums b (b.startRow + delta) rows
    let insertion := .insertRows (sums.hold (b.endRow + delta)) (count - b.reservation)
      (sums.hold (b.startRow + 2 + delta))
    let attempt := d.shifts.attempt b.endRow (count - b.reservation)
    let added : Except FillError Unit × Draft :=
      if b.ending = .grow ∧ b.reservation < count then
        (attempt.1.mapError .structural,
          { preparations := d.preparations ++ [insertion], cells, shifts := attempt.2 })
      else (.ok (), { d with cells })
    d.addBlock sums b s = (added.1, added.2, e.final) ∧
      d.addBlock sums b (Recorded.start s) = (added.1, added.2, ⟨e.final, e.changes⟩) ∧
      (b.startRow + delta + rows.length < RowSums.limit → b.endRow + delta < RowSums.limit →
        b.startRow + 2 + delta < RowSums.limit → d.addBlock sums b s = d.addBlock .unbounded b s) := by
  intro e shown rows delta count cells insertion attempt added
  have hrows : kept b e.rows = rows := by
    have hshown : (e.rows.filter fun row => !(row.isBlank && !row.placeholder)) = shown := by
      simp only [shown, Bool.not_and, Bool.not_not]
    simp only [kept, keptAfter, hshown, rows]
    cases b.ending with
    | fixed => rfl
    | grow => rfl
  have hdrain : b.rows s = (e.rows, e.final) := Walk.drain_ofTiers b.nesting.tiers s
  have hrecorded : b.rows (Recorded.start s) = (e.rows, ⟨e.final, e.changes⟩) := by
    rw [Block.rows, Walk.drain_ofTiers, Recorded.start, expandTiers_recorded]
    rfl
  have hreservation := sums.hold_of_lt (reservation_lt hb)
  refine ⟨?_, ?_, fun htop hend hcopy => ?_⟩
  · rw [addBlock_eq_kept hreservation, hdrain]
    simp only [hrows, insertRows_eq, added]
    split
    · rfl
    · rfl
  · rw [addBlock_eq_kept hreservation, hrecorded]
    simp only [hrows, insertRows_eq, added]
    split
    · rfl
    · rfl
  · refine addBlock_eq_unbounded sums hb d s ?_ hend hcopy
    rwa [hdrain, hrows]

/-- Three people in a group at the last rows of 32 bits: the third is written to the first row of all. -/
theorem addBlock_adds_kept_wrapped :
    let person : Body := ⟨"#staff.name#", [.slot ⟨.group, "staff.name", ⟨"staff", "name"⟩, []⟩]⟩
    let b : Block :=
      ⟨4294967294, 4294967295, 0, .grow, none, ⟨[⟨"staff", [⟨⟨4294967294, 0⟩, ⟨person, []⟩⟩]⟩]⟩⟩
    let named (name : String) := Json.Value.object [("name", .string name)]
    let document := Json.Document.ofValue
      (.object [("staff", .array [named "Ada", named "Ben", named "Cy"])])
    b.endRow < RowSums.limit ∧
      ((⟨[], [], .empty⟩ : Draft).addBlock .wrapping b document).2.1.cells.map
        (fun w => (w.row, w.value)) = [(4294967294, "Ada"), (4294967295, "Ben"), (0, "Cy")] := by
  intro person b named document
  have hb : b.endRow < RowSums.limit := by decide
  obtain ⟨hadd, -⟩ := addBlock_adds_kept .wrapping b hb ⟨[], [], .empty⟩ document
  refine ⟨hb, ?_⟩
  rw [hadd]
  decide +kernel

end Draft

end SheetFill.Template

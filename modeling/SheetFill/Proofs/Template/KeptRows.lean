import SheetFill.Proofs.Group.Expansion
import SheetFill.Proofs.Output.Preparations
import SheetFill.Template.Assembly

/-!
# The rows that groups keep

Of the rows of a group those without content are passed over, unless they stand for a tier without nodes,
and a fixed group keeps no more rows than it reserves. The rows kept are written one below the other.

A group is added in one pass over its rows, which passes over some, drops others, numbers and writes the
rest, and counts what it writes. What it adds can be said of the rows as a whole, and this module does that
first.

## Main definitions

* `kept` — the rows that a group keeps.
* `keptWrites` — their writes, by the row that the first of them goes to.
* `KeptGroup` — a group with the rows that it keeps, and what it writes and inserts.
* `expandGroups` — the groups of a sheet, expanded in order.

## Main results

* `writeRows_eq` — the rows that a group writes are those that it keeps.
* `Draft.addBlock_eq_kept` — a group is added as the rows that it keeps.
* `Draft.forall_mem_addBlocks` — what holds of all writes of groups holds in the draft.
* `length_rows_le_of_mem_expandGroups` — no group keeps more rows than it has room for.
-/

namespace SheetFill.Template

open Cell SheetFill.Group Output Text

/-- Of some rows, those that a group keeps after `k` rows were kept. -/
def keptAfter (b : Block) (k : Nat) (rows : List Row) : List Row :=
  let shown := rows.filter fun row => !(row.isBlank && !row.placeholder)
  match b.ending with
  | .fixed => shown.take (b.reservation - k)
  | .grow => shown

/-- Of some rows, those that a group keeps: a fixed group no more than it reserves. -/
def kept (b : Block) (rows : List Row) : List Row := keptAfter b 0 rows

theorem length_keptAfter_le {b : Block} (h : b.ending = .fixed) (k : Nat) (rows : List Row) :
    (keptAfter b k rows).length ≤ b.reservation - k := by
  simp only [keptAfter, h, List.length_take]
  omega

theorem keptAfter_nil (b : Block) (k : Nat) : keptAfter b k [] = [] := by
  cases hending : b.ending with
  | fixed => simp [keptAfter, hending]
  | grow => simp [keptAfter, hending]

theorem keptAfter_cons_of_blank (b : Block) (k : Nat) {row : Row} (rows : List Row)
    (h : (row.isBlank && !row.placeholder) = true) :
    keptAfter b k (row :: rows) = keptAfter b k rows := by
  simp only [keptAfter, List.filter_cons, h]
  rfl

theorem keptAfter_of_full {b : Block} {k : Nat} (rows : List Row)
    (h : b.ending = .fixed ∧ b.reservation ≤ k) : keptAfter b k rows = [] := by
  have hlength := length_keptAfter_le h.1 k rows
  exact List.length_eq_zero_iff.1 (by omega)

theorem keptAfter_cons {b : Block} {k : Nat} {row : Row} (rows : List Row)
    (hshown : ¬ (row.isBlank && !row.placeholder) = true)
    (hroom : ¬ (b.ending = .fixed ∧ b.reservation ≤ k)) :
    keptAfter b k (row :: rows) = row :: keptAfter b (k + 1) rows := by
  rw [Bool.not_eq_true] at hshown
  simp only [keptAfter, List.filter_cons, hshown]
  cases hending : b.ending with
  | grow => rfl
  | fixed =>
      have hone : b.reservation - k = b.reservation - (k + 1) + 1 := by
        have : ¬ b.reservation ≤ k := fun hle => hroom ⟨hending, hle⟩
        omega
      simp only [Bool.not_false, if_true, hone, List.take_succ_cons]

section Rows

variable {σ ν : Type} [Scope σ ν] {sums : RowSums} {b : Block}

theorem writeRows_of_next_none {w w' : Walk ν} {s s' : σ} (delta k : Nat)
    (h : w.next s = (none, w', s')) : writeRows sums b delta k w s = ([], k, s') := by
  rw [writeRows]
  split
  · next heq =>
      rw [h] at heq
      simp only [Prod.mk.injEq] at heq
      rw [heq.2.2]
  · next heq =>
      rw [h] at heq
      simp at heq

theorem writeRows_of_next_some {w w' : Walk ν} {s s' : σ} {row : Row} (delta k : Nat)
    (h : w.next s = (some row, w', s')) :
    writeRows sums b delta k w s =
      if row.isBlank && !row.placeholder then writeRows sums b delta k w' s'
      else if b.ending = .fixed ∧ b.reservation ≤ k then writeRows sums b delta k w' s'
      else
        let (writes, kept, s) := writeRows sums b delta (sums.add k 1) w' s'
        (rowWrites sums b delta k row ++ writes, kept, s) := by
  rw [writeRows]
  split
  · next heq =>
      rw [h] at heq
      simp at heq
  · next heq =>
      rw [h] at heq
      simp only [Prod.mk.injEq, Option.some.injEq] at heq
      obtain ⟨rfl, rfl, rfl⟩ := heq
      rfl

/--
The rows that a group writes are those that it keeps, one below the other. They are counted after what
is left of the numbers, and all rows are asked for, whether they are kept or not.
-/
theorem writeRows_eq (hb : sums.hold b.reservation = b.reservation)
    (delta : Nat) {k : Nat} (hk : b.ending = .fixed → k ≤ b.reservation) (w : Walk ν) (s : σ) :
    let rows := keptAfter b k (w.drain s).1
    writeRows sums b delta (sums.hold k) w s =
      ((rows.zipIdx k).flatMap fun (row, i) => rowWrites sums b delta (sums.hold i) row,
        sums.hold (k + rows.length), (w.drain s).2) := by
  induction w, s using Walk.drain.induct generalizing k with
  | case1 w s w' s' hnext =>
      rw [writeRows_of_next_none delta _ hnext, Walk.drain_of_next_none hnext]
      simp only [keptAfter_nil]
      rfl
  | case2 w s row w' s' hnext _ _ _ ih =>
      rw [writeRows_of_next_some delta _ hnext, Walk.drain_of_next_some hnext]
      split
      · next hblank =>
          rw [ih hk, keptAfter_cons_of_blank b k _ hblank]
      · next hshown =>
          -- the count of a fixed group stays at or below its reservation
          have hfull : (b.ending = .fixed ∧ b.reservation ≤ sums.hold k) ↔
              b.ending = .fixed ∧ b.reservation ≤ k := by
            refine and_congr_right fun hfixed => ?_
            rw [sums.hold_of_le hb (hk hfixed)]
          simp only [hfull]
          split
          · next hfull =>
              rw [ih hk, keptAfter_of_full _ hfull, keptAfter_of_full (row :: _) hfull]
          · next hroom =>
              have hk' : b.ending = .fixed → k + 1 ≤ b.reservation := fun hfixed =>
                Nat.lt_of_not_le fun hle => hroom ⟨hfixed, hle⟩
              rw [RowSums.add_eq_hold, RowSums.hold_hold_add, ih hk', keptAfter_cons _ hshown hroom]
              simp only [List.zipIdx_cons, List.flatMap_cons, List.length_cons]
              rw [Nat.add_assoc, Nat.add_comm 1]

end Rows

/-! ## The writes of rows -/

/--
The writes of a row that a group keeps after `k` others, if the first of them goes to row `top`. A row with
content is numbered if the group has a row number; its number comes before its cells.
-/
def keptRow (sums : RowSums) (b : Block) (top k : Nat) (row : Row) : List CellWrite :=
  let write (col : Nat) (value : String) (filters : List FilterInvocation) : CellWrite :=
    { row := sums.hold (top + k), col, templateRow := sums.hold (b.startRow + k), templateCol := col
      value, refRow := some (sums.hold (b.startRow + min k 1)), filters }
  let number :=
    if row.isBlank then []
    else b.rowNumberCol.toList.map fun col => write col (decimal (sums.hold (k + 1))) []
  number ++ row.cells.map fun c => write c.col c.value c.filters

/-- The writes of rows that a group keeps, one below the other from row `top` on. -/
def keptWrites (sums : RowSums) (b : Block) (top : Nat) (rows : List Row) : List CellWrite :=
  rows.zipIdx.flatMap fun (row, k) => keptRow sums b top (sums.hold k) row

theorem groupWrite_eq (sums : RowSums) (b : Block) (delta k col : Nat) (value : String)
    (filters : List FilterInvocation) :
    groupWrite sums b delta k col value filters =
      { row := sums.hold (b.startRow + delta + k), col, templateRow := sums.hold (b.startRow + k)
        templateCol := col, value, refRow := some (sums.hold (b.startRow + min k 1)), filters } := by
  simp only [groupWrite, RowSums.add_eq_hold, RowSums.hold_hold_add]

theorem rowWrites_eq_keptRow (sums : RowSums) (b : Block) (delta k : Nat) (row : Row) :
    rowWrites sums b delta k row = keptRow sums b (b.startRow + delta) k row := by
  rw [rowWrites, keptRow]
  simp only [groupWrite_eq, RowSums.add_eq_hold]
  cases b.rowNumberCol with
  | none => simp
  | some col => simp

/-- A write of a row is its number, which has no filters, or one of its cells. -/
theorem value_of_mem_keptRow {sums : RowSums} {b : Block} {top k : Nat} {row : Row} {w : CellWrite}
    (h : w ∈ keptRow sums b top k row) :
    w.filters = [] ∨ ∃ c ∈ row.cells, w.value = c.value ∧ w.filters = c.filters := by
  rcases List.mem_append.1 h with h | h
  · split at h
    · cases h
    · obtain ⟨col, -, rfl⟩ := List.mem_map.1 h
      exact .inl rfl
  · obtain ⟨c, hc, rfl⟩ := List.mem_map.1 h
    exact .inr ⟨c, hc, rfl, rfl⟩

/-- All writes of a row go to the same row, and take their format from a row of the group. -/
theorem row_of_mem_keptRow {sums : RowSums} {b : Block} {top k : Nat} {row : Row} {w : CellWrite}
    (h : w ∈ keptRow sums b top k row) : w.row = sums.hold (top + k) ∧ w.refRow ≠ none := by
  rcases List.mem_append.1 h with h | h
  · split at h
    · cases h
    · obtain ⟨col, -, rfl⟩ := List.mem_map.1 h
      exact ⟨rfl, nofun⟩
  · obtain ⟨c, -, rfl⟩ := List.mem_map.1 h
    exact ⟨rfl, nofun⟩

/-- One pass over the rows of a group writes those that it keeps, and counts them. -/
theorem writeRows_eq_keptWrites {σ ν : Type} [Scope σ ν] {sums : RowSums} {b : Block}
    (hb : sums.hold b.reservation = b.reservation) (delta : Nat) (s : σ) :
    let rows := kept b (b.rows s).1
    writeRows sums b delta 0 (Walk.ofTiers b.nesting.tiers) s =
      (keptWrites sums b (b.startRow + delta) rows, sums.hold rows.length, (b.rows s).2) := by
  have hzero : sums.hold 0 = 0 := sums.hold_of_le hb (Nat.zero_le _)
  have heq := writeRows_eq hb delta (fun _ => Nat.zero_le _) (Walk.ofTiers b.nesting.tiers) s
  simp only [hzero, Nat.zero_add, rowWrites_eq_keptRow] at heq
  exact heq

/-! ## Adding groups -/

namespace Draft

theorem insertRows_eq (d : Draft) (sums : RowSums) (b : Block) (delta count : Nat) :
    let attempt := d.shifts.attempt b.endRow count
    let insertion :=
      .insertRows (sums.hold (b.endRow + delta)) count (sums.hold (b.startRow + 2 + delta))
    d.insertRows sums b delta count =
      (attempt.1.mapError .structural,
        { d with preparations := d.preparations ++ [insertion], shifts := attempt.2 }) := by
  simp only [insertRows, RowSums.add_eq_hold, RowSums.hold_hold_add]

variable {σ ν : Type} [Scope σ ν]

/-- A group is added as the rows that it keeps. -/
theorem addBlock_eq_kept {sums : RowSums} {b : Block} (hb : sums.hold b.reservation = b.reservation)
    (d : Draft) (s : σ) :
    let rows := kept b (b.rows s).1
    let delta := d.shifts.shift b.startRow
    let added := { d with cells := d.cells ++ keptWrites sums b (b.startRow + delta) rows }
    d.addBlock sums b s =
      if b.ending = .grow ∧ b.reservation < sums.hold rows.length then
        let (answer, d) := added.insertRows sums b delta (sums.hold rows.length - b.reservation)
        (answer, d, (b.rows s).2)
      else (.ok (), added, (b.rows s).2) := by
  simp only [addBlock, writeRows_eq_keptWrites hb]

/-- A group is added as the rows that the recursion over its tiers gives and that it keeps. -/
theorem addBlock_expand (d : Draft) (b : Block) (s : σ) :
    let rows := kept b (expandTiers b.nesting.tiers s).rows
    let delta := d.shifts.shift b.startRow
    let added := { d with cells := d.cells ++ keptWrites .unbounded b (b.startRow + delta) rows }
    d.addBlock .unbounded b s =
      if b.ending = .grow ∧ b.reservation < rows.length then
        let (answer, d) := added.insertRows .unbounded b delta (rows.length - b.reservation)
        (answer, d, (expandTiers b.nesting.tiers s).final)
      else (.ok (), added, (expandTiers b.nesting.tiers s).final) := by
  rw [addBlock_eq_kept rfl, Block.rows, Walk.drain_ofTiers]
  rfl

/-- Adding a group adds the writes of the rows that it keeps, whether or not it fails. -/
theorem cells_addBlock {sums : RowSums} {b : Block} (hb : sums.hold b.reservation = b.reservation)
    (d : Draft) (s : σ) :
    (d.addBlock sums b s).2.1.cells =
      d.cells ++ keptWrites sums b (b.startRow + d.shifts.shift b.startRow) (kept b (b.rows s).1) := by
  rw [addBlock_eq_kept hb]
  dsimp only
  split
  · rfl
  · rfl

/-- After a group the scope is as after all of its rows, whether or not it fails. -/
theorem scope_addBlock {sums : RowSums} {b : Block} (hb : sums.hold b.reservation = b.reservation)
    (d : Draft) (s : σ) : (d.addBlock sums b s).2.2 = (b.rows s).2 := by
  rw [addBlock_eq_kept hb]
  dsimp only
  split
  · rfl
  · rfl

/-- What a group adds depends on its rows alone. -/
theorem addBlock_of_rows_eq {b : Block} {s s' : σ} (h : (b.rows s').1 = (b.rows s).1) (d : Draft) :
    d.addBlock .unbounded b s' =
      ((d.addBlock .unbounded b s).1, (d.addBlock .unbounded b s).2.1, (b.rows s').2) := by
  rw [addBlock_eq_kept rfl, addBlock_eq_kept rfl, h]
  dsimp only
  split
  · rfl
  · rfl

/-- A group that fails is the last one. -/
theorem addBlocks_of_error {sums : RowSums} {b : Block} {d : Draft} {s : σ} {e : FillError}
    (h : (d.addBlock sums b s).1 = .error e) (blocks : List Block) :
    (addBlocks sums (b :: blocks) d s).1 = .error e := by
  rw [addBlocks]
  split
  · next hadd =>
      rw [hadd] at h
      exact h
  · next hadd =>
      rw [hadd] at h
      cases h

/-- What holds of all writes that groups make holds of those in the draft when they were added. -/
theorem forall_mem_addBlocks {P : CellWrite → Prop} {blocks : List Block}
    (hblocks : ∀ b ∈ blocks, ∀ (s : σ) (top : Nat),
      ∀ w ∈ keptWrites .unbounded b top (kept b (b.rows s).1), P w)
    {d : Draft} (hd : ∀ w ∈ d.cells, P w) (s : σ) :
    ∀ w ∈ (addBlocks .unbounded blocks d s).2.1.cells, P w := by
  induction blocks generalizing d s with
  | nil => exact hd
  | cons b blocks ih =>
      obtain ⟨hb, hblocks⟩ := List.forall_mem_cons.1 hblocks
      have hadded : ∀ w ∈ (d.addBlock .unbounded b s).2.1.cells, P w := by
        rw [cells_addBlock rfl]
        exact List.forall_mem_append.2 ⟨hd, hb s _⟩
      rw [addBlocks]
      split
      · next hadd =>
          rw [hadd] at hadded
          exact hadded
      · next hadd =>
          rw [hadd] at hadded
          exact ih hblocks hadded _

end Draft

/-- The cells of an output sheet are those that its groups have added, and then the others. -/
theorem SheetPlan.cells_of_fill {σ ν : Type} [Scope σ ν] {t : SheetPlan} {multiple : Bool} {s : σ}
    {sheet : Sheet} (h : (t.fill multiple s).1 = .ok sheet) :
    let added := (Draft.addBlocks .unbounded t.groups t.draft s).2
    sheet.cells = added.1.cells ++ t.flat.map (flatWrite .unbounded added.1.shifts added.2) := by
  simp only [SheetPlan.fill, SheetPlan.fillWith] at h
  cases hanswer : (Draft.addBlocks .unbounded t.groups t.draft s).1 with
  | error e =>
      rw [hanswer] at h
      cases h
  | ok _ =>
      rw [hanswer] at h
      cases h
      rfl

/-! ## Groups with the rows that they keep -/

/-- A group and the rows that it keeps. -/
structure KeptGroup where
  block : Block
  rows : List Row

namespace KeptGroup

/-- The number of rows for which the template has no room. -/
def surplus (g : KeptGroup) : Nat :=
  match g.block.ending with
  | .fixed => 0
  | .grow => g.rows.length - g.block.reservation

/-- The writes of a group whose first row is `top`. -/
def writes (g : KeptGroup) (top : Nat) : List CellWrite := keptWrites .unbounded g.block top g.rows

/-- The insertion below the rows that a group reserves, if its first row is `top`. -/
def insertion (g : KeptGroup) (top : Nat) : List Preparation :=
  if g.surplus = 0 then []
  else [.insertRows (top + g.block.reservation) g.surplus (top + 2)]

end KeptGroup

section Expand

variable {σ ν : Type} [Scope σ ν]

/-- Expands groups in order, and gives the scope after them. -/
def expandGroups : List Block → σ → List KeptGroup × σ
  | [], s => ([], s)
  | b :: blocks, s =>
    let (rows, s) := b.rows s
    let (groups, s) := expandGroups blocks s
    (⟨b, kept b rows⟩ :: groups, s)

theorem map_block_expandGroups (blocks : List Block) (s : σ) :
    (expandGroups blocks s).1.map KeptGroup.block = blocks := by
  induction blocks generalizing s with
  | nil => rfl
  | cons b blocks ih => simp [expandGroups, ih]

/-- A fixed group keeps no more rows than it reserves. -/
theorem length_rows_le_of_mem_expandGroups {blocks : List Block} {s : σ} {g : KeptGroup}
    (hg : g ∈ (expandGroups blocks s).1) : g.rows.length ≤ g.block.reservation + g.surplus := by
  induction blocks generalizing s with
  | nil => cases hg
  | cons b blocks ih =>
      rcases List.mem_cons.1 hg with rfl | hg
      · simp only [KeptGroup.surplus]
        cases hending : b.ending with
        | fixed => exact length_keptAfter_le hending 0 _
        | grow => simp only; omega
      · exact ih hg

end Expand

end SheetFill.Template

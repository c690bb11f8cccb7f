import Mathlib.Data.List.Dedup
import SheetFill.Group.Block

/-!
# Sorting the cells of a group row

The cells of a group's first row are put into a nesting one by one, except for row numbers, of which the
column alone is kept. No other cell is lost or doubled on the way, and every location has one tier, so
that a group is as deep as its cells have different locations.

## Main definitions

* `iterating`, `Block.rowNumbers` — the cells of a row that iterate, and those that do not.
* `Nesting.insertAll` — the nesting of some cells, put in one after the other.

## Main results

* `Block.sortCells_eq` — where the cells of a row go.
* `Block.cells_ofCells` — the cells of a block are the iterating cells of its row.
* `Block.depth_ofCells` — its depth is the number of different locations among them.
* `Block.rowNumberCol_eq_getLast?` — its row number is the last one of the row.
-/

namespace SheetFill.Group

open Cell

/-- The cells that take part in the iteration of a group: all but row numbers. -/
def iterating (cells : List PlacedFormula) : List PlacedFormula :=
  cells.filter fun c => !c.formula.body.isRowNumber

theorem iterating_cons_of_isRowNumber {c : PlacedFormula} (h : c.formula.body.isRowNumber = true)
    (cells : List PlacedFormula) : iterating (c :: cells) = iterating cells := by
  simp [iterating, h]

theorem iterating_cons_of_not {c : PlacedFormula} (h : c.formula.body.isRowNumber = false)
    (cells : List PlacedFormula) : iterating (c :: cells) = c :: iterating cells := by
  simp [iterating, h]

/-! ## One more cell -/

theorem Tier.perm_insertCell (cell : PlacedFormula) (cells : List PlacedFormula) :
    (Tier.insertCell cell cells).Perm (cell :: cells) := by
  induction cells with
  | nil => exact .refl _
  | cons c cells ih =>
      simp only [Tier.insertCell]
      split
      · exact (ih.cons c).trans (.swap cell c cells)
      · exact .refl _

namespace Nesting

/-- The locations of the tiers, in iteration order. -/
def locations (n : Nesting) : List String := n.tiers.map Tier.location

theorem perm_cells_addCell (cell : PlacedFormula) (tiers : List Tier) :
    ((addCell cell tiers).flatMap Tier.cells).Perm (cell :: tiers.flatMap Tier.cells) := by
  induction tiers with
  | nil => exact .refl _
  | cons t tiers ih =>
      simp only [addCell]
      split
      · exact (Tier.perm_insertCell cell t.cells).append_right _
      · simp only [List.flatMap_cons]
        exact (ih.append_left t.cells).trans List.perm_middle

theorem mem_locations_addCell (cell : PlacedFormula) (tiers : List Tier) (location : String) :
    location ∈ (addCell cell tiers).map Tier.location ↔
      location = cell.formula.body.maxLocation ∨ location ∈ tiers.map Tier.location := by
  induction tiers with
  | nil => simp [addCell]
  | cons t tiers ih =>
      simp only [addCell]
      split
      · next ht =>
          simp only [List.map_cons, List.mem_cons, ht]
          tauto
      · simp only [List.map_cons, List.mem_cons, ih]
        tauto

theorem nodup_locations_addCell (cell : PlacedFormula) {tiers : List Tier}
    (h : (tiers.map Tier.location).Nodup) : ((addCell cell tiers).map Tier.location).Nodup := by
  induction tiers with
  | nil => simp [addCell]
  | cons t tiers ih =>
      obtain ⟨hnew, htiers⟩ := List.nodup_cons.1 h
      simp only [addCell]
      split
      · exact h
      · next ht =>
          refine List.nodup_cons.2 ⟨fun hmem => ?_, ih htiers⟩
          rcases (mem_locations_addCell cell tiers t.location).1 hmem with hcell | hmem
          · exact ht hcell
          · exact hnew hmem

/-! Restoring the order of the tiers moves them and does nothing else. -/

theorem perm_tiers_insert (n : Nesting) (cell : PlacedFormula) :
    (n.insert cell).tiers.Perm (addCell cell n.tiers) :=
  Order.perm_inOrder _ _

theorem perm_cells_insert (n : Nesting) (cell : PlacedFormula) :
    (n.insert cell).cells.Perm (cell :: n.cells) :=
  ((n.perm_tiers_insert cell).flatMap_right Tier.cells).trans (perm_cells_addCell cell n.tiers)

theorem mem_locations_insert (n : Nesting) (cell : PlacedFormula) (location : String) :
    location ∈ (n.insert cell).locations ↔
      location = cell.formula.body.maxLocation ∨ location ∈ n.locations :=
  ((n.perm_tiers_insert cell).map Tier.location).mem_iff.trans
    (mem_locations_addCell cell n.tiers location)

theorem nodup_locations_insert {n : Nesting} (h : n.locations.Nodup) (cell : PlacedFormula) :
    (n.insert cell).locations.Nodup :=
  ((n.perm_tiers_insert cell).map Tier.location).nodup_iff.2 (nodup_locations_addCell cell h)

/-! ## All cells of a row -/

theorem perm_cells_foldl (cells : List PlacedFormula) (n : Nesting) :
    (cells.foldl Nesting.insert n).cells.Perm (cells ++ n.cells) := by
  induction cells generalizing n with
  | nil => exact .refl _
  | cons c cells ih =>
      refine (ih (n.insert c)).trans ?_
      exact ((n.perm_cells_insert c).append_left _).trans List.perm_middle

theorem nodup_locations_foldl (cells : List PlacedFormula) {n : Nesting} (h : n.locations.Nodup) :
    (cells.foldl Nesting.insert n).locations.Nodup := by
  induction cells generalizing n with
  | nil => exact h
  | cons c cells ih => exact ih (nodup_locations_insert h c)

theorem mem_locations_foldl (cells : List PlacedFormula) (n : Nesting) (location : String) :
    location ∈ (cells.foldl Nesting.insert n).locations ↔
      location ∈ cells.map (·.formula.body.maxLocation) ∨ location ∈ n.locations := by
  induction cells generalizing n with
  | nil => exact (or_iff_right List.not_mem_nil).symm
  | cons c cells ih =>
      rw [List.foldl_cons, ih, mem_locations_insert, List.map_cons, List.mem_cons]
      tauto

/-- The nesting of some cells, put in one after the other. -/
def insertAll (cells : List PlacedFormula) : Nesting := cells.foldl Nesting.insert Nesting.empty

end Nesting

namespace Block

/-- The row numbers among the cells of a group's row. -/
def rowNumbers (cells : List PlacedFormula) : List PlacedFormula :=
  cells.filter fun c => c.formula.body.isRowNumber

/-- Of several row numbers the last one counts, and all other cells are put into the nesting. -/
theorem sortCells_eq (cells : List PlacedFormula) (col : Option Nat) (n : Nesting) :
    sortCells cells (col, n) =
      (((rowNumbers cells).getLast?.map (·.position.col)).or col,
        (iterating cells).foldl Nesting.insert n) := by
  induction cells generalizing col n with
  | nil => rfl
  | cons c cells ih =>
      simp only [sortCells]
      split
      · next hc =>
          have hnumbers : rowNumbers (c :: cells) = c :: rowNumbers cells := by
            simp [rowNumbers, hc]
          rw [ih, iterating_cons_of_isRowNumber hc, hnumbers, List.getLast?_cons]
          cases (rowNumbers cells).getLast? with
          | none => rfl
          | some last => rfl
      · next hc =>
          have hnumbers : rowNumbers (c :: cells) = rowNumbers cells := by
            simp [rowNumbers, hc]
          rw [ih, iterating_cons_of_not (by simpa using hc), hnumbers, List.foldl_cons]

variable (startRow endRow endCol : Nat) (ending : Ending) (cells : List PlacedFormula)

theorem nesting_ofCells :
    (ofCells startRow endRow endCol ending cells).nesting = Nesting.insertAll (iterating cells) :=
  congrArg Prod.snd (sortCells_eq cells none .empty)

/-- The cells of a block are the iterating cells of its row. -/
theorem cells_ofCells :
    (ofCells startRow endRow endCol ending cells).nesting.cells.Perm (iterating cells) := by
  have h := Nesting.perm_cells_foldl (iterating cells) .empty
  rw [show Nesting.empty.cells = [] from rfl, List.append_nil] at h
  rw [nesting_ofCells]
  exact h

/-- A block is as deep as its cells have different locations. -/
theorem depth_ofCells :
    (ofCells startRow endRow endCol ending cells).depth =
      ((iterating cells).map (·.formula.body.maxLocation)).dedup.length := by
  have hnodup := Nesting.nodup_locations_foldl (iterating cells) (n := .empty) List.nodup_nil
  have hperm : (Nesting.insertAll (iterating cells)).locations.Perm
      ((iterating cells).map (·.formula.body.maxLocation)).dedup := by
    refine (List.perm_ext_iff_of_nodup hnodup (List.nodup_dedup _)).2 fun location => ?_
    rw [Nesting.mem_locations_foldl, List.mem_dedup]
    simp [Nesting.locations, Nesting.empty]
  rw [← hperm.length_eq, Nesting.locations, List.length_map, depth, nesting_ofCells]
  rfl

/-- A group knows the column of the last row number in its row. -/
theorem rowNumberCol_eq_getLast? :
    (ofCells startRow endRow endCol ending cells).rowNumberCol =
      (rowNumbers cells).getLast?.map (·.position.col) := by
  have h := congrArg Prod.fst (sortCells_eq cells none .empty)
  rwa [Option.or_none] at h

/-- The row number of a block stands in the column of a row-number cell. -/
theorem rowNumberCol_ofCells {k : Nat}
    (h : (ofCells startRow endRow endCol ending cells).rowNumberCol = some k) :
    ∃ c ∈ cells, c.formula.body.isRowNumber = true ∧ c.position.col = k := by
  rw [rowNumberCol_eq_getLast?, Option.map_eq_some_iff] at h
  obtain ⟨c, hlast, hcol⟩ := h
  obtain ⟨hmem, hnumber⟩ := List.mem_filter.1 (List.mem_of_getLast? hlast)
  exact ⟨c, hmem, hnumber, hcol⟩

end Block

end SheetFill.Group

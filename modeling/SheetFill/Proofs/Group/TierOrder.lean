import SheetFill.Proofs.Group.Nesting

/-!
# One nesting for the cells of a row

Cells may be put into a nesting in any order. If their columns differ, the tiers can be told from the cells alone:
each location has one tier, with all of its cells from left to right, and the tiers stand in the order of their
leftmost cells. Putting in one more cell keeps this, although a cell may move its tier to the front; and there is
only one nesting that is like this.

## Main definitions

* `Tier.IsSorted` — cells of one location, from left to right.
* `Nesting.Sorts` — what makes a nesting that of some cells.

## Main results

* `Nesting.Sorts.insert` — one more cell.
* `Nesting.Sorts.eq` — there is one nesting for the cells.
* `Nesting.insertAll_of_perm` — both, for cells in any order.
* `Block.sorts_ofCells` — the nesting of a block is that of the iterating cells of its row.
-/

namespace SheetFill.Group

open Cell

/-! ## Tiers -/

namespace Tier

/-- A tier as it should be: it has cells, all of its location and from left to right. -/
structure IsSorted (t : Tier) : Prop where
  filled : t.cells ≠ []
  own : ∀ c ∈ t.cells, c.formula.body.maxLocation = t.location
  ascending : t.cells.Pairwise fun a b => a.position.col < b.position.col

theorem pairwise_insertCell {cell : PlacedFormula} {cells : List PlacedFormula}
    (h : cells.Pairwise fun a b => a.position.col < b.position.col)
    (hnew : ∀ c ∈ cells, c.position.col ≠ cell.position.col) :
    (insertCell cell cells).Pairwise fun a b => a.position.col < b.position.col := by
  induction cells with
  | nil => exact List.pairwise_singleton _ _
  | cons c cells ih =>
      obtain ⟨hc, hcells⟩ := List.pairwise_cons.1 h
      obtain ⟨hne, hnew⟩ := List.forall_mem_cons.1 hnew
      rw [insertCell]
      split
      · next hle =>
          refine List.pairwise_cons.2 ⟨fun d hd => ?_, ih hcells hnew⟩
          rcases List.mem_cons.1 ((perm_insertCell cell cells).mem_iff.1 hd) with rfl | hd
          · omega
          · exact hc d hd
      · next hle =>
          refine List.pairwise_cons.2 ⟨List.forall_mem_cons.2 ⟨by omega, fun d hd => ?_⟩, h⟩
          have hlt := hc d hd
          omega

/-- One more cell of its location, in a column of its own. -/
theorem IsSorted.insertCell {t : Tier} (h : t.IsSorted) {cell : PlacedFormula}
    (hlocation : t.location = cell.formula.body.maxLocation)
    (hnew : ∀ c ∈ t.cells, c.position.col ≠ cell.position.col) :
    IsSorted { t with cells := Tier.insertCell cell t.cells } where
  filled := fun hnil => by
    have hmem := (perm_insertCell cell t.cells).mem_iff.2 List.mem_cons_self
    rw [show Tier.insertCell cell t.cells = [] from hnil] at hmem
    cases hmem
  own := fun c hc => by
    rcases List.mem_cons.1 ((perm_insertCell cell t.cells).mem_iff.1 hc) with rfl | hc
    · exact hlocation.symm
    · exact h.own c hc
  ascending := pairwise_insertCell h.ascending hnew

/-- The first column of a tier is that of one of its cells. -/
theorem IsSorted.exists_firstCol {t : Tier} (h : t.IsSorted) : ∃ c ∈ t.cells, t.firstCol = c.position.col := by
  rw [firstCol]
  split
  · next hnil => exact absurd hnil h.filled
  · next c cells hcells => exact ⟨c, by rw [hcells]; exact List.mem_cons_self, rfl⟩

end Tier

namespace Nesting

theorem isSorted_addCell {cell : PlacedFormula} {tiers : List Tier} (h : ∀ t ∈ tiers, t.IsSorted)
    (hnew : ∀ c ∈ tiers.flatMap Tier.cells, c.position.col ≠ cell.position.col) :
    ∀ t ∈ addCell cell tiers, t.IsSorted := by
  induction tiers with
  | nil =>
      intro t ht
      rw [List.mem_singleton.1 ht]
      exact ⟨List.cons_ne_nil _ _, by simp, List.pairwise_singleton _ _⟩
  | cons t tiers ih =>
      obtain ⟨ht, htiers⟩ := List.forall_mem_cons.1 h
      rw [List.flatMap_cons, List.forall_mem_append] at hnew
      rw [addCell]
      split
      · next hlocation => exact List.forall_mem_cons.2 ⟨ht.insertCell hlocation hnew.1, htiers⟩
      · exact List.forall_mem_cons.2 ⟨ht, ih htiers hnew.2⟩

/-- Tiers without a column in common begin in different columns. -/
theorem pairwise_firstCol_ne {tiers : List Tier} (h : ∀ t ∈ tiers, t.IsSorted)
    (hcols : ((tiers.flatMap Tier.cells).map (·.position.col)).Nodup) :
    tiers.Pairwise fun s t => s.firstCol ≠ t.firstCol := by
  induction tiers with
  | nil => exact .nil
  | cons t tiers ih =>
      obtain ⟨ht, htiers⟩ := List.forall_mem_cons.1 h
      rw [List.flatMap_cons, List.map_append, List.nodup_append] at hcols
      obtain ⟨-, hrest, hdisjoint⟩ := hcols
      refine List.pairwise_cons.2 ⟨fun s hs => ?_, ih htiers hrest⟩
      obtain ⟨c, hc, hcol⟩ := ht.exists_firstCol
      obtain ⟨d, hd, hcol'⟩ := (htiers s hs).exists_firstCol
      rw [hcol, hcol']
      exact hdisjoint _ (List.mem_map_of_mem hc) _ (List.mem_map_of_mem (List.mem_flatMap.2 ⟨s, hs, hd⟩))

/-! ## Nestings -/

/-- The nesting is that of the cells. -/
structure Sorts (n : Nesting) (cells : List PlacedFormula) : Prop where
  perm : n.cells.Perm cells
  locations : n.locations.Nodup
  sorted : ∀ t ∈ n.tiers, t.IsSorted
  ascending : n.tiers.Pairwise fun s t => s.firstCol < t.firstCol

namespace Sorts

variable {n : Nesting} {cells : List PlacedFormula}

theorem empty : Sorts Nesting.empty [] where
  perm := .refl _
  locations := .nil
  sorted := nofun
  ascending := .nil

theorem of_perm (h : n.Sorts cells) {others : List PlacedFormula} (hperm : cells.Perm others) :
    n.Sorts others :=
  { h with perm := h.perm.trans hperm }

/-- One more cell, in a column of its own. -/
theorem insert (h : n.Sorts cells) {cell : PlacedFormula}
    (hcols : ((cell :: cells).map (·.position.col)).Nodup) : (n.insert cell).Sorts (cell :: cells) := by
  have hperm : (n.insert cell).cells.Perm (cell :: cells) := (n.perm_cells_insert cell).trans (h.perm.cons cell)
  have hnew : ∀ c ∈ n.tiers.flatMap Tier.cells, c.position.col ≠ cell.position.col := by
    intro c hc heq
    rw [List.map_cons, List.nodup_cons] at hcols
    exact hcols.1 (heq ▸ List.mem_map_of_mem (h.perm.mem_iff.1 hc))
  have hsorted := isSorted_addCell h.sorted hnew
  have hadded : (((addCell cell n.tiers).flatMap Tier.cells).map (·.position.col)).Nodup := by
    refine (List.Perm.nodup_iff ?_).2 hcols
    exact ((perm_cells_addCell cell n.tiers).trans (h.perm.cons cell)).map _
  exact {
    perm := hperm
    locations := nodup_locations_insert h.locations cell
    sorted := fun t ht => hsorted t ((n.perm_tiers_insert cell).mem_iff.1 ht)
    ascending := Order.pairwise_lt_inOrder (pairwise_firstCol_ne hsorted hadded) }

/-- A tier has all cells of its location, and no others. -/
theorem mem_cells_iff (h : n.Sorts cells) {t : Tier} (ht : t ∈ n.tiers) (c : PlacedFormula) :
    c ∈ t.cells ↔ c ∈ cells ∧ c.formula.body.maxLocation = t.location := by
  constructor
  · exact fun hc => ⟨h.perm.mem_iff.1 (List.mem_flatMap.2 ⟨t, ht, hc⟩), (h.sorted t ht).own c hc⟩
  · rintro ⟨hc, hlocation⟩
    obtain ⟨s, hs, hcs⟩ := List.mem_flatMap.1 (h.perm.mem_iff.2 hc)
    have heq : s.location = t.location := ((h.sorted s hs).own c hcs).symm.trans hlocation
    rwa [← List.inj_on_of_nodup_map h.locations hs ht heq]

/-- A tier of one nesting is in every other one of the same cells. -/
theorem mem_tiers (h : n.Sorts cells) {m : Nesting} (hm : m.Sorts cells) {t : Tier} (ht : t ∈ n.tiers) :
    t ∈ m.tiers := by
  obtain ⟨c, hc, -⟩ := (h.sorted t ht).exists_firstCol
  obtain ⟨s, hs, hcs⟩ := List.mem_flatMap.1 (hm.perm.mem_iff.2 ((h.mem_cells_iff ht c).1 hc).1)
  have hlocation : s.location = t.location :=
    ((hm.sorted s hs).own c hcs).symm.trans ((h.sorted t ht).own c hc)
  have hcells : s.cells = t.cells := by
    refine Order.eq_of_pairwise_lt (hm.sorted s hs).ascending (h.sorted t ht).ascending fun d => ?_
    rw [hm.mem_cells_iff hs, h.mem_cells_iff ht, hlocation]
  have heq : s = t := by
    cases s
    cases t
    cases hlocation
    cases hcells
    rfl
  rwa [← heq]

/-- There is one nesting for the cells. -/
theorem eq (h : n.Sorts cells) {m : Nesting} (hm : m.Sorts cells) : n = m := by
  have htiers : n.tiers = m.tiers :=
    Order.eq_of_pairwise_lt h.ascending hm.ascending fun t => ⟨h.mem_tiers hm, hm.mem_tiers h⟩
  cases n
  cases m
  cases htiers
  rfl

end Sorts

/-- Cells that are put in behind others. -/
theorem Sorts.foldl {n : Nesting} {done : List PlacedFormula} (h : n.Sorts done) (cells : List PlacedFormula)
    (hcols : ((cells ++ done).map (·.position.col)).Nodup) :
    (cells.foldl Nesting.insert n).Sorts (cells ++ done) := by
  induction cells generalizing n done with
  | nil => exact h
  | cons cell cells ih =>
      have hperm : (cells ++ cell :: done).Perm (cell :: cells ++ done) := List.perm_middle
      have hcols' : ((cells ++ cell :: done).map (·.position.col)).Nodup :=
        (hperm.map _).nodup_iff.2 hcols
      have hcell : ((cell :: done).map (·.position.col)).Nodup := by
        rw [List.map_append, List.nodup_append] at hcols'
        exact hcols'.2.1
      exact (ih (h.insert hcell) hcols').of_perm hperm

theorem sorts_insertAll {cells : List PlacedFormula} (hcols : (cells.map (·.position.col)).Nodup) :
    (insertAll cells).Sorts cells := by
  have h := Sorts.empty.foldl cells (by rwa [List.append_nil])
  rwa [List.append_nil] at h

/-- Cells in columns of their own have one nesting, in whatever order they are put in: the locations of its tiers are
different, a tier has the cells of its location from left to right, the tiers stand by their leftmost cells, and no
cell is lost or doubled. -/
theorem insertAll_of_perm (cells others : List PlacedFormula) (hcols : (cells.map (·.position.col)).Nodup)
    (hperm : others.Perm cells) :
    insertAll others = insertAll cells ∧
      (insertAll cells).locations.Nodup ∧
      (∀ t ∈ (insertAll cells).tiers, t.cells.Pairwise fun a b => a.position.col < b.position.col) ∧
      (insertAll cells).tiers.Pairwise (fun s t => s.firstCol < t.firstCol) ∧
      (∀ t ∈ (insertAll cells).tiers, ∀ c, c ∈ t.cells ↔ c ∈ cells ∧ c.formula.body.maxLocation = t.location) ∧
      (insertAll cells).cells.Perm cells := by
  have h := sorts_insertAll hcols
  have hothers : (insertAll others).Sorts cells :=
    (sorts_insertAll ((hperm.map _).nodup_iff.2 hcols)).of_perm hperm
  exact ⟨hothers.eq h, h.locations, fun t ht => (h.sorted t ht).ascending, h.ascending,
    fun t ht => h.mem_cells_iff ht, h.perm⟩

/-- Four cells of three locations: from right to left, they are found in the same tiers. -/
theorem insertAll_of_perm_reverse :
    let cell (col : Nat) (location key : String) : PlacedFormula :=
      ⟨⟨0, col⟩, ⟨⟨"#" ++ location ++ "." ++ key ++ "#",
        [.slot ⟨.group, location ++ "." ++ key, ⟨location, key⟩, []⟩]⟩, []⟩⟩
    let cells := [cell 4 "b" "x", cell 1 "a" "x", cell 6 "c" "x", cell 2 "a" "y"]
    insertAll cells.reverse = insertAll cells ∧
      insertAll cells = ⟨[⟨"a", [cell 1 "a" "x", cell 2 "a" "y"]⟩, ⟨"b", [cell 4 "b" "x"]⟩,
        ⟨"c", [cell 6 "c" "x"]⟩]⟩ :=
  ⟨(insertAll_of_perm _ _ (by decide) (List.reverse_perm _)).1, by decide +kernel⟩

end Nesting

/-! ## Blocks -/

namespace Block

/-- The nesting of a block is that of the iterating cells of its row. -/
theorem sorts_ofCells (startRow endRow endCol : Nat) (ending : Ending) {cells : List PlacedFormula}
    (hcols : (cells.map (·.position.col)).Nodup) :
    (ofCells startRow endRow endCol ending cells).nesting.Sorts (iterating cells) := by
  rw [nesting_ofCells]
  exact Nesting.sorts_insertAll (hcols.sublist (List.filter_sublist.map _))

end Block

end SheetFill.Group

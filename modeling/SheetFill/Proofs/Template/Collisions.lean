import SheetFill.Proofs.Group.Points
import SheetFill.Proofs.Template.Placement

/-!
# No two writes to a cell

The writes of an output sheet go to different cells, with one exception: a cell outside groups that lies
among the rows that a group reserves, below its first row, may be written over.

Inside a row the columns differ, because those of a group's rows are the columns of its cells in the
template. The rows of two groups differ, because each group stays above the end of its rows, wherever that
is moved. And the rows of the template keep their order.

## Main results

* `nodup_groupCols`, `not_mem_groupCols` — the cells of a plan lie apart.
* `SheetPlan.fill_collisions` — two writes to one cell.
-/

namespace SheetFill.Template

open Cell SheetFill.Group Output

variable {settings : Settings}

/-! ## The cells of a plan lie apart -/

/-- The columns that the rows of a group may write to. -/
def groupCols (b : Block) : List Nat := b.rowNumberCol.toList ++ Tier.cols b.nesting.tiers

theorem nodup_positions_formulas (settings : Settings) {raw : RawSheet}
    (h : (raw.cells.map RawCell.position).Nodup) :
    ((raw.formulas settings).map PlacedFormula.position).Nodup := by
  have hperm := Order.perm_inOrder (fun a b => a.position.le b.position) raw.cells
  have hsorted := List.pairwise_map.1 ((hperm.map RawCell.position).nodup_iff.2 h)
  refine List.pairwise_map.2 (List.pairwise_filterMap.2 (hsorted.imp fun {c d} hne f hf f' hf' => ?_))
  rw [position_of_formula? hf, position_of_formula? hf']
  exact hne

/-- Cells that start a group in a row are told apart by their columns. -/
theorem eq_of_mem_startsIn {cells : List PlacedFormula}
    (hcells : (cells.map PlacedFormula.position).Nodup) {row : Nat} {c d : PlacedFormula}
    (hc : c ∈ startsIn cells row) (hd : d ∈ cells) (hrow : d.position.row = row)
    (hcol : d.position.col = c.position.col) : c = d := by
  obtain ⟨hmem, -, hcrow⟩ := mem_startsIn_iff.1 hc
  have hposition : c.position = d.position := Coordinate.ext (hcrow.trans hrow.symm) hcol.symm
  exact List.inj_on_of_nodup_map hcells hmem hd hposition

section Cells

variable {cells : List PlacedFormula} {bounds : Nat × PlacedFormula} {b : Block}
  (hb : GroupOf cells bounds b)

include hb

/-- The columns that a group writes to are those of cells of its first row. -/
theorem exists_of_mem_groupCols {col : Nat} (h : col ∈ groupCols b) :
    ∃ c ∈ startsIn cells b.startRow, c.position.col = col := by
  rw [hb.startRow]
  rcases List.mem_append.1 h with h | h
  · obtain ⟨c, hc, -, hcol⟩ := hb.rowNumber col (Option.mem_toList.1 h)
    exact ⟨c, hc, hcol⟩
  · obtain ⟨c, hc, hcol⟩ := List.mem_map.1 h
    have hmem : c ∈ iterating (startsIn cells bounds.1) := hb.nesting.mem_iff.1 hc
    exact ⟨c, List.mem_of_mem_filter hmem, hcol⟩

variable (hcells : (cells.map PlacedFormula.position).Nodup)

include hcells

theorem nodup_groupCols : (groupCols b).Nodup := by
  have hiterating : ((iterating (startsIn cells bounds.1)).map (·.position.col)).Nodup := by
    refine List.pairwise_map.2 ?_
    have hpositions := ((List.pairwise_map.1 hcells).filter fun c => c.formula.body.isGroupStart)
    refine ((hpositions.filter _).filter _).imp_of_mem fun {c d} hc hd hne hcol => hne ?_
    have hcrow := (mem_startsIn_iff.1 (List.mem_of_mem_filter hc)).2.2
    have hdrow := (mem_startsIn_iff.1 (List.mem_of_mem_filter hd)).2.2
    exact Coordinate.ext (hcrow.trans hdrow.symm) hcol
  have hperm : (Tier.cols b.nesting.tiers).Perm
      ((iterating (startsIn cells bounds.1)).map (·.position.col)) := hb.nesting.map _
  have hcols : (Tier.cols b.nesting.tiers).Nodup := hperm.nodup_iff.2 hiterating
  cases hnumber : b.rowNumberCol with
  | none =>
      rw [groupCols, hnumber]
      exact hcols
  | some col =>
      rw [groupCols, hnumber]
      refine List.nodup_cons.2 ⟨fun hmem => ?_, hcols⟩
      -- the row number is no cell of a tier
      obtain ⟨c, hc, hisNumber, hcol⟩ := hb.rowNumber col hnumber
      obtain ⟨d, hd, hdcol⟩ := List.mem_map.1 hmem
      have hd : d ∈ iterating (startsIn cells bounds.1) := hb.nesting.mem_iff.1 hd
      obtain ⟨hdstart, hdiffers⟩ := List.mem_filter.1 hd
      obtain ⟨hdcells, -, hdrow⟩ := mem_startsIn_iff.1 hdstart
      have hsame := eq_of_mem_startsIn hcells hc hdcells hdrow (hdcol.trans hcol.symm)
      rw [← hsame, hisNumber] at hdiffers
      cases hdiffers

/-- No cell outside groups shares the first row of a group and a column that the group writes to. -/
theorem not_mem_groupCols {c : PlacedFormula} (hc : c ∈ cells)
    (hflat : c.formula.body.isGroup = false) (hrow : c.position.row = b.startRow) :
    c.position.col ∉ groupCols b := by
  intro hmem
  obtain ⟨d, hd, hcol⟩ := exists_of_mem_groupCols hb hmem
  have hsame := eq_of_mem_startsIn hcells hd hc hrow hcol.symm
  have hgroup := isGroup_of_isGroupStart (mem_startsIn_iff.1 hd).2.1
  rw [hsame, hflat] at hgroup
  cases hgroup

end Cells

theorem exists_of_mem_right {α β : Type} {related : α → β → Prop} {as : List α} {bs : List β}
    (h : List.Forall₂ related as bs) {b : β} (hb : b ∈ bs) : ∃ a, related a b := by
  induction h with
  | nil => cases hb
  | cons hfirst _ ih =>
      rcases List.mem_cons.1 hb with rfl | hb
      · exact ⟨_, hfirst⟩
      · exact ih hb

/-- Every group of a plan is the group of a row, and every other cell one that takes part in no group. -/
theorem SheetPlan.groupOf_of_ofRaw? {index : Nat} {raw : RawSheet} {plan : SheetPlan}
    (h : SheetPlan.ofRaw? settings index raw = .ok plan) :
    (∀ b ∈ plan.groups, ∃ bounds, GroupOf (raw.formulas settings) bounds b) ∧
      plan.flat = (raw.formulas settings).filter fun c => !c.formula.body.isGroup := by
  obtain ⟨-, -, -, hflat, hmatched⟩ := SheetPlan.ofRaw?_eq_ok_iff.1 h
  refine ⟨fun b hb => ?_, hflat⟩
  obtain ⟨-, hgather⟩ := openings_gather settings (rowByRow_rows raw)
  have hgroups := hmatched.groupsOf hgather
  rw [← formulas_eq] at hgroups
  exact exists_of_mem_right hgroups hb

/-! ## The writes of a group -/

theorem mem_of_mem_kept {b : Block} {rows : List Row} {row : Row} (h : row ∈ kept b rows) :
    row ∈ rows := by
  simp only [kept, keptAfter] at h
  split at h
  · exact List.mem_of_mem_filter (List.mem_of_mem_take h)
  · exact List.mem_of_mem_filter h

section Expand

variable {σ ν : Type} [Scope σ ν]

theorem cols_prefix_of_mem_expandGroups {blocks : List Block} {s : σ} {g : KeptGroup}
    (hg : g ∈ (expandGroups blocks s).1) {row : Row} (hrow : row ∈ g.rows) :
    row.cols <+: Tier.cols g.block.nesting.tiers := by
  induction blocks generalizing s with
  | nil => cases hg
  | cons b blocks ih =>
      rcases List.mem_cons.1 hg with rfl | hg
      · have hmem : row ∈ (b.rows s).1 := mem_of_mem_kept hrow
        rw [Block.rows, Walk.drain_ofTiers] at hmem
        exact cols_prefix_of_mem_expandTiers _ _ hmem
      · exact ih hg

end Expand

/-- A row is written to columns of the group, from left to right in its list of them. -/
theorem cols_keptRow_sublist {b : Block} {row : Row} (h : row.cols <+: Tier.cols b.nesting.tiers)
    (sums : RowSums) (top k : Nat) :
    ((keptRow sums b top k row).map CellWrite.col).Sublist (groupCols b) := by
  rw [keptRow, List.map_append]
  refine List.Sublist.append ?_ ?_
  · split
    · exact List.nil_sublist _
    · rw [List.map_map]
      show (b.rowNumberCol.toList.map id).Sublist _
      rw [List.map_id]
  · rw [List.map_map]
    exact h.sublist

/-- The writes of a group are in the rows from the first one on, in columns of the group. -/
theorem mem_writes {g : KeptGroup} {top : Nat} {w : CellWrite} (h : w ∈ g.writes top)
    (hrows : ∀ row ∈ g.rows, row.cols <+: Tier.cols g.block.nesting.tiers) :
    ∃ k < g.rows.length, w.row = top + k ∧ w.col ∈ groupCols g.block := by
  obtain ⟨⟨row, k⟩, hk, h⟩ := List.mem_flatMap.1 h
  have hmem : row ∈ g.rows := List.fst_mem_of_mem_zipIdx hk
  have hlength : k < g.rows.length := List.snd_lt_of_mem_zipIdx hk
  have hcol : w.col ∈ (keptRow .unbounded g.block top k row).map CellWrite.col := List.mem_map_of_mem h
  exact ⟨k, hlength, (row_of_mem_keptRow h).1, (cols_keptRow_sublist (hrows row hmem) _ _ _).subset hcol⟩

/-- No two writes of a group go to the same cell. -/
theorem pairwise_writes {g : KeptGroup} (hcols : (groupCols g.block).Nodup)
    (hrows : ∀ row ∈ g.rows, row.cols <+: Tier.cols g.block.nesting.tiers) (top : Nat) :
    (g.writes top).Pairwise fun v w => v.row = w.row → v.col ≠ w.col := by
  refine List.pairwise_flatMap.2 ⟨fun (row, k) hk => ?_, ?_⟩
  · -- inside a row the columns differ
    have hmem : row ∈ g.rows := List.fst_mem_of_mem_zipIdx hk
    have hdiffer := (cols_keptRow_sublist (hrows row hmem) .unbounded top k).nodup hcols
    exact (List.pairwise_map.1 hdiffer).imp fun hne _ hcol => hne hcol
  · have hindices : g.rows.zipIdx.Pairwise fun a b => a.2 < b.2 := by
      refine List.pairwise_map.1 ?_
      rw [List.zipIdx_map_snd]
      exact List.pairwise_lt_range'
    refine hindices.imp fun {a b} hlt v hv w hw hsame => ?_
    have hv : v.row = top + a.2 := (row_of_mem_keptRow hv).1
    have hw : w.row = top + b.2 := (row_of_mem_keptRow hw).1
    omega

/-! ## All writes -/

section Writes

variable {groups : List KeptGroup} {place : Nat → Nat} (hlayout : Layout groups place)

include hlayout

/-- Cells outside groups are written to different cells, as they lie in different cells of the template. -/
theorem pairwise_flatWrites {σ ν : Type} [Scope σ ν] (s : σ) {cells : List PlacedFormula}
    (h : (cells.map PlacedFormula.position).Nodup) :
    (flatWrites place s cells).Pairwise fun v w => v.row = w.row → v.col ≠ w.col := by
  refine List.pairwise_map.2 ((List.pairwise_map.1 h).imp fun {c d} hne hrow hcol => hne ?_)
  have hrow : place c.position.row = place d.position.row := hrow
  have hsame : c.position.row = d.position.row := by
    rcases Nat.lt_trichotomy c.position.row d.position.row with hlt | heq | hgt
    · have := hlayout.place_lt hlt
      omega
    · exact heq
    · have := hlayout.place_lt hgt
      omega
  exact Coordinate.ext hsame hcol

variable (hrows : ∀ g ∈ groups, ∀ row ∈ g.rows, row.cols <+: Tier.cols g.block.nesting.tiers)

include hrows

/-- Groups are written to different cells, since each stays above the end of its rows. -/
theorem pairwise_groupWrites (hcols : ∀ g ∈ groups, (groupCols g.block).Nodup) :
    (groupWrites place groups).Pairwise fun v w => v.row = w.row → v.col ≠ w.col := by
  refine List.pairwise_flatMap.2
    ⟨fun g hg => pairwise_writes (hcols g hg) (hrows g hg) _, ?_⟩
  have happart := List.pairwise_map.1 hlayout.descending.apart
  refine happart.imp_of_mem fun {g g'} hg hg' hbelow v hv w hw hsame => ?_
  obtain ⟨k, hk, hvrow, -⟩ := mem_writes hv (hrows g hg)
  obtain ⟨k', -, hwrow, -⟩ := mem_writes hw (hrows g' hg')
  have hpast := hlayout.place_below hg hbelow
  have hfits := hlayout.room g hg
  omega

/-- A write of a group to the row of a cell outside groups: the cell is among the rows that it reserves. -/
theorem reserved_of_row_eq {g : KeptGroup} (hg : g ∈ groups) {w : CellWrite} {row : Nat}
    (hw : w ∈ g.writes (place g.block.startRow)) (hrow : w.row = place row) :
    g.block.startRow ≤ row ∧ row < g.block.endRow := by
  obtain ⟨k, hk, hwrow, -⟩ := mem_writes hw (hrows g hg)
  have hfits := hlayout.room g hg
  constructor
  · by_contra habove
    have := hlayout.place_lt (Nat.lt_of_not_le habove)
    omega
  · by_contra hbelow
    have := hlayout.place_below hg (Nat.le_of_not_lt hbelow)
    omega

end Writes

/--
Two writes of an output sheet go to the same cell only if one of them is that of a cell outside groups and
the other that of a group among whose reserved rows, below the first, the cell lies.
-/
theorem SheetPlan.fill_collisions {σ ν : Type} [Scope σ ν] {index : Nat} {raw : RawSheet}
    {plan : SheetPlan} (hplan : SheetPlan.ofRaw? settings index raw = .ok plan)
    (hraw : (raw.cells.map RawCell.position).Nodup) (multiple : Bool) (s : σ)
    (htotal : ((expandGroups plan.groups s).1.map KeptGroup.surplus).sum ≤ RowShifts.maxTotal) :
    let groups := (expandGroups plan.groups s).1
    ∃ sheet, (plan.fill multiple s).1 = .ok sheet ∧
      sheet.cells.Pairwise fun v w => v.row = w.row → v.col = w.col →
        w.refRow = none ∧ ∃ g ∈ groups, v ∈ g.writes (sheet.moveRow g.block.startRow) ∧
          g.block.startRow < w.templateRow ∧ w.templateRow < g.block.endRow := by
  have hdescending := SheetPlan.descending_of_ofRaw? hplan
  obtain ⟨sheet, hfill, -, hcells, hlayout⟩ := SheetPlan.fill_eq hdescending multiple s htotal
  obtain ⟨hgroupOf, hflat⟩ := SheetPlan.groupOf_of_ofRaw? hplan
  have hpositions := nodup_positions_formulas settings hraw
  have hblocks := map_block_expandGroups plan.groups s
  have hrows : ∀ g ∈ (expandGroups plan.groups s).1, ∀ row ∈ g.rows,
      row.cols <+: Tier.cols g.block.nesting.tiers :=
    fun g hg row hrow => cols_prefix_of_mem_expandGroups hg hrow
  dsimp only
  obtain ⟨groups, hgroups⟩ : ∃ groups, groups = (expandGroups plan.groups s).1 := ⟨_, rfl⟩
  rw [← hgroups] at hcells hlayout hblocks hrows ⊢
  have hof : ∀ g ∈ groups, ∃ bounds, GroupOf (raw.formulas settings) bounds g.block := by
    intro g hg
    exact hgroupOf g.block (hblocks ▸ List.mem_map_of_mem hg)
  refine ⟨sheet, hfill, ?_⟩
  rw [hcells]
  refine List.pairwise_append.2 ⟨?_, ?_, ?_⟩
  · have hcols : ∀ g ∈ groups, (groupCols g.block).Nodup := by
      intro g hg
      obtain ⟨bounds, hbounds⟩ := hof g hg
      exact nodup_groupCols hbounds hpositions
    exact (pairwise_groupWrites hlayout hrows hcols).imp
      fun happart hrow hcol => absurd hcol (happart hrow)
  · have hnodup : (plan.flat.map PlacedFormula.position).Nodup := by
      rw [hflat]
      exact List.pairwise_map.2 ((List.pairwise_map.1 hpositions).filter _)
    exact (pairwise_flatWrites hlayout _ hnodup).imp
      fun happart hrow hcol => absurd hcol (happart hrow)
  · intro v hv w hw hrow hcol
    obtain ⟨g, hg, hv⟩ := List.mem_flatMap.1 hv
    obtain ⟨c, hc, rfl⟩ := List.mem_map.1 hw
    obtain ⟨hstart, hend⟩ := reserved_of_row_eq hlayout hrows hg hv hrow
    refine ⟨rfl, g, hg, hv, ?_, hend⟩
    -- in the first row of the group the columns differ
    rcases Nat.lt_or_eq_of_le hstart with hlt | heq
    · exact hlt
    · obtain ⟨bounds, hbounds⟩ := hof g hg
      rw [hflat] at hc
      obtain ⟨hmem, houtside⟩ := List.mem_filter.1 hc
      obtain ⟨-, -, -, hvcol⟩ := mem_writes hv (hrows g hg)
      rw [hcol] at hvcol
      exact absurd hvcol (not_mem_groupCols hbounds hpositions hmem (by simpa using houtside) heq.symm)

/-- The cell beside the end of a group is moved out of the way of the rows that the group inserts. -/
theorem SheetPlan.fill_collisions_staff :
    let raw : RawSheet :=
      { name := "Staff"
        cells := [⟨⟨1, 0⟩, "#staff.name#"⟩, ⟨⟨2, 0⟩, "#grow#"⟩, ⟨⟨2, 1⟩, "$firm.title$"⟩] }
    let title : Body := ⟨"$firm.title$", [.slot ⟨.plain, "firm.title", ⟨"firm", "title"⟩, []⟩]⟩
    let person : Body := ⟨"#staff.name#", [.slot ⟨.group, "staff.name", ⟨"staff", "name"⟩, []⟩]⟩
    let plan : SheetPlan :=
      { index := 0, name := ⟨"Staff", [.literal "Staff"]⟩, flat := [⟨⟨2, 1⟩, ⟨title, []⟩⟩]
        groups := [⟨1, 2, 0, .grow, none, ⟨[⟨"staff", [⟨⟨1, 0⟩, ⟨person, []⟩⟩]⟩]⟩⟩] }
    let named (name : String) := Json.Value.object [("name", .string name)]
    let root := Json.Value.object [("staff", .array [named "Ada", named "Ben", named "Cy"])]
    SheetPlan.ofRaw? .default 0 raw = .ok plan ∧ (raw.cells.map RawCell.position).Nodup ∧
      ((expandGroups plan.groups (Json.Document.ofValue root)).1.map KeptGroup.surplus).sum ≤
        RowShifts.maxTotal ∧
      ∃ sheet, (plan.fill false (Json.Document.ofValue root)).1 = .ok sheet ∧
        sheet.cells.Pairwise fun v w => v.row = w.row → v.col ≠ w.col := by
  intro raw title person plan named root
  have hplan : SheetPlan.ofRaw? .default 0 raw = .ok plan := by decide +kernel
  have hraw : (raw.cells.map RawCell.position).Nodup := by decide
  have htotal : ((expandGroups plan.groups (Json.Document.ofValue root)).1.map
      KeptGroup.surplus).sum ≤ RowShifts.maxTotal := by
    simp only [plan, expandGroups, Block.rows, Walk.drain_ofTiers]
    decide +kernel
  obtain ⟨sheet, hfill, happart⟩ :=
    SheetPlan.fill_collisions hplan hraw false (Json.Document.ofValue root) htotal
  refine ⟨hplan, hraw, htotal, sheet, hfill, happart.imp fun hsame hrow hcol => ?_⟩
  -- the group reserves one row, so no cell lies among its rows below the first
  obtain ⟨-, g, hg, -, hstart, hend⟩ := hsame hrow hcol
  have hblock : g.block ∈ plan.groups := by
    rw [← map_block_expandGroups plan.groups (Json.Document.ofValue root)]
    exact List.mem_map_of_mem hg
  obtain hblock := List.mem_singleton.1 hblock
  rw [hblock] at hstart hend
  dsimp only at hstart hend
  omega

end SheetFill.Template

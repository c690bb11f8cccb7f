import SheetFill.Proofs.Template.Completion

/-!
# Which cells are cleared

An output sheet clears the cells of its template that do something: those outside groups, those that start
a group and those that end one. Every such cell finds its way into the plan of the sheet and is cleared,
with one exception. A group knows one column for its row numbers, that of the last row number in its row.
A row number further left is *forgotten*: it is neither filled nor cleared.

## Main definitions

* `Forgotten` — row numbers that are not the last one of their row.

## Main results

* `Block.mem_columns_ofCells` — the columns that a group knows.
* `SheetPlan.mem_clearings_iff` — the cells that a plan clears.
* `SheetPlan.fill_clears` — the cells that an output sheet clears.
-/

namespace SheetFill

/-! ## Columns of a group -/

namespace Group.Block

open Cell

variable (startRow endRow endCol : Nat) (ending : Ending) (cells : List PlacedFormula)

/-- The columns of a group are those of its iterating cells, and that of its last row number. -/
theorem mem_columns_ofCells {col : Nat} :
    col ∈ (ofCells startRow endRow endCol ending cells).columns ↔
      (∃ c ∈ iterating cells, c.position.col = col) ∨
        ∃ c ∈ (rowNumbers cells).getLast?, c.position.col = col := by
  have hiterating : (∃ c ∈ (ofCells startRow endRow endCol ending cells).nesting.cells,
      c.position.col = col) ↔ ∃ c ∈ iterating cells, c.position.col = col := by
    simp only [(cells_ofCells startRow endRow endCol ending cells).mem_iff]
  rw [columns, List.mem_eraseDups, (Order.perm_inOrder _ _).mem_iff, List.mem_append, List.mem_map,
    hiterating, rowNumberCol_eq_getLast?]
  simp [Option.mem_toList]

end Group.Block

namespace Template

open Cell SheetFill.Group Output

variable {settings : Settings}

/-! ## Forgotten row numbers -/

/-- A row number that starts a group together with another one further right. -/
def Forgotten (cells : List PlacedFormula) (c : PlacedFormula) : Prop :=
  c.formula.body.isGroupStart = true ∧ c.formula.body.isRowNumber = true ∧
    ∃ d ∈ startsIn cells c.position.row,
      d.formula.body.isRowNumber = true ∧ c.position.col < d.position.col

instance (cells : List PlacedFormula) (c : PlacedFormula) : Decidable (Forgotten cells c) :=
  inferInstanceAs (Decidable (_ ∧ _ ∧ ∃ d ∈ startsIn cells c.position.row, _ ∧ _))

/-- The cells of a sheet that do something are in reading order. -/
theorem RawSheet.pairwise_formulas (settings : Settings) (sheet : RawSheet) :
    (sheet.formulas settings).Pairwise fun c d => c.position.le d.position := by
  have hsorted := Order.pairwise_inOrder (fun a b : RawCell => Coordinate.le_total a.position b.position)
    (fun a b c => Coordinate.le_trans a.position b.position c.position) sheet.cells
  refine List.pairwise_filterMap.2 (hsorted.imp fun {c d} hle c' hc' d' hd' => ?_)
  rw [position_of_formula? hc', position_of_formula? hd']
  exact hle

/-- In reading order, no row number is further right than the last one. -/
theorem col_le_getLast? {cells : List PlacedFormula}
    (hsorted : cells.Pairwise fun c d => c.position.le d.position) {row : Nat} {c last : PlacedFormula}
    (hc : c ∈ Block.rowNumbers (startsIn cells row))
    (hlast : (Block.rowNumbers (startsIn cells row)).getLast? = some last) :
    c.position.col ≤ last.position.col := by
  have hnumbers : (Block.rowNumbers (startsIn cells row)).Pairwise fun c d => c.position.le d.position :=
    ((hsorted.filter _).filter _).filter _
  obtain ⟨front, hfront⟩ := List.getLast?_eq_some_iff.1 hlast
  have hrow {d : PlacedFormula} (hd : d ∈ Block.rowNumbers (startsIn cells row)) :
      d.position.row = row := (mem_startsIn_iff.1 (List.mem_of_mem_filter hd)).2.2
  have hsame : c.position.row = last.position.row := by
    rw [hrow hc, hrow (List.mem_of_mem_getLast? hlast)]
  rw [hfront] at hc hnumbers
  rcases List.mem_append.1 hc with hc | hc
  · have hle := (List.pairwise_append.1 hnumbers).2.2 c hc last List.mem_cons_self
    rw [Coordinate.le_iff] at hle
    omega
  · rw [List.mem_singleton.1 hc]

/-- The columns of the group of a row are those of its cells that are not forgotten. -/
theorem mem_columns_iff {cells : List PlacedFormula}
    (hsorted : cells.Pairwise fun c d => c.position.le d.position) {g : OpenGroup}
    (hg : g.Gathers cells) (last : PlacedFormula) (ending : Ending) {col : Nat} :
    col ∈ (g.block last ending).columns ↔
      ∃ c ∈ startsIn cells g.start.row, ¬ Forgotten cells c ∧ c.position.col = col := by
  rw [OpenGroup.block, Block.mem_columns_ofCells, hg.cells_eq]
  constructor
  · rintro (⟨c, hc, rfl⟩ | ⟨c, hc, rfl⟩)
    · obtain ⟨hc, hnot⟩ := List.mem_filter.1 hc
      refine ⟨c, hc, fun hforgotten => ?_, rfl⟩
      simp [hforgotten.2.1] at hnot
    · have hmem := List.mem_of_mem_filter (List.mem_of_mem_getLast? hc)
      refine ⟨c, hmem, fun hforgotten => ?_, rfl⟩
      obtain ⟨-, -, d, hd, hnumber, hright⟩ := hforgotten
      rw [(mem_startsIn_iff.1 hmem).2.2] at hd
      have hle := col_le_getLast? hsorted (List.mem_filter.2 ⟨hd, hnumber⟩) hc
      omega
  · rintro ⟨c, hc, hkept, rfl⟩
    by_cases hnumber : c.formula.body.isRowNumber = true
    · have hmem : c ∈ Block.rowNumbers (startsIn cells g.start.row) := List.mem_filter.2 ⟨hc, hnumber⟩
      obtain ⟨final, hfinal⟩ : ∃ final,
          (Block.rowNumbers (startsIn cells g.start.row)).getLast? = some final :=
        ⟨_, List.getLast?_eq_some_getLast (List.ne_nil_of_mem hmem)⟩
      obtain ⟨hfinalmem, hfinalnumber⟩ := List.mem_filter.1 (List.mem_of_mem_getLast? hfinal)
      have hle := col_le_getLast? hsorted hmem hfinal
      -- a row number further left than the last one is forgotten
      have hge : ¬ c.position.col < final.position.col := by
        intro hlt
        obtain ⟨-, hstart, hrow⟩ := mem_startsIn_iff.1 hc
        exact hkept ⟨hstart, hnumber, final, by rwa [hrow], hfinalnumber, hlt⟩
      exact .inr ⟨final, hfinal, by omega⟩
    · exact .inl ⟨c, List.mem_filter.2 ⟨hc, by simpa using hnumber⟩, rfl⟩

/-! ## The cells that a sheet clears -/

theorem mem_blockClearings {b : Block} {row col : Nat} :
    .clearCell row col ∈ b.columns.map (fun col => Preparation.clearCell b.startRow col) ++
        [.clearCell b.endRow b.endCol] ↔
      b.startRow = row ∧ col ∈ b.columns ∨ b.endRow = row ∧ b.endCol = col := by
  simp only [List.mem_append, List.mem_map, List.mem_singleton, Preparation.clearCell.injEq]
  constructor
  · rintro (⟨_, hcol, hrow, rfl⟩ | ⟨hrow, hcol⟩)
    · exact .inl ⟨hrow, hcol⟩
    · exact .inr ⟨hrow.symm, hcol.symm⟩
  · rintro (⟨hrow, hcol⟩ | ⟨hrow, hcol⟩)
    · exact .inl ⟨col, hcol, hrow, rfl⟩
    · exact .inr ⟨hrow.symm, hcol.symm⟩

/-- Groups clear the cells of their rows that are not forgotten, and their ends. -/
theorem Matched.mem_clearings_iff {cells : List PlacedFormula}
    (hsorted : cells.Pairwise fun c d => c.position.le d.position) {groups : List OpenGroup}
    {lasts : List PlacedFormula} {blocks : List Block} (h : Matched settings groups lasts blocks)
    (hgather : ∀ g ∈ groups, g.Gathers cells) {row col : Nat} :
    (.clearCell row col ∈ blocks.flatMap fun b =>
        b.columns.map (fun col => Preparation.clearCell b.startRow col) ++
          [.clearCell b.endRow b.endCol]) ↔
      (∃ g ∈ groups, ∃ c ∈ startsIn cells g.start.row,
        ¬ Forgotten cells c ∧ c.position = ⟨row, col⟩) ∨
      ∃ last ∈ lasts, last.position = ⟨row, col⟩ := by
  induction h with
  | nil => simp
  | @cons g last ending groups lasts blocks _ _ _ _ ih =>
      obtain ⟨hg, hlater⟩ := List.forall_mem_cons.1 hgather
      have hstart : (g.block last ending).startRow = row ∧ col ∈ (g.block last ending).columns ↔
          ∃ c ∈ startsIn cells g.start.row, ¬ Forgotten cells c ∧ c.position = ⟨row, col⟩ := by
        rw [mem_columns_iff hsorted hg]
        constructor
        · rintro ⟨rfl, c, hc, hkept, rfl⟩
          exact ⟨c, hc, hkept, Coordinate.ext (mem_startsIn_iff.1 hc).2.2 rfl⟩
        · rintro ⟨c, hc, hkept, hposition⟩
          have hrow := (mem_startsIn_iff.1 hc).2.2
          rw [hposition] at hrow
          exact ⟨hrow.symm, c, hc, hkept, by rw [hposition]⟩
      have hend : (g.block last ending).endRow = row ∧ (g.block last ending).endCol = col ↔
          last.position = ⟨row, col⟩ := by
        rw [Coordinate.ext_iff]
        rfl
      rw [List.flatMap_cons, List.mem_append, mem_blockClearings, ih hlater, hstart, hend]
      simp only [List.exists_mem_cons_iff]
      exact or_or_or_comm

/-- A plan clears the cells that do something, except for forgotten row numbers. -/
theorem SheetPlan.mem_clearings_iff {index : Nat} {sheet : RawSheet} {plan : SheetPlan}
    (h : SheetPlan.ofRaw? settings index sheet = .ok plan) {row col : Nat} :
    .clearCell row col ∈ plan.clearings ↔ ∃ c ∈ sheet.formulas settings,
      ¬ Forgotten (sheet.formulas settings) c ∧ c.position = ⟨row, col⟩ := by
  obtain ⟨-, -, -, hflat, hmatched⟩ := SheetPlan.ofRaw?_eq_ok_iff.1 h
  obtain ⟨hstart, hgather⟩ := openings_gather settings (rowByRow_rows sheet)
  have hsorted := sheet.pairwise_formulas settings
  rw [← formulas_eq] at hstart hgather
  have hends : endings settings sheet.rows = (RowCells.ofPlaced (sheet.formulas settings)).ends := by
    rw [formulas_eq, ends_formulasIn]
  obtain ⟨cells, hcells⟩ : ∃ cells, cells = sheet.formulas settings := ⟨_, rfl⟩
  rw [← hcells] at hflat hstart hgather hsorted hends ⊢
  rw [SheetPlan.clearings, List.mem_append, hmatched.mem_clearings_iff hsorted hgather, hflat, hends]
  simp only [List.mem_map, Preparation.clearCell.injEq]
  constructor
  · rintro (⟨c, hc, hrow, hcol⟩ | ⟨g, hg, c, hc, hkept, hposition⟩ | ⟨c, hc, hposition⟩)
    · obtain ⟨hc, houtside⟩ := List.mem_filter.1 hc
      refine ⟨c, hc, fun hforgotten => ?_, Coordinate.ext hrow hcol⟩
      simp [isGroup_of_isGroupStart hforgotten.1] at houtside
    · exact ⟨c, (mem_startsIn_iff.1 hc).1, hkept, hposition⟩
    · obtain ⟨hc, hend⟩ := List.mem_filter.1 hc
      refine ⟨c, hc, fun hforgotten => ?_, hposition⟩
      simp [hforgotten.1] at hend
  · rintro ⟨c, hc, hkept, hposition⟩
    by_cases hstarts : c.formula.body.isGroupStart = true
    · have hrow : c.position.row ∈ startRows cells := by
        rw [startRows, List.mem_dedup]
        exact List.mem_map_of_mem (List.mem_filter.2 ⟨hc, hstarts⟩)
      rw [← hstart] at hrow
      obtain ⟨g, hg, hgrow⟩ := List.mem_map.1 hrow
      exact .inr (.inl ⟨g, hg, c, mem_startsIn_iff.2 ⟨hc, hstarts, hgrow.symm⟩, hkept, hposition⟩)
    · by_cases hgroup : c.formula.body.isGroup = true
      · exact .inr (.inr ⟨c, List.mem_filter.2 ⟨hc, by simp [hgroup, hstarts]⟩, hposition⟩)
      · refine .inl ⟨c, List.mem_filter.2 ⟨hc, by simp [hgroup]⟩, ?_⟩
        rw [hposition]
        exact ⟨rfl, rfl⟩

section Fill

variable {σ ν : Type} [Scope σ ν]

/--
An output sheet clears just the cells of its template that do something, except for forgotten row numbers,
whatever the scope. If it fails, then for want of rows.
-/
theorem SheetPlan.fill_clears {index : Nat} {raw : RawSheet} {plan : SheetPlan}
    (h : SheetPlan.ofRaw? settings index raw = .ok plan) (multiple : Bool) (s : σ) :
    let cells := raw.formulas settings
    (∀ e, (plan.fill multiple s).1 = .error e → e = .structural .insertedRowsOverflow) ∧
      ∀ sheet, (plan.fill multiple s).1 = .ok sheet → ∀ row col,
        .clearCell row col ∈ sheet.preparations ↔
          ∃ c ∈ cells, ¬ Forgotten cells c ∧ c.position = ⟨row, col⟩ := by
  intro cells
  have hdescending := SheetPlan.descending_of_ofRaw? h
  refine ⟨fun e he => ((SheetPlan.fill_eq_error_iff hdescending multiple s).1 he).2, ?_⟩
  intro sheet hsheet row col
  have htotal : ((expandGroups plan.groups s).1.map KeptGroup.surplus).sum ≤ RowShifts.maxTotal := by
    by_contra htoo
    have herror := (SheetPlan.fill_eq_error_iff hdescending multiple s).2 ⟨Nat.lt_of_not_le htoo, rfl⟩
    rw [hsheet] at herror
    cases herror
  obtain ⟨sheet', hfill, hpreparations, -⟩ := SheetPlan.fill_eq hdescending multiple s htotal
  obtain rfl : sheet = sheet' := Except.ok.inj (hsheet.symm.trans hfill)
  rw [← SheetPlan.mem_clearings_iff h, hpreparations, List.mem_append]
  refine ⟨fun hclear => hclear.resolve_right fun hinsertion => ?_, .inl⟩
  exact absurd (isInsertion_insertions hinsertion) nofun

end Fill

/-- Four cells of a sheet do something, and are cleared. -/
theorem SheetPlan.fill_clears_staff :
    let raw : RawSheet :=
      { name := "Staff"
        cells := [⟨⟨0, 0⟩, "$firm.title$"⟩, ⟨⟨0, 1⟩, "since 1901"⟩, ⟨⟨1, 1⟩, "#no#"⟩,
          ⟨⟨1, 2⟩, "#staff.name#"⟩, ⟨⟨3, 1⟩, "#grow#"⟩] }
    let title : Body := ⟨"$firm.title$", [.slot ⟨.plain, "firm.title", ⟨"firm", "title"⟩, []⟩]⟩
    let person : Body := ⟨"#staff.name#", [.slot ⟨.group, "staff.name", ⟨"staff", "name"⟩, []⟩]⟩
    let plan : SheetPlan :=
      { index := 0, name := ⟨"Staff", [.literal "Staff"]⟩, flat := [⟨⟨0, 0⟩, ⟨title, []⟩⟩]
        groups := [⟨1, 3, 1, .grow, some 1, ⟨[⟨"staff", [⟨⟨1, 2⟩, ⟨person, []⟩⟩]⟩]⟩⟩] }
    let staff (names : List String) := Json.Value.object [("staff",
      .array (names.map fun name => .object [("name", .string name)]))]
    SheetPlan.ofRaw? .default 0 raw = .ok plan ∧
      ∃ sheet, (plan.fill false (Json.Document.ofValue (staff ["Ada", "Ben", "Cy"]))).1 = .ok sheet ∧
        ∀ row col, .clearCell row col ∈ sheet.preparations ↔
          (row, col) ∈ [(0, 0), (1, 1), (1, 2), (3, 1)] := by
  intro raw title person plan staff
  have hplan : SheetPlan.ofRaw? .default 0 raw = .ok plan := by decide +kernel
  have hpositions : ((raw.formulas .default).filter fun c =>
      decide (¬ Forgotten (raw.formulas .default) c)).map (fun c => (c.position.row, c.position.col)) =
        [(0, 0), (1, 1), (1, 2), (3, 1)] := by decide +kernel
  obtain ⟨-, hclears⟩ :=
    SheetPlan.fill_clears hplan false (Json.Document.ofValue (staff ["Ada", "Ben", "Cy"]))
  have hok : ((plan.fill false (Json.Document.ofValue (staff ["Ada", "Ben", "Cy"]))).1).isOk = true := by
    simp only [plan, SheetPlan.fill, SheetPlan.fillWith, SheetPlan.draft,
      Draft.addBlocks, Draft.addBlock_expand]
    decide +kernel
  cases hfill : (plan.fill false (Json.Document.ofValue (staff ["Ada", "Ben", "Cy"]))).1 with
  | error e =>
      rw [hfill] at hok
      cases hok
  | ok sheet =>
      refine ⟨hplan, sheet, rfl, fun row col => ?_⟩
      rw [hclears sheet hfill, ← hpositions]
      simp only [List.mem_map, List.mem_filter, decide_eq_true_eq, Prod.mk.injEq, Coordinate.ext_iff,
        and_assoc]

/-- Two row numbers start a group, and the first of them is not cleared. -/
theorem SheetPlan.fill_leaves_rowNumber :
    let raw : RawSheet :=
      { name := "S", cells := [⟨⟨0, 0⟩, "#no#"⟩, ⟨⟨0, 1⟩, "#no#"⟩, ⟨⟨1, 0⟩, "#end#"⟩] }
    let plan : SheetPlan :=
      { index := 0, name := ⟨"S", [.literal "S"]⟩, flat := []
        groups := [⟨0, 1, 0, .fixed, some 1, ⟨[]⟩⟩] }
    SheetPlan.ofRaw? .default 0 raw = .ok plan ∧
      ∃ sheet, (plan.fill false (Json.Document.ofValue (.object []))).1 = .ok sheet ∧
        ¬ ∀ row col, .clearCell row col ∈ sheet.preparations ↔
          ∃ c ∈ raw.formulas .default, c.position = ⟨row, col⟩ := by
  intro raw plan
  refine ⟨by decide +kernel,
    ⟨"S", 0, false, [.clearCell 0 1, .clearCell 1 0], []⟩, ?_, fun hclears => ?_⟩
  · simp only [plan, SheetPlan.fill, SheetPlan.fillWith, SheetPlan.draft,
      Draft.addBlocks, Draft.addBlock_expand]
    decide +kernel
  · have hmem : ∃ c ∈ raw.formulas .default, c.position = ⟨0, 0⟩ := by decide +kernel
    have hnot : Preparation.clearCell 0 0 ∉ [.clearCell 0 1, .clearCell 1 0] := by decide
    exact hnot ((hclears 0 0).2 hmem)

end Template

end SheetFill

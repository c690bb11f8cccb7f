import SheetFill.Proofs.Cell.Faults
import SheetFill.Proofs.Group.Nesting
import SheetFill.Template.Reading

/-!
# Matching groups with their ends

A sheet is read row by row, with at most one group open at a time. Said without that state: the groups
that the rows open and the ends that the rows hold go in pairs, in order, each end closes its group, and
no group starts above the end of the one before.

The induction is on the rows that are still to be read. What a state goes on to do is said by `Completes`:
the group that is open, if any, and the groups to come are matched by the ends to come.

## Main definitions

* `RawCell.formula?`, `RawCell.Readable` — what reading a cell yields, and when it succeeds.
* `Closes`, `Matched` — ends that close groups, one by one and in a list.
* `openings`, `endings`, `flats` — the groups, ends and other cells in rows.

## Main results

* `completes_addRow_iff` — one row.
* `completes_foldlM_iff` — rows from the top down.
-/

namespace SheetFill.Template

open Cell SheetFill.Group Text

variable {settings : Settings} {name : String}

/-! ## Cells that can be read -/

/-- The formula of a cell, unless the cell is blank or inert, or cannot be read. -/
def RawCell.formula? (settings : Settings) (c : RawCell) : Option PlacedFormula :=
  if allBlank c.text.toList then none
  else match Formula.parse c.text settings.separator with
    | .error _ => none
    | .ok formula => if formula.isInert then none else some ⟨c.position, formula⟩

/-- Are all filters of a formula known, where that is restricted? -/
def FiltersKnown (settings : Settings) (formula : Formula) : Prop :=
  ∀ known ∈ settings.knownFilters, ∀ filter ∈ formula.filters, filter.name ∈ known

/-- A blank cell, or one whose text can be read and whose filters are known. -/
def RawCell.Readable (settings : Settings) (c : RawCell) : Prop :=
  allBlank c.text.toList = true ∨
    ∃ formula, Formula.parse c.text settings.separator = .ok formula ∧ FiltersKnown settings formula

theorem filtersKnown_iff {formula : Formula} :
    FiltersKnown settings formula ↔
      (settings.knownFilters.bind fun known =>
        formula.filters.find? fun f => !known.contains f.name) = none := by
  cases hknown : settings.knownFilters with
  | none => simp [FiltersKnown, hknown]
  | some known => simp [FiltersKnown, hknown]

/-- Reading a cell yields its formula, and fails if there is anything wrong with it. -/
theorem readCell_eq_ok_iff {c : RawCell} {r : Option PlacedFormula} :
    readCell settings name c = .ok r ↔ c.Readable settings ∧ c.formula? settings = r := by
  by_cases hblank : allBlank c.text.toList = true
  · simp [readCell, RawCell.Readable, RawCell.formula?, hblank]
  · rw [readCell, if_neg hblank, RawCell.Readable, RawCell.formula?, if_neg hblank]
    cases hparse : Formula.parse c.text settings.separator with
    | error e => simp [hblank]
    | ok formula =>
        simp only [hblank, Except.ok.injEq, exists_eq_left', filtersKnown_iff]
        cases settings.knownFilters.bind fun known =>
            formula.filters.find? fun f => !known.contains f.name with
        | none => simp
        | some unknown => simp

theorem isOk_readCell_iff {c : RawCell} :
    (readCell settings name c).isOk = true ↔ c.Readable settings := by
  cases h : readCell settings name c with
  | error e =>
      have hnot : ¬ c.Readable settings := fun hread => by
        have hok : readCell settings name c = .ok (c.formula? settings) :=
          readCell_eq_ok_iff.2 ⟨hread, rfl⟩
        rw [h] at hok
        cases hok
      simp [Except.isOk, Except.toBool, hnot]
  | ok r => simp [Except.isOk, Except.toBool, (readCell_eq_ok_iff.1 h).1]

instance (settings : Settings) (c : RawCell) : Decidable (c.Readable settings) :=
  decidable_of_iff ((readCell settings "" c).isOk = true) isOk_readCell_iff

theorem mapM_readCell_eq_ok_iff {row : List RawCell} {rs : List (Option PlacedFormula)} :
    row.mapM (readCell settings name) = .ok rs ↔
      (∀ c ∈ row, c.Readable settings) ∧ row.map (RawCell.formula? settings) = rs := by
  induction row generalizing rs with
  | nil => simp [pure, Except.pure]
  | cons c row ih =>
      rw [List.mapM_cons]
      simp only [bind_eq_ok_iff, readCell_eq_ok_iff, ih, List.forall_mem_cons, List.map_cons, pure,
        Except.pure, Except.ok.injEq]
      constructor
      · rintro ⟨_, ⟨hc, rfl⟩, _, ⟨hrow, rfl⟩, rfl⟩
        exact ⟨⟨hc, hrow⟩, rfl⟩
      · rintro ⟨⟨hc, hrow⟩, rfl⟩
        exact ⟨_, ⟨hc, rfl⟩, _, ⟨hrow, rfl⟩, rfl⟩

/-! ## Rows -/

/-- The cells of a row that can be read, by what they do. -/
def cellsOf (settings : Settings) (row : List RawCell) : RowCells :=
  RowCells.ofPlaced (row.filterMap (RawCell.formula? settings))

theorem addRow_eq_ok_iff {row : List RawCell} {p q : Progress} :
    p.addRow settings name row = .ok q ↔ (∀ c ∈ row, c.Readable settings) ∧
      ∃ p', (cellsOf settings row).ends.foldlM (Progress.closeGroup settings name)
          { p with flat := p.flat ++ (cellsOf settings row).flat } = .ok p' ∧
        p'.openGroup name (cellsOf settings row).starts = .ok q := by
  have hmap : (row.map (RawCell.formula? settings)).filterMap id =
      row.filterMap (RawCell.formula? settings) := by
    rw [List.filterMap_map]
    rfl
  simp only [Progress.addRow, readCells, bind_eq_ok_iff, mapM_readCell_eq_ok_iff, pure, Except.pure,
    Except.ok.injEq]
  constructor
  · rintro ⟨_, ⟨_, ⟨hrow, rfl⟩, rfl⟩, p', hp', hq⟩
    rw [hmap] at hp' hq
    exact ⟨hrow, p', hp', hq⟩
  · rintro ⟨hrow, p', hp', hq⟩
    refine ⟨_, ⟨_, ⟨hrow, rfl⟩, rfl⟩, p', ?_, ?_⟩
    · rw [hmap]
      exact hp'
    · rw [hmap]
      exact hq

/-! ## Groups and their ends -/

/-- The block of a group and its end. -/
def OpenGroup.block (g : OpenGroup) (last : PlacedFormula) (ending : Ending) : Block :=
  Block.ofCells g.start.row last.position.row last.position.col ending g.cells

/--
An end closes a group: it lies below the group's first row, in the column of the leftmost cell of that
row, and the group is not too deep.
-/
structure Closes (settings : Settings) (g : OpenGroup) (last : PlacedFormula) : Prop where
  below : g.start.row < last.position.row
  column : g.start.col = last.position.col
  shallow : ((iterating g.cells).map (·.formula.body.maxLocation)).dedup.length ≤ settings.maxDepth

/-- Every group is closed by its end, at or above the row in which the next one starts. -/
inductive Matched (settings : Settings) : List OpenGroup → List PlacedFormula → List Block → Prop
  | nil : Matched settings [] [] []
  | cons {g : OpenGroup} {last : PlacedFormula} {ending : Ending} {groups : List OpenGroup}
      {lasts : List PlacedFormula} {blocks : List Block} (closes : Closes settings g last)
      (hending : last.formula.body.ending? = some ending)
      (apart : ∀ next ∈ groups.head?, last.position.row ≤ next.start.row)
      (rest : Matched settings groups lasts blocks) :
      Matched settings (g :: groups) (last :: lasts) (g.block last ending :: blocks)

theorem closeGroup_eq_ok_iff {last : PlacedFormula} {p q : Progress} :
    p.closeGroup settings name last = .ok q ↔ ∃ g ending, p.pending = some g ∧
      last.formula.body.ending? = some ending ∧ g.start.col = last.position.col ∧
      ((iterating g.cells).map (·.formula.body.maxLocation)).dedup.length ≤ settings.maxDepth ∧
      q = { p with groups := p.groups ++ [g.block last ending], pending := none } := by
  unfold Progress.closeGroup
  cases hending : last.formula.body.ending? with
  | none => simp
  | some ending =>
      cases hpending : p.pending with
      | none => simp
      | some g =>
          have hdepth := Block.depth_ofCells g.start.row last.position.row last.position.col ending g.cells
          by_cases hcol : g.start.col = last.position.col
          · by_cases hdeep : settings.maxDepth <
                (Block.ofCells g.start.row last.position.row last.position.col ending g.cells).depth
            · have : ¬ ((iterating g.cells).map (·.formula.body.maxLocation)).dedup.length ≤
                  settings.maxDepth := by omega
              simp [hcol, hdeep, this]
            · have : ((iterating g.cells).map (·.formula.body.maxLocation)).dedup.length ≤
                  settings.maxDepth := by omega
              simp [hcol, hdeep, this, OpenGroup.block, eq_comm]
          · simp [hcol]

/-- The group that the starting cells of a row open, if there are any. -/
def OpenGroup.ofStarts? (starts : List PlacedFormula) : Option OpenGroup :=
  starts.head?.map fun first => ⟨first.position, starts⟩

theorem openGroup_eq_ok_iff {starts : List PlacedFormula} {p q : Progress} :
    p.openGroup name starts = .ok q ↔
      (starts = [] ∧ q = p) ∨
        (p.pending = none ∧
          ∃ g, OpenGroup.ofStarts? starts = some g ∧ q = { p with pending := some g }) := by
  unfold Progress.openGroup OpenGroup.ofStarts?
  cases starts with
  | nil => simp [eq_comm]
  | cons first starts =>
      cases hpending : p.pending with
      | none => simp [eq_comm]
      | some g => simp

/-! ## Reading from a state on -/

/--
Reading goes on from `p` to `q` with no group left open: the groups that `p` has open and the groups to
come are matched by the ends to come.
-/
structure Completes (settings : Settings) (p : Progress) (groups : List OpenGroup)
    (lasts flat : List PlacedFormula) (q : Progress) : Prop where
  pending : q.pending = none
  flat : q.flat = p.flat ++ flat
  groups : ∃ blocks, q.groups = p.groups ++ blocks ∧
    Matched settings (p.pending.toList ++ groups) lasts blocks

variable {groups : List OpenGroup} {lasts flat : List PlacedFormula}

/-- Cells outside groups wait for nothing. -/
theorem completes_flat_iff {p q : Progress} {here : List PlacedFormula} :
    Completes settings { p with flat := p.flat ++ here } groups lasts flat q ↔
      Completes settings p groups lasts (here ++ flat) q := by
  constructor
  · rintro ⟨hq, hflat, hgroups⟩
    exact ⟨hq, by simpa using hflat, hgroups⟩
  · rintro ⟨hq, hflat, hgroups⟩
    exact ⟨hq, by simpa using hflat, hgroups⟩

/-- An end is read: it must close the group that is open. -/
theorem completes_closeGroup_iff (name : String) {last : PlacedFormula} {p q : Progress}
    (hpending : ∀ g ∈ p.pending, g.start.row < last.position.row)
    (hgroups : ∀ g ∈ groups, last.position.row ≤ g.start.row) :
    (∃ p', p.closeGroup settings name last = .ok p' ∧ Completes settings p' groups lasts flat q) ↔
      Completes settings p groups (last :: lasts) flat q := by
  simp only [closeGroup_eq_ok_iff]
  constructor
  · rintro ⟨_, ⟨g, ending, hg, hending, hcol, hshallow, rfl⟩, hq, hflat, blocks, hblocks, hmatched⟩
    refine ⟨hq, hflat, g.block last ending :: blocks, by simpa using hblocks, ?_⟩
    rw [hg]
    refine .cons ⟨hpending g hg, hcol, hshallow⟩ hending (fun next hnext => ?_) hmatched
    exact hgroups next (List.mem_of_mem_head? hnext)
  · rintro ⟨hq, hflat, blocks, hblocks, hmatched⟩
    cases hg : p.pending with
    | none =>
        -- the next group starts too late for this end
        rw [hg] at hmatched
        cases hmatched with
        | cons closes _ _ _ =>
            have := closes.below
            have := hgroups _ List.mem_cons_self
            omega
    | some g =>
        rw [hg] at hmatched
        cases hmatched with
        | cons closes hending _ rest =>
            refine ⟨_, ⟨g, _, rfl, hending, closes.column, closes.shallow, rfl⟩, ?_⟩
            refine ⟨hq, hflat, _, ?_, rest⟩
            rw [hblocks, List.append_assoc]
            rfl

/-- The ends of a row are read: there is none, or one that closes the group that is open. -/
theorem completes_ends_iff (name : String) {ends : List PlacedFormula} {row : Nat} {p q : Progress}
    (hends : ∀ last ∈ ends, last.position.row = row)
    (hpending : ∀ g ∈ p.pending, g.start.row < row) (hgroups : ∀ g ∈ groups, row ≤ g.start.row) :
    (∃ p', ends.foldlM (Progress.closeGroup settings name) p = .ok p' ∧
        Completes settings p' groups lasts flat q) ↔
      Completes settings p groups (ends ++ lasts) flat q := by
  induction ends generalizing p with
  | nil => simp [pure, Except.pure]
  | cons last ends ih =>
      obtain ⟨hlast, hends⟩ := List.forall_mem_cons.1 hends
      subst hlast
      rw [List.cons_append, ← completes_closeGroup_iff name hpending hgroups]
      simp only [List.foldlM_cons, bind_eq_ok_iff]
      constructor
      · rintro ⟨p', ⟨p₁, hp₁, hp'⟩, hq⟩
        refine ⟨p₁, hp₁, (ih hends ?_).1 ⟨p', hp', hq⟩⟩
        obtain ⟨g, ending, -, -, -, -, rfl⟩ := closeGroup_eq_ok_iff.1 hp₁
        simp
      · rintro ⟨p₁, hp₁, hq⟩
        have hp₁' : ∀ g ∈ p₁.pending, g.start.row < last.position.row := by
          obtain ⟨g, ending, -, -, -, -, rfl⟩ := closeGroup_eq_ok_iff.1 hp₁
          simp
        obtain ⟨p', hp', hq⟩ := (ih hends hp₁').2 hq
        exact ⟨p', ⟨p₁, hp₁, hp'⟩, hq⟩

/-- The starting cells of a row are read: a group is opened only if none is open. -/
theorem completes_openGroup_iff (name : String) {starts : List PlacedFormula} {row : Nat}
    {p q : Progress}
    (hstarts : ∀ c ∈ starts, c.position.row = row)
    (hlasts : ∀ last ∈ lasts, row < last.position.row) :
    (∃ p', p.openGroup name starts = .ok p' ∧ Completes settings p' groups lasts flat q) ↔
      Completes settings p ((OpenGroup.ofStarts? starts).toList ++ groups) lasts flat q := by
  simp only [openGroup_eq_ok_iff]
  constructor
  · rintro ⟨p', ⟨rfl, rfl⟩ | ⟨hp, g, hg, rfl⟩, hq⟩
    · exact hq
    · obtain ⟨hq, hflat, blocks, hblocks, hmatched⟩ := hq
      refine ⟨hq, hflat, blocks, hblocks, ?_⟩
      rw [hp, hg]
      exact hmatched
  · rintro ⟨hq, hflat, blocks, hblocks, hmatched⟩
    cases starts with
    | nil => exact ⟨p, .inl ⟨rfl, rfl⟩, hq, hflat, blocks, hblocks, hmatched⟩
    | cons first starts =>
        cases hp : p.pending with
        | none =>
            rw [hp] at hmatched
            exact ⟨_, .inr ⟨rfl, _, rfl, rfl⟩, hq, hflat, blocks, hblocks, hmatched⟩
        | some g =>
            -- the group that is open would have to end above the row that starts another one
            rw [hp] at hmatched
            cases hmatched with
            | cons closes _ apart _ =>
                have := apart _ rfl
                have := hstarts first List.mem_cons_self
                have := hlasts _ List.mem_cons_self
                dsimp only at *
                omega

/-! ## Reading row by row -/

theorem position_of_formula? {c : RawCell} {f : PlacedFormula} (h : c.formula? settings = some f) :
    f.position = c.position := by
  unfold RawCell.formula? at h
  split at h
  · cases h
  · split at h
    · cases h
    · split at h
      · cases h
      · cases h
        rfl

theorem row_of_mem_formulas {row : List RawCell} {k : Nat} (hrow : ∀ c ∈ row, c.position.row = k)
    {f : PlacedFormula} (hf : f ∈ row.filterMap (RawCell.formula? settings)) : f.position.row = k := by
  obtain ⟨c, hc, hcf⟩ := List.mem_filterMap.1 hf
  rw [position_of_formula? hcf]
  exact hrow c hc

/-- A row is read. -/
theorem completes_addRow_iff (name : String) {row : List RawCell} {k : Nat} {p q : Progress}
    (hread : ∀ c ∈ row, c.Readable settings) (hrow : ∀ c ∈ row, c.position.row = k)
    (hpending : ∀ g ∈ p.pending, g.start.row < k) (hgroups : ∀ g ∈ groups, k < g.start.row)
    (hlasts : ∀ last ∈ lasts, k < last.position.row) :
    (∃ p', p.addRow settings name row = .ok p' ∧ Completes settings p' groups lasts flat q) ↔
      Completes settings p ((OpenGroup.ofStarts? (cellsOf settings row).starts).toList ++ groups)
        ((cellsOf settings row).ends ++ lasts) ((cellsOf settings row).flat ++ flat) q := by
  have hstarts : ∀ c ∈ (cellsOf settings row).starts, c.position.row = k :=
    fun c hc => row_of_mem_formulas hrow (List.mem_of_mem_filter hc)
  have hends : ∀ c ∈ (cellsOf settings row).ends, c.position.row = k :=
    fun c hc => row_of_mem_formulas hrow (List.mem_of_mem_filter hc)
  have hopened : ∀ g ∈ (OpenGroup.ofStarts? (cellsOf settings row).starts).toList ++ groups,
      k ≤ g.start.row := by
    intro g hg
    rcases List.mem_append.1 hg with hg | hg
    · simp only [OpenGroup.ofStarts?, Option.mem_toList, Option.map_eq_some_iff] at hg
      obtain ⟨first, hfirst, rfl⟩ := hg
      exact Nat.le_of_eq (hstarts first (List.mem_of_mem_head? hfirst)).symm
    · exact Nat.le_of_lt (hgroups g hg)
  rw [← completes_flat_iff, ← completes_ends_iff name hends (by exact hpending) hopened]
  simp only [addRow_eq_ok_iff, ← completes_openGroup_iff name hstarts hlasts]
  constructor
  · rintro ⟨p₂, ⟨-, p₁, hp₁, hp₂⟩, hq⟩
    exact ⟨p₁, hp₁, p₂, hp₂, hq⟩
  · rintro ⟨p₁, hp₁, p₂, hp₂, hq⟩
    exact ⟨p₂, ⟨hread, p₁, hp₁, hp₂⟩, hq⟩

/--
Rows of cells from the top down: none is empty, and the cells of a row have its number and stand from left
to right.
-/
structure RowByRow (rows : List (List RawCell)) : Prop where
  ne_nil : ∀ row ∈ rows, row ≠ []
  level : ∀ row ∈ rows, ∀ c ∈ row, ∀ d ∈ row, c.position.row = d.position.row
  left_to_right : ∀ row ∈ rows, row.Pairwise fun c d => c.position.col ≤ d.position.col
  descending :
    rows.Pairwise fun upper lower => ∀ c ∈ upper, ∀ d ∈ lower, c.position.row < d.position.row

/-- The groups that rows open. -/
def openings (settings : Settings) (rows : List (List RawCell)) : List OpenGroup :=
  rows.filterMap fun row => OpenGroup.ofStarts? (cellsOf settings row).starts

/-- The ends in rows. -/
def endings (settings : Settings) (rows : List (List RawCell)) : List PlacedFormula :=
  rows.flatMap fun row => (cellsOf settings row).ends

/-- The cells outside groups in rows. -/
def flats (settings : Settings) (rows : List (List RawCell)) : List PlacedFormula :=
  rows.flatMap fun row => (cellsOf settings row).flat

theorem mem_of_mem_endings {rows : List (List RawCell)} {last : PlacedFormula}
    (h : last ∈ endings settings rows) :
    ∃ row ∈ rows, ∃ c ∈ row, c.position = last.position := by
  obtain ⟨row, hrow, hlast⟩ := List.mem_flatMap.1 h
  obtain ⟨c, hc, hcf⟩ := List.mem_filterMap.1 (List.mem_of_mem_filter hlast)
  exact ⟨row, hrow, c, hc, (position_of_formula? hcf).symm⟩

/-- A group starts at one of the cells of the row that opens it. -/
theorem mem_of_ofStarts? {row : List RawCell} {g : OpenGroup}
    (h : OpenGroup.ofStarts? (cellsOf settings row).starts = some g) :
    ∃ c ∈ row, c.position = g.start := by
  obtain ⟨first, hfirst, rfl⟩ := Option.map_eq_some_iff.1 h
  have hmem : first ∈ row.filterMap (RawCell.formula? settings) :=
    List.mem_of_mem_filter (List.mem_of_mem_head? hfirst)
  obtain ⟨c, hc, hcf⟩ := List.mem_filterMap.1 hmem
  exact ⟨c, hc, (position_of_formula? hcf).symm⟩

theorem mem_of_mem_openings {rows : List (List RawCell)} {g : OpenGroup}
    (h : g ∈ openings settings rows) : ∃ row ∈ rows, ∃ c ∈ row, c.position = g.start := by
  obtain ⟨row, hrow, hg⟩ := List.mem_filterMap.1 h
  exact ⟨row, hrow, mem_of_ofStarts? hg⟩

theorem openings_cons (row : List RawCell) (rows : List (List RawCell)) :
    openings settings (row :: rows) =
      (OpenGroup.ofStarts? (cellsOf settings row).starts).toList ++ openings settings rows := by
  cases h : OpenGroup.ofStarts? (cellsOf settings row).starts with
  | none => simp [openings, h]
  | some g => simp [openings, h]

theorem pending_of_foldlM_closeGroup {ends : List PlacedFormula} {p q : Progress}
    (h : ends.foldlM (Progress.closeGroup settings name) p = .ok q) {g : OpenGroup}
    (hg : g ∈ q.pending) : g ∈ p.pending := by
  induction ends generalizing p with
  | nil =>
      cases h
      exact hg
  | cons last ends ih =>
      obtain ⟨p₁, hp₁, hq⟩ := bind_eq_ok_iff.1 (List.foldlM_cons.symm.trans h)
      obtain ⟨g', ending, -, -, -, -, rfl⟩ := closeGroup_eq_ok_iff.1 hp₁
      exact absurd (ih hq) (by simp)

/-- A group that is open after a row was open before it, or starts in it. -/
theorem pending_of_addRow {row : List RawCell} {p q : Progress}
    (h : p.addRow settings name row = .ok q) {g : OpenGroup} (hg : g ∈ q.pending) :
    g ∈ p.pending ∨ OpenGroup.ofStarts? (cellsOf settings row).starts = some g := by
  obtain ⟨-, p', hp', hq⟩ := addRow_eq_ok_iff.1 h
  rcases openGroup_eq_ok_iff.1 hq with ⟨-, rfl⟩ | ⟨-, g', hg', rfl⟩
  · exact .inl (pending_of_foldlM_closeGroup hp' hg)
  · cases hg
    exact .inr hg'

theorem RowByRow.of_cons {row : List RawCell} {rows : List (List RawCell)}
    (h : RowByRow (row :: rows)) : RowByRow rows where
  ne_nil r hr := h.ne_nil r (List.mem_cons_of_mem _ hr)
  level r hr := h.level r (List.mem_cons_of_mem _ hr)
  left_to_right r hr := h.left_to_right r (List.mem_cons_of_mem _ hr)
  descending := (List.pairwise_cons.1 h.descending).2

section Below

variable {row : List RawCell} {rows : List (List RawCell)} (hrows : RowByRow (row :: rows))
  {c : RawCell} (hc : c ∈ row)

include hrows hc

/-- The groups that later rows open start below a row. -/
theorem RowByRow.lt_openings : ∀ g ∈ openings settings rows, c.position.row < g.start.row := by
  intro g hg
  obtain ⟨lower, hlower, d, hd, hdg⟩ := mem_of_mem_openings hg
  rw [← hdg]
  exact (List.pairwise_cons.1 hrows.descending).1 lower hlower c hc d hd

/-- The ends in later rows lie below a row. -/
theorem RowByRow.lt_endings :
    ∀ last ∈ endings settings rows, c.position.row < last.position.row := by
  intro last hlast
  obtain ⟨lower, hlower, d, hd, hdl⟩ := mem_of_mem_endings hlast
  rw [← hdl]
  exact (List.pairwise_cons.1 hrows.descending).1 lower hlower c hc d hd

end Below

/-- A group that is open after a row starts above the rows that are left. -/
theorem RowByRow.pending_lt {row : List RawCell} {rows : List (List RawCell)}
    (hrows : RowByRow (row :: rows)) {p q : Progress}
    (hpending : ∀ g ∈ p.pending, ∀ r ∈ row :: rows, ∀ c ∈ r, g.start.row < c.position.row)
    (h : p.addRow settings name row = .ok q) :
    ∀ g ∈ q.pending, ∀ lower ∈ rows, ∀ c ∈ lower, g.start.row < c.position.row := by
  intro g hg lower hlower c hc
  rcases pending_of_addRow h hg with hg | hg
  · exact hpending g hg lower (List.mem_cons_of_mem _ hlower) c hc
  · obtain ⟨d, hd, hdg⟩ := mem_of_ofStarts? hg
    rw [← hdg]
    exact (List.pairwise_cons.1 hrows.descending).1 lower hlower d hd c hc

/-- With nothing to come, reading is complete if no group is open. -/
theorem completes_nil_iff {p q : Progress} :
    Completes settings p [] [] [] q ↔ p = q ∧ q.pending = none := by
  constructor
  · rintro ⟨hq, hflat, blocks, hblocks, hmatched⟩
    cases hp : p.pending with
    | some g =>
        rw [hp] at hmatched
        cases hmatched
    | none =>
        rw [hp] at hmatched
        cases hmatched
        refine ⟨?_, hq⟩
        rw [List.append_nil] at hflat hblocks
        cases p
        cases q
        simp_all
  · rintro ⟨rfl, hp⟩
    refine ⟨hp, (List.append_nil _).symm, [], (List.append_nil _).symm, ?_⟩
    rw [hp]
    exact .nil

/-- All rows are read. -/
theorem completes_foldlM_iff (settings : Settings) (name : String) {rows : List (List RawCell)}
    (hrows : RowByRow rows) {p q : Progress}
    (hpending : ∀ g ∈ p.pending, ∀ row ∈ rows, ∀ c ∈ row, g.start.row < c.position.row) :
    (rows.foldlM (Progress.addRow settings name) p = .ok q ∧ q.pending = none) ↔
      (∀ row ∈ rows, ∀ c ∈ row, c.Readable settings) ∧
        Completes settings p (openings settings rows) (endings settings rows) (flats settings rows) q := by
  induction rows generalizing p with
  | nil =>
      have hnil : Completes settings p (openings settings []) (endings settings [])
          (flats settings []) q ↔ p = q ∧ q.pending = none := completes_nil_iff
      rw [hnil]
      simp [pure, Except.pure]
  | cons row rows ih =>
      -- any cell of the row stands for the row
      obtain ⟨c₀, hc₀⟩ := List.exists_mem_of_ne_nil row (hrows.ne_nil row List.mem_cons_self)
      have hrow : ∀ c ∈ row, c.position.row = c₀.position.row :=
        fun c hc => hrows.level row List.mem_cons_self c hc c₀ hc₀
      have hopen : ∀ g ∈ p.pending, g.start.row < c₀.position.row :=
        fun g hg => hpending g hg row List.mem_cons_self c₀ hc₀
      have hgroups : ∀ g ∈ openings settings rows, c₀.position.row < g.start.row :=
        hrows.lt_openings hc₀
      have hlasts : ∀ last ∈ endings settings rows, c₀.position.row < last.position.row :=
        hrows.lt_endings hc₀
      rw [List.foldlM_cons, bind_eq_ok_iff, openings_cons]
      constructor
      · rintro ⟨⟨p', hp', hrest⟩, hq⟩
        have hread := (addRow_eq_ok_iff.1 hp').1
        have hbelow := hrows.pending_lt hpending hp'
        obtain ⟨hreads, hcompletes⟩ := (ih hrows.of_cons hbelow).1 ⟨hrest, hq⟩
        refine ⟨List.forall_mem_cons.2 ⟨hread, hreads⟩, ?_⟩
        exact (completes_addRow_iff name hread hrow hopen hgroups hlasts).1 ⟨p', hp', hcompletes⟩
      · rintro ⟨hreads, hcompletes⟩
        obtain ⟨hread, hreads⟩ := List.forall_mem_cons.1 hreads
        obtain ⟨p', hp', hcompletes⟩ :=
          (completes_addRow_iff name hread hrow hopen hgroups hlasts).2 hcompletes
        have hbelow := hrows.pending_lt hpending hp'
        obtain ⟨hrest, hq⟩ := (ih hrows.of_cons hbelow).2 ⟨hreads, hcompletes⟩
        exact ⟨⟨p', hp', hrest⟩, hq⟩

end SheetFill.Template

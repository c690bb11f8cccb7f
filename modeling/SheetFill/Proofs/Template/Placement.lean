import SheetFill.Json.Document
import SheetFill.Proofs.Output.RowShifts
import SheetFill.Proofs.Template.GroupWrites
import SheetFill.Proofs.Template.WellMatched

/-!
# Where the rows of an output sheet go

An output sheet says twice where its rows are: its preparations insert rows into the template sheet, one
after the other, and its cell writes name rows of the sheet that comes out. The first is found group by
group with the shift known at that time, the second for cells outside groups at the very end. The two
agree, because the groups of a sheet follow one another from the top down.

## Main definitions

* `insertedAbove` — the rows inserted for the groups that end at or above a row of the template.
* `Layout` — groups and the places to which they move the rows of the template.
* `insertions`, `groupWrites`, `flatWrites` — what a sheet inserts and writes, by where the first rows of
  its groups and the rows of its other cells go.

## Main results

* `Draft.addBlocks_eq` — all groups of a draft.
* `moveRow_insertions` — where the insertions for groups put the rows of the template.
* `SheetPlan.fill_eq` — the output sheet of a plan, by where its preparations move the template rows.
* `SheetPlan.fill_places` — the rows of the writes are those that the preparations make room for.
-/

namespace SheetFill.Template

open Cell SheetFill.Group Output

/-- The rows inserted for groups that end at or above a row. -/
def insertedAbove : List KeptGroup → Nat → Nat
  | [], _ => 0
  | g :: groups, row => (if g.block.endRow ≤ row then g.surplus else 0) + insertedAbove groups row

/-- Groups that end further down insert nothing above. -/
theorem insertedAbove_eq_zero {groups : List KeptGroup} {row : Nat}
    (h : ∀ g ∈ groups, row < g.block.endRow) : insertedAbove groups row = 0 := by
  induction groups with
  | nil => rfl
  | cons g groups ih =>
      obtain ⟨hg, hgroups⟩ := List.forall_mem_cons.1 h
      have hbelow : ¬ g.block.endRow ≤ row := by omega
      simp [insertedAbove, hbelow, ih hgroups]

/-! ## Where groups put their rows -/

/-- A group is added: its writes, the insertion for its surplus, and the record of it. -/
theorem Draft.addBlock_eq {σ ν : Type} [Scope σ ν] {d : Draft} {g : KeptGroup} {s : σ}
    (hkept : g.rows = kept g.block (g.block.rows s).1) (hrows : g.block.startRow < g.block.endRow)
    (hlast : ∀ entry ∈ d.shifts.entries.head?, entry.1 ≤ g.block.startRow)
    (htotal : d.shifts.total + g.surplus ≤ RowShifts.maxTotal) :
    let top := g.block.startRow + d.shifts.shift g.block.startRow
    ∃ shifts, d.addBlock .unbounded g.block s =
        (.ok (), ⟨d.preparations ++ g.insertion top, d.cells ++ g.writes top, shifts⟩,
          (g.block.rows s).2) ∧
      shifts.total = d.shifts.total + g.surplus ∧
      (∀ entry ∈ shifts.entries.head?, entry.1 ≤ g.block.endRow) ∧
      ∀ row, shifts.shift row =
        d.shifts.shift row + if g.block.endRow ≤ row then g.surplus else 0 := by
  intro top
  have htop : g.block.endRow + d.shifts.shift g.block.startRow = top + g.block.reservation := by
    simp only [top, Block.reservation]
    omega
  have hcopy : g.block.startRow + 2 + d.shifts.shift g.block.startRow = top + 2 := by
    simp only [top]
    omega
  rw [Draft.addBlock_eq_kept rfl, ← hkept]
  dsimp only
  by_cases hgrow : g.block.ending = .grow ∧ g.block.reservation < RowSums.hold .unbounded g.rows.length
  · have hmore : g.block.reservation < g.rows.length := hgrow.2
    have hsurplus : g.surplus = g.rows.length - g.block.reservation := by
      simp only [KeptGroup.surplus, hgrow.1]
    have hsome : g.surplus ≠ 0 := by omega
    have horder : ∀ entry ∈ d.shifts.entries.head?, entry.1 ≤ g.block.endRow := by
      intro entry hentry
      have := hlast entry hentry
      omega
    obtain ⟨shifts, hrecord, htotal', hlast'⟩ := RowShifts.exists_record horder htotal
    refine ⟨shifts, ?_, htotal', fun entry hentry => Nat.le_of_eq (hlast' entry hentry),
      RowShifts.shift_record hrecord⟩
    obtain ⟨haccepted, hshifts⟩ := RowShifts.record_eq_ok_iff_attempt.1 hrecord
    rw [if_pos hgrow, RowSums.hold_unbounded, ← hsurplus, Draft.insertRows_eq]
    simp only [RowSums.hold_unbounded, haccepted, hshifts, htop, hcopy, KeptGroup.insertion, if_neg hsome]
    rfl
  · have hnone : g.surplus = 0 := by
      simp only [KeptGroup.surplus]
      cases hending : g.block.ending with
      | fixed => rfl
      | grow =>
          have : ¬ g.block.reservation < g.rows.length := fun hlt => hgrow ⟨hending, hlt⟩
          dsimp only
          omega
    refine ⟨d.shifts, ?_, by omega, fun entry hentry => ?_, fun row => by simp [hnone]⟩
    · rw [if_neg hgrow]
      simp only [KeptGroup.insertion, if_pos hnone, List.append_nil]
      rfl
    · have := hlast entry hentry
      omega

/-- No group inserts rows above those that it starts in or that come before. -/
theorem insertedAbove_startRow {g : KeptGroup} {groups : List KeptGroup}
    (h : Descending ((g :: groups).map KeptGroup.block)) :
    insertedAbove (g :: groups) g.block.startRow = 0 := by
  refine insertedAbove_eq_zero fun g' hg' => ?_
  have hrows := h.nonempty _ List.mem_cons_self
  have hrows' := h.nonempty _ (List.mem_map_of_mem hg')
  rcases List.mem_cons.1 hg' with rfl | hg'
  · exact hrows
  · have hbelow := (List.pairwise_cons.1 h.apart).1 _ (List.mem_map_of_mem hg')
    omega

section Expand

variable {σ ν : Type} [Scope σ ν]

/-- All groups are added, each where the rows inserted for those above it move it. -/
theorem Draft.addBlocks_eq {blocks : List Block} (hblocks : Descending blocks) (d : Draft) (s : σ)
    (hlast : ∀ entry ∈ d.shifts.entries.head?, ∀ b ∈ blocks, entry.1 ≤ b.startRow)
    (htotal : d.shifts.total + ((expandGroups blocks s).1.map KeptGroup.surplus).sum ≤
      RowShifts.maxTotal) :
    let groups := (expandGroups blocks s).1
    let place (row : Nat) := row + (d.shifts.shift row + insertedAbove groups row)
    ∃ shifts, Draft.addBlocks .unbounded blocks d s =
        (.ok (),
          { preparations := d.preparations ++
              groups.flatMap fun g => g.insertion (place g.block.startRow)
            cells := d.cells ++ groups.flatMap fun g => g.writes (place g.block.startRow)
            shifts },
          (expandGroups blocks s).2) ∧
      ∀ row, shifts.shift row = d.shifts.shift row + insertedAbove groups row := by
  induction blocks generalizing d s with
  | nil =>
      refine ⟨d.shifts, ?_, fun row => rfl⟩
      simp [Draft.addBlocks, expandGroups]
  | cons b blocks ih =>
      obtain ⟨g, rfl, hkept⟩ : ∃ g : KeptGroup, g.block = b ∧ g.rows = kept b (b.rows s).1 :=
        ⟨⟨b, _⟩, rfl, rfl⟩
      have hexpand : expandGroups (g.block :: blocks) s =
          (g :: (expandGroups blocks (g.block.rows s).2).1,
            (expandGroups blocks (g.block.rows s).2).2) := by
        simp only [expandGroups, ← hkept]
      have hfirst := map_block_expandGroups (g.block :: blocks) s
      rw [hexpand] at htotal hfirst ⊢
      rw [List.map_cons, List.sum_cons] at htotal
      obtain ⟨hrows, -⟩ := List.forall_mem_cons.1 hblocks.nonempty
      obtain ⟨hbelow, -⟩ := List.pairwise_cons.1 hblocks.apart
      obtain ⟨shifts, hadd, htotal', hlast', hshift⟩ := Draft.addBlock_eq (d := d) hkept hrows
        (fun entry hentry => hlast entry hentry _ List.mem_cons_self) (by omega)
      -- later groups start at or below the row that was just recorded
      obtain ⟨shifts', hadds, hshift'⟩ := ih hblocks.of_cons
        ⟨d.preparations ++ g.insertion (g.block.startRow + d.shifts.shift g.block.startRow),
          d.cells ++ g.writes (g.block.startRow + d.shifts.shift g.block.startRow), shifts⟩
        (g.block.rows s).2
        (fun entry hentry b hb => Nat.le_trans (hlast' entry hentry) (hbelow b hb))
        (by dsimp only; omega)
      have hplace (row : Nat) : d.shifts.shift row +
            insertedAbove (g :: (expandGroups blocks (g.block.rows s).2).1) row =
          shifts.shift row + insertedAbove (expandGroups blocks (g.block.rows s).2).1 row := by
        rw [insertedAbove, hshift]
        omega
      have hself : shifts.shift g.block.startRow +
          insertedAbove (expandGroups blocks (g.block.rows s).2).1 g.block.startRow =
            d.shifts.shift g.block.startRow := by
        rw [← hplace, insertedAbove_startRow (by rw [hfirst]; exact hblocks)]
        rfl
      refine ⟨shifts', ?_, fun row => by rw [hshift', hplace]⟩
      simp only [Draft.addBlocks, hadd, hadds, hplace, List.flatMap_cons, hself, List.append_assoc]

end Expand

/-! ## Where preparations put the template rows -/

theorem isBelow_insertion {g : KeptGroup} {top row : Nat} (h : row < top + g.block.reservation) :
    ∀ p ∈ g.insertion top, p.IsBelow row := by
  intro p hp
  simp only [KeptGroup.insertion] at hp
  split at hp
  · cases hp
  · obtain rfl := List.mem_singleton.1 hp
    exact h

/-- The insertion of a group moves the rows from its end on. -/
theorem moveRow_insertion {g : KeptGroup} (h : g.block.startRow < g.block.endRow) (delta row : Nat) :
    moveRow (g.insertion (g.block.startRow + delta)) (row + delta) =
      row + (delta + if g.block.endRow ≤ row then g.surplus else 0) := by
  have hend : g.block.startRow + delta + g.block.reservation = g.block.endRow + delta := by
    simp only [Block.reservation]
    omega
  simp only [KeptGroup.insertion, hend]
  by_cases hnone : g.surplus = 0
  · simp [hnone, moveRow]
  · rw [if_neg hnone]
    show (if g.block.endRow + delta ≤ row + delta then row + delta + g.surplus else row + delta) = _
    by_cases hrow : g.block.endRow ≤ row
    · have hmoved : g.block.endRow + delta ≤ row + delta := by omega
      rw [if_pos hrow, if_pos hmoved]
      omega
    · have hstays : ¬ g.block.endRow + delta ≤ row + delta := by omega
      rw [if_neg hrow, if_neg hstays]
      omega

/-- A row is moved by the rows inserted for the groups that end at or above it. -/
theorem moveRow_insertions {groups : List KeptGroup} (h : Descending (groups.map KeptGroup.block))
    (delta row : Nat) :
    moveRow (groups.flatMap fun g => g.insertion
        (g.block.startRow + (delta + insertedAbove groups g.block.startRow))) (row + delta) =
      row + (delta + insertedAbove groups row) := by
  induction groups generalizing delta with
  | nil => rfl
  | cons g groups ih =>
      have hrows : g.block.startRow < g.block.endRow := h.nonempty _ List.mem_cons_self
      have hbelow : ∀ g' ∈ groups, g.block.endRow ≤ g'.block.startRow := fun g' hg' =>
        (List.pairwise_cons.1 h.apart).1 _ (List.mem_map_of_mem hg')
      have hrows' : ∀ g' ∈ groups, g'.block.startRow < g'.block.endRow := fun g' hg' =>
        h.nonempty _ (List.mem_cons_of_mem _ (List.mem_map_of_mem hg'))
      have hlater : (groups.flatMap fun g' => g'.insertion
            (g'.block.startRow + (delta + insertedAbove (g :: groups) g'.block.startRow))) =
          groups.flatMap fun g' => g'.insertion
            (g'.block.startRow + (delta + g.surplus + insertedAbove groups g'.block.startRow)) := by
        refine List.flatMap_congr fun g' hg' => ?_
        rw [insertedAbove, if_pos (hbelow g' hg'), Nat.add_assoc delta]
      rw [List.flatMap_cons, moveRow_append, insertedAbove_startRow h, Nat.add_zero,
        moveRow_insertion hrows, hlater, insertedAbove]
      by_cases hrow : g.block.endRow ≤ row
      · rw [if_pos hrow, ih h.of_cons, Nat.add_assoc]
      · -- the groups below insert nothing above this row
        have hzero : insertedAbove groups row = 0 := by
          refine insertedAbove_eq_zero fun g' hg' => ?_
          have := hbelow g' hg'
          have := hrows' g' hg'
          omega
        rw [if_neg hrow, hzero]
        refine moveRow_eq_self fun p hp => ?_
        obtain ⟨g', hg', hp⟩ := List.mem_flatMap.1 hp
        have := hbelow g' hg'
        have := hrows' g' hg'
        refine isBelow_insertion ?_ p hp
        simp only [Block.reservation]
        omega

/-! ## Rows of a group and rows moved by it -/

/-- The rows inserted for one group at or above a row grow with the row. -/
theorem inserted_mono (g : KeptGroup) {row row' : Nat} (h : row ≤ row') :
    (if g.block.endRow ≤ row then g.surplus else 0) ≤
      if g.block.endRow ≤ row' then g.surplus else 0 := by
  split
  · next hrow => rw [if_pos (by omega)]
  · exact Nat.zero_le _

theorem insertedAbove_mono (groups : List KeptGroup) {row row' : Nat} (h : row ≤ row') :
    insertedAbove groups row ≤ insertedAbove groups row' := by
  induction groups with
  | nil => exact Nat.le_refl _
  | cons g groups ih => exact Nat.add_le_add (inserted_mono g h) ih

theorem insertedAbove_congr {groups : List KeptGroup} {row row' : Nat}
    (h : ∀ g ∈ groups, g.block.endRow ≤ row ↔ g.block.endRow ≤ row') :
    insertedAbove groups row = insertedAbove groups row' := by
  induction groups with
  | nil => rfl
  | cons g groups ih =>
      obtain ⟨hg, hgroups⟩ := List.forall_mem_cons.1 h
      simp only [insertedAbove, hg, ih hgroups]

section Rows

variable {groups : List KeptGroup} (h : Descending (groups.map KeptGroup.block)) {g : KeptGroup}
  (hg : g ∈ groups) {row : Nat}

include h hg

/-- The rows that a group reserves are moved together. -/
theorem insertedAbove_reserved (hstart : g.block.startRow ≤ row) (hend : row < g.block.endRow) :
    insertedAbove groups row = insertedAbove groups g.block.startRow := by
  refine insertedAbove_congr fun g' hg' => ?_
  have hrows := h.nonempty _ (List.mem_map_of_mem hg)
  have hrows' := h.nonempty _ (List.mem_map_of_mem hg')
  rcases h.apart_or (List.mem_map_of_mem hg) (List.mem_map_of_mem hg') with heq | hbelow | habove
  · rw [← heq]
    omega
  · omega
  · omega

/-- Rows from the end of a group on are moved past its surplus. -/
theorem insertedAbove_below (hend : g.block.endRow ≤ row) :
    insertedAbove groups g.block.startRow + g.surplus ≤ insertedAbove groups row := by
  have hrows := h.nonempty _ (List.mem_map_of_mem hg)
  induction groups with
  | nil => cases hg
  | cons g' groups ih =>
      rcases List.mem_cons.1 hg with rfl | hg
      · rw [insertedAbove_startRow h, insertedAbove, if_pos hend]
        omega
      · have hlater := ih h.of_cons hg
        have hhead := inserted_mono g' (show g.block.startRow ≤ row by omega)
        simp only [insertedAbove]
        omega

end Rows

/--
Groups that follow one another from the top down, none with more rows than it has room for, and the places
to which the rows inserted for them move the rows of the template.
-/
structure Layout (groups : List KeptGroup) (place : Nat → Nat) : Prop where
  descending : Descending (groups.map KeptGroup.block)
  room : ∀ g ∈ groups, g.rows.length ≤ g.block.reservation + g.surplus
  place_eq : ∀ row, place row = row + insertedAbove groups row

namespace Layout

variable {groups : List KeptGroup} {place : Nat → Nat} (h : Layout groups place)

include h

/-- The rows of the template keep their order. -/
theorem place_lt {row row' : Nat} (hlt : row < row') : place row < place row' := by
  have hmono := insertedAbove_mono groups (Nat.le_of_lt hlt)
  rw [h.place_eq, h.place_eq]
  omega

variable {g : KeptGroup} (hg : g ∈ groups) {row : Nat}

include hg

theorem startRow_lt : g.block.startRow < g.block.endRow :=
  h.descending.nonempty _ (List.mem_map_of_mem hg)

/-- The rows that a group reserves stay together. -/
theorem place_reserved (hstart : g.block.startRow ≤ row) (hend : row < g.block.endRow) :
    place row = place g.block.startRow + (row - g.block.startRow) := by
  have hsame := insertedAbove_reserved h.descending hg hstart hend
  rw [h.place_eq, h.place_eq]
  omega

/-- The rows from the end of a group on go below all rows of the group. -/
theorem place_below (hend : g.block.endRow ≤ row) :
    place g.block.startRow + g.block.reservation + g.surplus ≤ place row := by
  have hrows := h.startRow_lt hg
  have hpast := insertedAbove_below h.descending hg hend
  rw [h.place_eq, h.place_eq]
  simp only [Block.reservation]
  omega

/-- No row of the template goes where the rows are that are inserted for a group. -/
theorem place_ne {k : Nat} (hk : g.block.reservation ≤ k)
    (hk' : k < g.block.reservation + g.surplus) : place row ≠ place g.block.startRow + k := by
  rcases Nat.lt_or_ge row g.block.startRow with habove | hstart
  · have := h.place_lt habove
    omega
  · rcases Nat.lt_or_ge row g.block.endRow with hinside | hbelow
    · have := h.place_reserved hg hstart hinside
      simp only [Block.reservation] at hk
      omega
    · have := h.place_below hg hbelow
      omega

end Layout

/-! ## The output sheet -/

theorem isInsertion_clearings {t : SheetPlan} {p : Preparation} (h : p ∈ t.clearings) :
    p.isInsertion = false := by
  rcases List.mem_append.1 h with h | h
  · obtain ⟨c, -, rfl⟩ := List.mem_map.1 h
    rfl
  · obtain ⟨b, -, h⟩ := List.mem_flatMap.1 h
    rcases List.mem_append.1 h with h | h
    · obtain ⟨col, -, rfl⟩ := List.mem_map.1 h
      rfl
    · obtain rfl := List.mem_singleton.1 h
      rfl

theorem insertion_cases {g : KeptGroup} {top : Nat} {p : Preparation} (h : p ∈ g.insertion top) :
    p = .insertRows (top + g.block.reservation) g.surplus (top + 2) := by
  simp only [KeptGroup.insertion] at h
  split at h
  · cases h
  · exact List.mem_singleton.1 h

section Fill

variable {σ ν : Type} [Scope σ ν]

/-- The insertions for groups whose first rows go where `place` says. -/
def insertions (place : Nat → Nat) (groups : List KeptGroup) : List Preparation :=
  groups.flatMap fun g => g.insertion (place g.block.startRow)

/-- The writes of groups whose first rows go where `place` says. -/
def groupWrites (place : Nat → Nat) (groups : List KeptGroup) : List CellWrite :=
  groups.flatMap fun g => g.writes (place g.block.startRow)

/-- The writes of cells outside groups, in a scope, if their rows go where `place` says. -/
def flatWrites (place : Nat → Nat) (s : σ) (cells : List PlacedFormula) : List CellWrite :=
  cells.map fun c =>
    let (value, filters) := c.formula.resolve s true
    { row := place c.position.row, col := c.position.col
      templateRow := c.position.row, templateCol := c.position.col
      value, refRow := none, filters }

/-- The output sheet of a plan, by where its preparations move the rows of the template. -/
theorem SheetPlan.fill_eq {t : SheetPlan} (ht : Descending t.groups) (multiple : Bool) (s : σ)
    (htotal : ((expandGroups t.groups s).1.map KeptGroup.surplus).sum ≤ RowShifts.maxTotal) :
    let groups := (expandGroups t.groups s).1
    ∃ sheet, (t.fill multiple s).1 = .ok sheet ∧
      sheet.preparations = t.clearings ++ insertions sheet.moveRow groups ∧
      sheet.cells = groupWrites sheet.moveRow groups ++
        flatWrites sheet.moveRow (expandGroups t.groups s).2 t.flat ∧
      Layout groups sheet.moveRow := by
  obtain ⟨shifts, hadds, hshift⟩ := Draft.addBlocks_eq ht t.draft s nofun
    (by simpa [SheetPlan.draft, RowShifts.empty] using htotal)
  have hnone (row : Nat) : RowShifts.empty.shift row = 0 := rfl
  simp only [SheetPlan.draft, hnone, Nat.zero_add] at hadds hshift
  have hchain : Descending ((expandGroups t.groups s).1.map KeptGroup.block) := by
    rw [map_block_expandGroups]
    exact ht
  have hroom : ∀ g ∈ (expandGroups t.groups s).1,
      g.rows.length ≤ g.block.reservation + g.surplus :=
    fun g hg => length_rows_le_of_mem_expandGroups hg
  obtain ⟨groups, hgroups⟩ : ∃ groups, groups = (expandGroups t.groups s).1 := ⟨_, rfl⟩
  rw [← hgroups] at hadds hshift hchain hroom ⊢
  obtain ⟨place, hplace⟩ : ∃ place : Nat → Nat, ∀ row, place row = row + insertedAbove groups row :=
    ⟨_, fun _ => rfl⟩
  simp only [← hplace] at hadds
  let sheet : Sheet :=
    { name := t.name.value s true, templateIndex := t.index, multiple
      preparations := t.clearings ++ insertions place groups
      cells := groupWrites place groups ++
        t.flat.map (flatWrite .unbounded shifts (expandGroups t.groups s).2) }
  have hfill : (t.fill multiple s).1 = .ok sheet := by
    simp only [SheetPlan.fill, SheetPlan.fillWith, SheetPlan.draft, hadds]
    rfl
  have hmove : sheet.moveRow = place := by
    funext row
    have hclear : moveRow t.clearings row = row := by
      refine moveRow_eq_self fun p hp => ?_
      have hclearing := isInsertion_clearings hp
      cases p with
      | clearCell _ _ => exact trivial
      | insertRows _ _ _ => cases hclearing
    have hinsert := moveRow_insertions hchain 0 row
    simp only [Nat.zero_add, Nat.add_zero, ← hplace] at hinsert
    rw [Sheet.moveRow, moveRow_append, hclear]
    exact hinsert
  refine ⟨sheet, hfill, ?_, ?_, ?_⟩
  · rw [hmove]
  · rw [hmove]
    show groupWrites place groups ++ _ = _
    have hflat : t.flat.map (flatWrite .unbounded shifts (expandGroups t.groups s).2) =
        flatWrites place (expandGroups t.groups s).2 t.flat := by
      refine List.map_congr_left fun c _ => ?_
      rw [hplace, ← hshift]
      rfl
    rw [hflat]
  · rw [hmove]
    exact ⟨hchain, hroom, hplace⟩

/-! ## Rows within 32 bits -/

theorem insertedAbove_le_sum (groups : List KeptGroup) (row : Nat) :
    insertedAbove groups row ≤ (groups.map KeptGroup.surplus).sum := by
  induction groups with
  | nil => exact Nat.le_refl _
  | cons g groups ih =>
      rw [insertedAbove, List.map_cons, List.sum_cons]
      refine Nat.add_le_add ?_ ih
      split
      · exact Nat.le_refl _
      · exact Nat.zero_le _

/-- Where all groups end within 32 bits, inserted rows counted, it does not matter how rows are added up. -/
theorem Draft.addBlocks_eq_unbounded (sums : RowSums) {blocks : List Block} (hblocks : Descending blocks)
    (d : Draft) (s : σ) (hlast : ∀ entry ∈ d.shifts.entries.head?, ∀ b ∈ blocks, entry.1 ≤ b.startRow)
    (hends : ∀ b ∈ blocks, b.endRow + 1 +
      (d.shifts.total + ((expandGroups blocks s).1.map KeptGroup.surplus).sum) < RowSums.limit) :
    Draft.addBlocks sums blocks d s = Draft.addBlocks .unbounded blocks d s := by
  induction blocks generalizing d s with
  | nil => rfl
  | cons b blocks ih =>
      obtain ⟨g, rfl, hkept⟩ : ∃ g : KeptGroup, g.block = b ∧ g.rows = kept b (b.rows s).1 :=
        ⟨⟨b, _⟩, rfl, rfl⟩
      have hexpand : (expandGroups (g.block :: blocks) s).1 =
          g :: (expandGroups blocks (g.block.rows s).2).1 := by
        simp only [expandGroups, ← hkept]
      have hroom : g.rows.length ≤ g.block.reservation + g.surplus :=
        length_rows_le_of_mem_expandGroups (hexpand ▸ List.mem_cons_self)
      rw [hexpand, List.map_cons, List.sum_cons] at hends
      obtain ⟨hend, hends⟩ := List.forall_mem_cons.1 hends
      obtain ⟨hrows, -⟩ := List.forall_mem_cons.1 hblocks.nonempty
      obtain ⟨hbelow, -⟩ := List.pairwise_cons.1 hblocks.apart
      have hfirst : ∀ entry ∈ d.shifts.entries.head?, entry.1 ≤ g.block.startRow :=
        fun entry hentry => hlast entry hentry _ List.mem_cons_self
      have hshift : d.shifts.shift g.block.startRow = d.shifts.total := RowShifts.shift_of_head?_le hfirst
      have htotal : d.shifts.total + g.surplus ≤ RowShifts.maxTotal := by
        simp only [RowSums.limit] at hend
        simp only [RowShifts.maxTotal]
        omega
      have hreservation : g.block.startRow + g.block.reservation = g.block.endRow := by
        simp only [Block.reservation]
        omega
      obtain ⟨shifts, hadd, htotal', hlast', -⟩ := Draft.addBlock_eq hkept hrows hfirst htotal
      have hsame : d.addBlock sums g.block s = d.addBlock .unbounded g.block s := by
        refine Draft.addBlock_eq_unbounded sums (by omega) d s ?_ (by omega) (by omega)
        rw [← hkept, hshift]
        omega
      rw [Draft.addBlocks, Draft.addBlocks, hsame, hadd]
      refine ih hblocks.of_cons _ _
        (fun entry hentry b hb => Nat.le_trans (hlast' entry hentry) (hbelow b hb)) fun b hb => ?_
      have hb := hends b hb
      dsimp only
      omega

/-- The rows of a plan lie within 32 bits, even if all rows that are inserted came above them. -/
structure SheetPlan.FitsRows (t : SheetPlan) (inserted : Nat) : Prop where
  groups : ∀ b ∈ t.groups, b.endRow + 1 + inserted < RowSums.limit
  flat : ∀ c ∈ t.flat, c.position.row + inserted < RowSums.limit

/-- Where the rows of a sheet lie within 32 bits, it does not matter how they are added up. -/
theorem SheetPlan.fillWith_eq_fill (sums : RowSums) {t : SheetPlan} (ht : Descending t.groups)
    (multiple : Bool) (s : σ)
    (hfits : t.FitsRows ((expandGroups t.groups s).1.map KeptGroup.surplus).sum) :
    t.fillWith sums multiple s = t.fill multiple s := by
  have hsame : Draft.addBlocks sums t.groups t.draft s = Draft.addBlocks .unbounded t.groups t.draft s := by
    refine Draft.addBlocks_eq_unbounded sums ht t.draft s nofun fun b hb => ?_
    have hend := hfits.groups b hb
    simp only [SheetPlan.draft, RowShifts.empty]
    omega
  by_cases htotal : ((expandGroups t.groups s).1.map KeptGroup.surplus).sum ≤ RowShifts.maxTotal
  · obtain ⟨shifts, hadds, hshift⟩ := Draft.addBlocks_eq ht t.draft s nofun
      (by simpa [SheetPlan.draft, RowShifts.empty] using htotal)
    have hflat : t.flat.map (flatWrite sums shifts (expandGroups t.groups s).2) =
        t.flat.map (flatWrite .unbounded shifts (expandGroups t.groups s).2) := by
      refine List.map_congr_left fun c hc => ?_
      have hrow := hfits.flat c hc
      have hmoved := insertedAbove_le_sum (expandGroups t.groups s).1 c.position.row
      have hzero : t.draft.shifts.shift c.position.row = 0 := rfl
      rw [flatWrite, RowSums.add_eq_hold, hshift, hzero, Nat.zero_add, sums.hold_of_lt (by omega)]
      rw [flatWrite, RowSums.add_unbounded, hshift, hzero, Nat.zero_add]
    simp only [SheetPlan.fill, SheetPlan.fillWith, hsame, hadds, hflat]
  · -- then there are no groups, and no rows are inserted
    cases hgroups : t.groups with
    | nil =>
        rw [hgroups] at htotal
        exact absurd (Nat.zero_le _) htotal
    | cons b blocks =>
        have hend := hfits.groups b (hgroups ▸ List.mem_cons_self)
        simp only [RowSums.limit] at hend
        simp only [RowShifts.maxTotal] at htotal
        omega

theorem refRow_of_mem_groupWrites {place : Nat → Nat} {groups : List KeptGroup} {w : CellWrite}
    (h : w ∈ groupWrites place groups) : w.refRow ≠ none := by
  obtain ⟨g, -, h⟩ := List.mem_flatMap.1 h
  obtain ⟨⟨row, k⟩, -, h⟩ := List.mem_flatMap.1 h
  exact (row_of_mem_keptRow h).2

theorem isInsertion_insertions {place : Nat → Nat} {groups : List KeptGroup} {p : Preparation}
    (h : p ∈ insertions place groups) : p.isInsertion = true := by
  obtain ⟨g, -, h⟩ := List.mem_flatMap.1 h
  rw [insertion_cases h]
  rfl

theorem insertedRows_insertions (place : Nat → Nat) (groups : List KeptGroup) :
    ((insertions place groups).map Preparation.insertedRows).sum =
      (groups.map KeptGroup.surplus).sum := by
  induction groups with
  | nil => rfl
  | cons g groups ih =>
      have hfirst : ((g.insertion (place g.block.startRow)).map Preparation.insertedRows).sum =
          g.surplus := by
        simp only [KeptGroup.insertion]
        split
        · next hnone => exact hnone.symm
        · rfl
      have hcons : insertions place (g :: groups) =
          g.insertion (place g.block.startRow) ++ insertions place groups := rfl
      rw [hcons, List.map_append, List.sum_append, hfirst, ih, List.map_cons, List.sum_cons]

/-- Cells are cleared before rows are inserted. -/
theorem pairwise_preparations (t : SheetPlan) (place : Nat → Nat) (groups : List KeptGroup) :
    (t.clearings ++ insertions place groups).Pairwise fun p q =>
      p.isInsertion = true → q.isInsertion = true := by
  refine List.pairwise_append.2 ⟨?_, ?_, ?_⟩
  · refine List.pairwise_of_forall_mem_list fun p hp q _ hinsertion => ?_
    rw [isInsertion_clearings hp] at hinsertion
    cases hinsertion
  · exact List.pairwise_of_forall_mem_list fun p _ q hq _ => isInsertion_insertions hq
  · exact fun p _ q hq _ => isInsertion_insertions hq

/-- Only the groups insert rows. -/
theorem insertedRows_of_preparations {t : SheetPlan} {place : Nat → Nat} {groups : List KeptGroup}
    {sheet : Sheet} (h : sheet.preparations = t.clearings ++ insertions place groups) :
    sheet.insertedRows = (groups.map KeptGroup.surplus).sum := by
  have hclear : (t.clearings.map Preparation.insertedRows).sum = 0 := by
    refine List.sum_eq_zero_iff_forall_eq_nat.2 fun n hn => ?_
    obtain ⟨p, hp, rfl⟩ := List.mem_map.1 hn
    have hclearing := isInsertion_clearings hp
    cases p with
    | clearCell _ _ => rfl
    | insertRows _ _ _ => cases hclearing
  rw [insertedRows_eq, h, List.map_append, List.sum_append, hclear, Nat.zero_add]
  exact insertedRows_insertions place groups

/-- Insertions for groups further down leave the rows of a group where they are. -/
theorem Layout.moveRow_below {groups above below : List KeptGroup} {g : KeptGroup}
    {place : Nat → Nat} (h : Layout groups place) (hsplit : groups = above ++ g :: below) {k : Nat}
    (hk : k < g.block.reservation + g.surplus) :
    moveRow (insertions place below) (place g.block.startRow + k) = place g.block.startRow + k := by
  have hg : g ∈ groups := by
    rw [hsplit]
    exact List.mem_append_right _ List.mem_cons_self
  have hchain : Descending ((above ++ g :: below).map KeptGroup.block) := by
    rw [← hsplit]
    exact h.descending
  refine moveRow_eq_self fun p hp => ?_
  obtain ⟨g', hg', hp⟩ := List.mem_flatMap.1 hp
  refine isBelow_insertion ?_ p hp
  have hlater : g.block.endRow ≤ g'.block.startRow := by
    have happart := hchain.apart
    rw [List.map_append, List.map_cons] at happart
    have hlower := (List.pairwise_append.1 happart).2.1
    exact (List.pairwise_cons.1 hlower).1 _ (List.mem_map_of_mem hg')
  have := h.place_below hg hlater
  omega

/--
The rows of an output sheet are those that its preparations make room for. Every cell is cleared before a
row is inserted. A cell outside groups is written where its template row goes. The rows that a group keeps
are written from where its first row goes: those that it reserves go there with the template, and those
beyond are among the rows inserted for it, where no template row goes.
-/
theorem SheetPlan.fill_places {settings : Settings} {index : Nat} {raw : RawSheet} {plan : SheetPlan}
    (hplan : SheetPlan.ofRaw? settings index raw = .ok plan) (multiple : Bool) (s : σ)
    (htotal : ((expandGroups plan.groups s).1.map KeptGroup.surplus).sum ≤ RowShifts.maxTotal) :
    let (groups, after) := expandGroups plan.groups s
    ∃ sheet, (plan.fill multiple s).1 = .ok sheet ∧
      sheet.preparations = plan.clearings ++ insertions sheet.moveRow groups ∧
      sheet.cells = groupWrites sheet.moveRow groups ++ flatWrites sheet.moveRow after plan.flat ∧
      sheet.preparations.Pairwise (fun p q => p.isInsertion = true → q.isInsertion = true) ∧
      (∀ w ∈ sheet.cells, w.refRow = none → w.row = sheet.moveRow w.templateRow) ∧
      (∀ above g below, groups = above ++ g :: below → ∀ k < g.rows.length,
        let row := sheet.moveRow g.block.startRow + k
        (k < g.block.reservation → sheet.moveRow (g.block.startRow + k) = row) ∧
          (g.block.reservation ≤ k →
            (∀ templateRow, sheet.moveRow templateRow ≠ row) ∧
              ∃ own, g.insertion (sheet.moveRow g.block.startRow) = [own] ∧ own.Inserts row ∧
                moveRow (insertions sheet.moveRow below) row = row)) ∧
      sheet.insertedRows = (groups.map KeptGroup.surplus).sum := by
  have hdescending := SheetPlan.descending_of_ofRaw? hplan
  obtain ⟨sheet, hfill, hpreparations, hcells, hlayout⟩ :=
    SheetPlan.fill_eq hdescending multiple s htotal
  dsimp only
  obtain ⟨groups, hgroups⟩ : ∃ groups, groups = (expandGroups plan.groups s).1 := ⟨_, rfl⟩
  rw [← hgroups] at hpreparations hcells hlayout ⊢
  refine ⟨sheet, hfill, hpreparations, hcells, ?_, ?_, ?_, ?_⟩
  · rw [hpreparations]
    exact pairwise_preparations plan sheet.moveRow groups
  · intro w hw hflat
    rw [hcells] at hw
    rcases List.mem_append.1 hw with hw | hw
    · exact absurd hflat (refRow_of_mem_groupWrites hw)
    · obtain ⟨c, -, rfl⟩ := List.mem_map.1 hw
      rfl
  · intro above g below hsplit k hk
    have hg : g ∈ groups := by
      rw [hsplit]
      exact List.mem_append_right _ List.mem_cons_self
    have hrows := hlayout.startRow_lt hg
    have hroom : k < g.block.reservation + g.surplus := Nat.lt_of_lt_of_le hk (hlayout.room g hg)
    constructor
    · intro hreserved
      have hinside : g.block.startRow + k < g.block.endRow := by
        simp only [Block.reservation] at hreserved
        omega
      rw [hlayout.place_reserved hg (by omega) hinside]
      omega
    · intro hbeyond
      have hsome : g.surplus ≠ 0 := by omega
      refine ⟨fun templateRow => hlayout.place_ne hg hbeyond hroom, _, if_neg hsome, ?_, ?_⟩
      · exact ⟨by omega, by omega⟩
      · exact hlayout.moveRow_below hsplit hroom
  · exact insertedRows_of_preparations hpreparations

end Fill

/-- Three people in one reserved row: two rows are inserted for them. -/
theorem SheetPlan.fill_places_staff :
    let raw : RawSheet :=
      { name := "Staff"
        cells := [⟨⟨1, 0⟩, "#no#"⟩, ⟨⟨1, 1⟩, "#staff.name#"⟩, ⟨⟨2, 0⟩, "#grow#"⟩,
          ⟨⟨2, 1⟩, "$firm.title$"⟩] }
    let title : Body := ⟨"$firm.title$", [.slot ⟨.plain, "firm.title", ⟨"firm", "title"⟩, []⟩]⟩
    let person : Body := ⟨"#staff.name#", [.slot ⟨.group, "staff.name", ⟨"staff", "name"⟩, []⟩]⟩
    let plan : SheetPlan :=
      { index := 0, name := ⟨"Staff", [.literal "Staff"]⟩, flat := [⟨⟨2, 1⟩, ⟨title, []⟩⟩]
        groups := [⟨1, 2, 0, .grow, some 0, ⟨[⟨"staff", [⟨⟨1, 1⟩, ⟨person, []⟩⟩]⟩]⟩⟩] }
    let named (name : String) := Json.Value.object [("name", .string name)]
    let root := Json.Value.object [("staff", .array [named "Ada", named "Ben", named "Cy"])]
    SheetPlan.ofRaw? .default 0 raw = .ok plan ∧
      ((expandGroups plan.groups (Json.Document.ofValue root)).1.map KeptGroup.surplus).sum ≤
        RowShifts.maxTotal ∧
      ∃ sheet, (plan.fill false (Json.Document.ofValue root)).1 = .ok sheet ∧ sheet.insertedRows = 2 := by
  intro raw title person plan named root
  have hplan : SheetPlan.ofRaw? .default 0 raw = .ok plan := by decide +kernel
  have hsum : ((expandGroups plan.groups (Json.Document.ofValue root)).1.map
      KeptGroup.surplus).sum = 2 := by
    simp only [plan, expandGroups, Block.rows, Walk.drain_ofTiers]
    decide +kernel
  have htotal : ((expandGroups plan.groups (Json.Document.ofValue root)).1.map
      KeptGroup.surplus).sum ≤ RowShifts.maxTotal := by
    rw [hsum]
    decide
  obtain ⟨sheet, hfill, -, -, -, -, -, hinserted⟩ :=
    SheetPlan.fill_places hplan false (Json.Document.ofValue root) htotal
  exact ⟨hplan, htotal, sheet, hfill, hinserted.trans hsum⟩

end SheetFill.Template

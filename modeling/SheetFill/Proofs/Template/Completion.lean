import SheetFill.Proofs.Template.Placement
import SheetFill.Proofs.Template.Turns

/-!
# A workbook that was read can be filled

The rows inserted in a sheet are recorded group by group, and a record is refused if its boundary lies
above an earlier one. That never happens to the groups of a sheet that was read, since they follow one
another from the top down. What can be refused is the number of rows inserted: a sheet fails just if its
groups need more of them than there can be, and nothing else makes a sheet fail.

## Main definitions

* `Draft.record?`, `Draft.records` — what is recorded for one group and for all groups of a sheet.
* `Turn.insertions` — the number of rows that the groups of a sheet need beyond those that they reserve.

## Main results

* `Draft.pairwise_records` — the boundaries recorded for a sheet strictly increase.
* `SheetPlan.fill_eq_error_iff` — a sheet fails just if it needs too many rows.
* `Plan.fill_completes` — a workbook that was read is filled without failure, if no sheet needs too many.
-/

namespace SheetFill.Template

open Cell SheetFill.Group Output

/-! ## What is recorded -/

namespace Draft

variable {σ ν : Type} [Scope σ ν]

/-- What is recorded for a group: the row before which rows are inserted, and their number. -/
def record? (d : Draft) (b : Block) (s : σ) : Option (Nat × Nat) :=
  let delta := d.shifts.shift b.startRow
  let kept := (writeRows .unbounded b delta 0 (Walk.ofTiers b.nesting.tiers) s).2.1
  if b.ending = .grow ∧ b.reservation < kept then some (b.endRow, kept - b.reservation) else none

/-- A group makes an attempt to record what is recorded for it, and none besides. -/
theorem addBlock_shifts (d : Draft) (b : Block) (s : σ) :
    ((d.addBlock .unbounded b s).1, (d.addBlock .unbounded b s).2.1.shifts) =
      match d.record? b s with
      | none => (.ok (), d.shifts)
      | some (boundary, count) =>
        ((d.shifts.attempt boundary count).1.mapError .structural, (d.shifts.attempt boundary count).2) := by
  simp only [addBlock, record?]
  split
  · rfl
  · rfl

/-- A group is refused just if what is recorded for it is. -/
theorem addBlock_eq_error_iff {d : Draft} {b : Block} {s : σ} {e : FillError} :
    (d.addBlock .unbounded b s).1 = .error e ↔
      ∃ boundary count fault, d.record? b s = some (boundary, count) ∧
        d.shifts.record boundary count = .error fault ∧ e = .structural fault := by
  have hanswer := congrArg Prod.fst (addBlock_shifts d b s)
  dsimp only at hanswer
  rw [hanswer]
  cases d.record? b s with
  | none => simp
  | some entry =>
      obtain ⟨boundary, count⟩ := entry
      simp only [RowShifts.record_eq_error_iff_attempt]
      cases hattempt : (d.shifts.attempt boundary count).1 with
      | error fault => simp [hattempt, Except.mapError, eq_comm]
      | ok _ => simp [hattempt, Except.mapError]

/-- What is recorded for groups, in order, up to the first failure. -/
def records : List Block → Draft → σ → List (Nat × Nat)
  | [], _, _ => []
  | b :: blocks, d, s =>
    (d.record? b s).toList ++
      match d.addBlock .unbounded b s with
      | (.error _, _, _) => []
      | (.ok _, d, s) => records blocks d s

/-- Boundaries are recorded where groups end, in their order. -/
theorem records_sublist (blocks : List Block) (d : Draft) (s : σ) :
    ((records blocks d s).map Prod.fst).Sublist (blocks.map Block.endRow) := by
  induction blocks generalizing d s with
  | nil => exact .slnil
  | cons b blocks ih =>
      have hrest : ((match d.addBlock .unbounded b s with
          | (.error _, _, _) => []
          | (.ok _, d, s) => records blocks d s).map Prod.fst).Sublist (blocks.map Block.endRow) := by
        split
        · exact List.nil_sublist _
        · exact ih _ _
      simp only [records, List.map_append, List.map_cons, record?]
      split
      · exact hrest.cons_cons b.endRow
      · exact hrest.cons b.endRow

/-- The boundaries recorded for groups that follow one another strictly increase. -/
theorem pairwise_records {blocks : List Block} (h : Descending blocks) (d : Draft) (s : σ) :
    (records blocks d s).Pairwise fun upper lower => upper.1 < lower.1 := by
  have hends : (blocks.map Block.endRow).Pairwise (· < ·) := by
    refine List.pairwise_map.2 (h.apart.imp_of_mem fun {upper lower} _ hlower happart => ?_)
    have hrows := h.nonempty lower hlower
    omega
  exact List.pairwise_map.1 (hends.sublist (records_sublist blocks d s))

/-! ## Too many rows -/

/-- A group that needs too many rows is refused. -/
theorem addBlock_of_overflow {d : Draft} {g : KeptGroup} {s : σ}
    (hkept : g.rows = kept g.block (g.block.rows s).1) (hrows : g.block.startRow < g.block.endRow)
    (hlast : ∀ entry ∈ d.shifts.entries.head?, entry.1 ≤ g.block.startRow)
    (hroom : d.shifts.total ≤ RowShifts.maxTotal)
    (htotal : RowShifts.maxTotal < d.shifts.total + g.surplus) :
    (d.addBlock .unbounded g.block s).1 = .error (.structural .insertedRowsOverflow) := by
  have hlength : (writeRows .unbounded g.block (d.shifts.shift g.block.startRow) 0
      (Walk.ofTiers g.block.nesting.tiers) s).2.1 = g.rows.length := by
    rw [writeRows_eq_keptWrites rfl, hkept]
    rfl
  have hsome : g.surplus ≠ 0 := by omega
  have hending : g.block.ending = .grow := by
    cases hending : g.block.ending with
    | fixed => simp [KeptGroup.surplus, hending] at hsome
    | grow => rfl
  have hsurplus : g.surplus = g.rows.length - g.block.reservation := by
    simp only [KeptGroup.surplus, hending]
  have hrecord : d.record? g.block s = some (g.block.endRow, g.surplus) := by
    have hgrow : g.block.ending = .grow ∧ g.block.reservation < g.rows.length :=
      ⟨hending, by omega⟩
    simp only [record?, hlength, if_pos hgrow, hsurplus]
  refine addBlock_eq_error_iff.2 ⟨_, _, _, hrecord, RowShifts.record_eq_error_iff.2 (.inr ?_), rfl⟩
  refine ⟨fun entry hentry => ?_, htotal, rfl⟩
  have := hlast entry hentry
  omega

/-- Groups that need too many rows together are refused. -/
theorem addBlocks_of_overflow {blocks : List Block} (hblocks : Descending blocks) (d : Draft) (s : σ)
    (hlast : ∀ entry ∈ d.shifts.entries.head?, ∀ b ∈ blocks, entry.1 ≤ b.startRow)
    (hroom : d.shifts.total ≤ RowShifts.maxTotal)
    (htotal : RowShifts.maxTotal <
      d.shifts.total + ((expandGroups blocks s).1.map KeptGroup.surplus).sum) :
    (addBlocks .unbounded blocks d s).1 = .error (.structural .insertedRowsOverflow) := by
  induction blocks generalizing d s with
  | nil =>
      simp only [expandGroups, List.map_nil, List.sum_nil, Nat.add_zero] at htotal
      omega
  | cons b blocks ih =>
      obtain ⟨g, rfl, hkept⟩ : ∃ g : KeptGroup, g.block = b ∧ g.rows = kept b (b.rows s).1 :=
        ⟨⟨b, _⟩, rfl, rfl⟩
      have hexpand : (expandGroups (g.block :: blocks) s).1 =
          g :: (expandGroups blocks (g.block.rows s).2).1 := by
        simp only [expandGroups, ← hkept]
      rw [hexpand, List.map_cons, List.sum_cons] at htotal
      obtain ⟨hrows, -⟩ := List.forall_mem_cons.1 hblocks.nonempty
      obtain ⟨hbelow, -⟩ := List.pairwise_cons.1 hblocks.apart
      have hfirst : ∀ entry ∈ d.shifts.entries.head?, entry.1 ≤ g.block.startRow :=
        fun entry hentry => hlast entry hentry _ List.mem_cons_self
      by_cases hsurplus : d.shifts.total + g.surplus ≤ RowShifts.maxTotal
      · -- this group is recorded, so the groups below need too many rows
        obtain ⟨shifts, hadd, htotal', hlast', -⟩ := addBlock_eq hkept hrows hfirst hsurplus
        simp only [addBlocks, hadd]
        refine ih hblocks.of_cons _ _ (fun entry hentry b hb => ?_) (by dsimp only; omega)
          (by dsimp only; omega)
        exact Nat.le_trans (hlast' entry hentry) (hbelow b hb)
      · have hadd := addBlock_of_overflow hkept hrows hfirst hroom (by omega)
        exact addBlocks_of_error hadd blocks

end Draft

/-! ## Sheets that fail -/

section Fill

variable {σ ν : Type} [Scope σ ν]

/-- A sheet fails just if its groups need too many rows. -/
theorem SheetPlan.fill_eq_error_iff {t : SheetPlan} (ht : Descending t.groups) (multiple : Bool) (s : σ)
    {e : FillError} :
    (t.fill multiple s).1 = .error e ↔
      RowShifts.maxTotal < ((expandGroups t.groups s).1.map KeptGroup.surplus).sum ∧
        e = .structural .insertedRowsOverflow := by
  by_cases htotal : ((expandGroups t.groups s).1.map KeptGroup.surplus).sum ≤ RowShifts.maxTotal
  · obtain ⟨sheet, hfill, -⟩ := SheetPlan.fill_eq ht multiple s htotal
    simp [hfill, htotal]
  · have hadds := Draft.addBlocks_of_overflow ht t.draft s nofun (Nat.zero_le _)
      (by simpa [SheetPlan.draft, RowShifts.empty] using htotal)
    have hfill : (t.fill multiple s).1 = .error (.structural .insertedRowsOverflow) := by
      simp only [SheetPlan.fill, SheetPlan.fillWith, hadds]
      rfl
    simp [hfill, Nat.lt_of_not_le htotal, eq_comm]

namespace Turn

/-- The number of rows that groups need beyond those that they reserve. -/
def insertions (t : Turn σ) : Nat :=
  ((expandGroups t.plan.groups t.scope).1.map KeptGroup.surplus).sum

/-- What is recorded for the groups. -/
def records (t : Turn σ) : List (Nat × Nat) :=
  Draft.records t.plan.groups t.plan.draft t.scope

end Turn

/-! ## Workbooks -/

namespace Filling

/-- Turns are those of the plans that have still to be filled. -/
theorem plan_mem_of_mem_nodeTurns {nodes : List (SheetNode ν)} {s : σ} {t : Turn σ}
    (h : t ∈ (nodeTurns nodes s).1) : ∃ n ∈ nodes, t.plan = n.plan := by
  induction nodes generalizing s with
  | nil => cases h
  | cons n nodes ih =>
      rcases List.mem_cons.1 h with rfl | h
      · exact ⟨n, List.mem_cons_self, rfl⟩
      · obtain ⟨m, hm, hplan⟩ := ih h
        exact ⟨m, List.mem_cons_of_mem _ hm, hplan⟩

theorem plan_eq_of_mem_planTurns {plan : SheetPlan} {s : σ} {t : Turn σ}
    (h : t ∈ (planTurns plan s).1) : t.plan = plan := by
  unfold planTurns at h
  split at h
  · rw [List.mem_singleton.1 h]
  · obtain ⟨n, hn, hplan⟩ := plan_mem_of_mem_nodeTurns h
    obtain ⟨node, -, rfl⟩ := List.mem_map.1 hn
    exact hplan

theorem plan_mem_of_mem_plansTurns {plans : List SheetPlan} {s : σ} {t : Turn σ}
    (h : t ∈ (plansTurns plans s).1) : t.plan ∈ plans := by
  induction plans generalizing s with
  | nil => cases h
  | cons plan plans ih =>
      rcases List.mem_append.1 h with h | h
      · rw [plan_eq_of_mem_planTurns h]
        exact List.mem_cons_self
      · exact List.mem_cons_of_mem _ (ih h)

theorem plan_mem_of_mem_turns_ofPlan {p : Plan} {s : σ} {t : Turn σ}
    (h : t ∈ ((ofPlan p : Filling ν).turns s).1) : t.plan ∈ p.sheets :=
  plan_mem_of_mem_plansTurns h

end Filling

/-- The plans of a workbook come from its sheets. -/
theorem SheetPlan.exists_ofRaw?_of_mem {settings : Settings} {index : Nat} {raws : List RawSheet}
    {plans : List SheetPlan} (h : SheetPlan.ofRaws? settings index raws = .ok plans)
    {plan : SheetPlan} (hplan : plan ∈ plans) :
    ∃ i raw, SheetPlan.ofRaw? settings i raw = .ok plan := by
  induction raws generalizing index plans with
  | nil =>
      cases h
      cases hplan
  | cons raw raws ih =>
      obtain ⟨first, hfirst, h⟩ := bind_eq_ok_iff.1 h
      obtain ⟨later, hlater, h⟩ := bind_eq_ok_iff.1 h
      cases h
      rcases List.mem_cons.1 hplan with rfl | hplan
      · exact ⟨index, raw, hfirst⟩
      · exact ih hlater hplan

theorem Plan.exists_ofRaw?_of_mem {settings : Settings} {raws : List RawSheet} {p : Plan}
    (h : Plan.ofRaw? settings raws = .ok p) {plan : SheetPlan} (hplan : plan ∈ p.sheets) :
    ∃ i raw, SheetPlan.ofRaw? settings i raw = .ok plan := by
  obtain ⟨plans, hplans, h⟩ := bind_eq_ok_iff.1 h
  cases h
  exact SheetPlan.exists_ofRaw?_of_mem hplans hplan

/-- The groups of every sheet of a workbook follow one another from the top down. -/
theorem Plan.descending_of_ofRaw? {settings : Settings} {raws : List RawSheet} {p : Plan}
    (h : Plan.ofRaw? settings raws = .ok p) : ∀ plan ∈ p.sheets, Descending plan.groups := by
  intro plan hplan
  obtain ⟨i, raw, hraw⟩ := Plan.exists_ofRaw?_of_mem h hplan
  exact SheetPlan.descending_of_ofRaw? hraw

/--
A workbook that was read is filled turn by turn, whatever the scope. In each turn the boundaries recorded
strictly increase, and the turn fails just if the groups of its sheet need more rows than may be inserted;
it then says so. If that happens in no turn, every sheet comes out.
-/
theorem Plan.fill_completes {settings : Settings} {raws : List RawSheet} {p : Plan}
    (h : Plan.ofRaw? settings raws = .ok p) (s : σ) :
    let f : Filling ν := Filling.ofPlan p
    let turns := (f.turns s).1
    (p.fill s).1 = f.named (turns.map Turn.item) ∧
      (∀ t ∈ turns, t.plan ∈ p.sheets ∧
        t.records.Pairwise (fun upper lower => upper.1 < lower.1) ∧
        ∀ e, t.item = .error e ↔
          RowShifts.maxTotal < t.insertions ∧ e = .structural .insertedRowsOverflow) ∧
      (∀ e, .error e ∈ (p.fill s).1 → e = .structural .insertedRowsOverflow) ∧
      ((∀ t ∈ turns, t.insertions ≤ RowShifts.maxTotal) →
        ∀ item ∈ (p.fill s).1, ∃ sheet, item = .ok sheet) := by
  intro f turns
  have hfill : (p.fill s).1 = f.named (turns.map Turn.item) := by
    rw [Plan.fill, Filling.drain_eq_turns]
  have hitem : ∀ t ∈ turns, ∀ e, t.item = .error e ↔
      RowShifts.maxTotal < t.insertions ∧ e = .structural .insertedRowsOverflow := by
    intro t ht e
    have hplan := Filling.plan_mem_of_mem_turns_ofPlan ht
    exact SheetPlan.fill_eq_error_iff (Plan.descending_of_ofRaw? h _ hplan) t.multiple t.scope
  have herror : ∀ e, .error e ∈ (p.fill s).1 → ∃ t ∈ turns, t.item = .error e := by
    intro e he
    rw [hfill, Filling.error_mem_named_iff] at he
    exact List.mem_map.1 he
  refine ⟨hfill, fun t ht => ⟨?_, ?_, hitem t ht⟩, fun e he => ?_, fun hinsertions item hmem => ?_⟩
  · exact Filling.plan_mem_of_mem_turns_ofPlan ht
  · have hplan := Filling.plan_mem_of_mem_turns_ofPlan ht
    exact Draft.pairwise_records (Plan.descending_of_ofRaw? h _ hplan) _ _
  · obtain ⟨t, ht, he⟩ := herror e he
    exact ((hitem t ht e).1 he).2
  · cases item with
    | ok sheet => exact ⟨sheet, rfl⟩
    | error e =>
        obtain ⟨t, ht, he⟩ := herror e hmem
        have htoo := ((hitem t ht e).1 he).1
        exact absurd (hinsertions t ht) (Nat.not_le.2 htoo)

end Fill

/-- Three people in one reserved row, and then a sheet for each firm: all sheets come out. -/
theorem Plan.fill_completes_staff :
    let raws : List RawSheet :=
      [{ name := "Staff", cells := [⟨⟨1, 0⟩, "#no#"⟩, ⟨⟨1, 1⟩, "#staff.name#"⟩, ⟨⟨2, 0⟩, "#grow#"⟩] },
       { name := "$firms.title$", cells := [⟨⟨0, 0⟩, "#firms.sites.city#"⟩, ⟨⟨2, 0⟩, "#end#"⟩] }]
    let named (name : String) := Json.Value.object [("name", .string name)]
    let firm (title : String) (cities : List String) := Json.Value.object [("title", .string title),
      ("sites", .array (cities.map fun city => .object [("city", .string city)]))]
    let document := Json.Document.ofValue (.object [
      ("staff", .array [named "Ada", named "Ben", named "Cy"]),
      ("firms", .array [firm "North" ["Oslo"], firm "South" ["Rome", "Bari", "Pisa"]])])
    ∃ plan, Plan.ofRaw? .default raws = .ok plan ∧
      (∀ t ∈ ((Filling.ofPlan plan : Filling Json.Pointer).turns document).1,
        t.insertions ≤ RowShifts.maxTotal) ∧
      (∀ item ∈ (plan.fill document).1, ∃ sheet, item = .ok sheet) := by
  intro raws named firm document
  let person : Body := ⟨"#staff.name#", [.slot ⟨.group, "staff.name", ⟨"staff", "name"⟩, []⟩]⟩
  let city : Body :=
    ⟨"#firms.sites.city#", [.slot ⟨.group, "firms.sites.city", ⟨"firms/sites", "city"⟩, []⟩]⟩
  let staff : SheetPlan :=
    { index := 0, name := ⟨"Staff", [.literal "Staff"]⟩, flat := []
      groups := [⟨1, 2, 0, .grow, some 0, ⟨[⟨"staff", [⟨⟨1, 1⟩, ⟨person, []⟩⟩]⟩]⟩⟩] }
  let firms : SheetPlan :=
    { index := 1
      name := ⟨"$firms.title$", [.slot ⟨.plain, "firms.title", ⟨"firms", "title"⟩, []⟩]⟩
      flat := []
      groups := [⟨0, 2, 0, .fixed, none, ⟨[⟨"firms/sites", [⟨⟨0, 0⟩, ⟨city, []⟩⟩]⟩]⟩⟩] }
  have hplan : Plan.ofRaw? .default raws = .ok ⟨[staff, firms], true⟩ := by decide +kernel
  have hsum : ((expandGroups staff.groups document).1.map KeptGroup.surplus).sum = 2 := by
    simp only [staff, expandGroups, Block.rows, Walk.drain_ofTiers]
    decide +kernel
  have hinsertions : ∀ t ∈ ((Filling.ofPlan ⟨[staff, firms], true⟩ : Filling Json.Pointer).turns
      document).1, t.insertions ≤ RowShifts.maxTotal := by
    intro t ht
    rcases List.mem_cons.1 ht with rfl | ht
    · rw [Turn.insertions, hsum]
      decide
    · have hfirms : t ∈ (Filling.planTurns firms (staff.fill false document).2).1 := by
        rwa [← List.append_nil (Filling.planTurns firms (staff.fill false document).2).1]
      rw [Turn.insertions, Filling.plan_eq_of_mem_planTurns hfirms]
      exact Nat.zero_le _
  exact ⟨_, hplan, hinsertions, (Plan.fill_completes hplan document).2.2.2 hinsertions⟩

end SheetFill.Template

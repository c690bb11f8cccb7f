import SheetFill.Output.Filters
import SheetFill.Proofs.Template.Collisions
import SheetFill.Proofs.Template.Completion
import SheetFill.Proofs.Template.Siblings

/-!
# Filters that were known are found

The filters of a template are checked when it is read, cell by cell; they are applied when the output
sheets are written. Between the two, cells are gathered into groups, shown once for a node and then
without their content, shown without filters for want of a node, or numbered. None of this makes up a
filter: every invocation in an output sheet has the name of a filter in the template.

So the names of a filter set, given as the known filters, make sure that the set has a filter for every
invocation.

## Main definitions

* `UsesOnly`, `CallsOnly` — invocations and formulas with filters of some names only.

## Main results

* `SheetPlan.usesOnly_of_ofRaw?` — the cells of a plan have known filters only.
* `SheetPlan.UsesOnly.fill`, `Plan.callsOnly_of_mem_fill` — no filter is made up.
* `Plan.fill_knows_filters` — known filters are found.
-/

namespace SheetFill

open Cell

/-! ## Names of filters -/

namespace Cell

/-- Are all invocations those of filters with some names? -/
def CallsOnly (names : List String) (filters : List FilterInvocation) : Prop :=
  ∀ f ∈ filters, f.name ∈ names

/-- Are all filters of a formula among those with some names? -/
def Formula.UsesOnly (names : List String) (formula : Formula) : Prop :=
  ∀ f ∈ formula.filters, f.name ∈ names

variable {names : List String}

theorem callsOnly_nil : CallsOnly names [] := nofun

theorem Formula.UsesOnly.callsOnly {σ ν : Type} [Lookup σ ν] {formula : Formula}
    (h : formula.UsesOnly names) (s : σ) (search : Bool) :
    CallsOnly names (formula.resolve s search).2 := by
  intro invocation hinvocation
  obtain ⟨f, hf, rfl⟩ := List.mem_map.1 hinvocation
  exact h f hf

end Cell

/-! ## Filters of a set -/

namespace Output

/-- A set has a filter for each of its names. -/
theorem FilterSet.exists_get? {set : FilterSet} {name : String} (h : name ∈ set.names) :
    ∃ filter, set.get? name = some filter ∧ (name, filter) ∈ set.entries := by
  obtain ⟨entry, hentry, rfl⟩ := List.mem_map.1 h
  have hfound : (set.entries.find? fun other => other.1 == entry.1).isSome = true :=
    List.find?_isSome.2 ⟨entry, hentry, beq_self_eq_true _⟩
  obtain ⟨found, hfind⟩ := Option.isSome_iff_exists.1 hfound
  have hname : found.1 = entry.1 := by simpa using List.find?_some hfind
  refine ⟨found.2, by rw [FilterSet.get?, hfind]; rfl, ?_⟩
  rw [← hname]
  exact List.mem_of_find?_eq_some hfind

/-- A cell that calls filters of a set only does not ask for another one. -/
theorem CellWrite.filtered_ne_unknown {set : FilterSet} {w : CellWrite}
    (hset : ∀ entry ∈ set.entries, ∀ value args name, entry.2 value args ≠ .error (.unknownFilter name))
    (hw : CallsOnly set.names w.filters) (name : String) :
    w.filtered set ≠ .error (.unknownFilter name) := by
  intro h
  obtain ⟨value, invocation, hinvocation, happly⟩ := exists_error_of_foldlM h
  obtain ⟨filter, hget, hmem⟩ := FilterSet.exists_get? (hw invocation hinvocation)
  simp only [FilterSet.apply, hget] at happly
  exact hset _ hmem value invocation.args name happly

end Output

/-! ## Groups -/

namespace Group

variable {names : List String}

/-- Are the filters of all cells in a row among those with some names? -/
def Row.CallsOnly (names : List String) (row : Row) : Prop :=
  ∀ c ∈ row.cells, Cell.CallsOnly names c.filters

/-- Cells put before rows bring their own filters, and only in the first row. -/
theorem callsOnly_of_mem_rowsBehind {cells : List RowCell} {rows : List Row}
    (hcells : ∀ c ∈ cells, CallsOnly names c.filters) (hrows : ∀ row ∈ rows, row.CallsOnly names)
    {row : Row} (h : row ∈ rowsBehind cells rows) : row.CallsOnly names := by
  cases rows with
  | nil => cases h
  | cons first later =>
      obtain ⟨hfirst, hlater⟩ := List.forall_mem_cons.1 hrows
      rcases List.mem_cons.1 h with rfl | h
      · intro c hc
        rcases List.mem_append.1 hc with hc | hc
        · exact hcells c hc
        · exact hfirst c hc
      · obtain ⟨row, hrow, rfl⟩ := List.mem_map.1 h
        intro c hc
        rcases List.mem_append.1 hc with hc | hc
        · obtain ⟨c, -, rfl⟩ := List.mem_map.1 hc
          exact callsOnly_nil
        · exact hlater row hrow c hc

/-- Are the filters of all cells of a tier among those with some names? -/
def Tier.UsesOnly (names : List String) (t : Tier) : Prop := ∀ c ∈ t.cells, c.formula.UsesOnly names

section Expand

variable {σ ν : Type} [Scope σ ν]

theorem Tier.UsesOnly.evaluate {t : Tier} (h : t.UsesOnly names) (s : σ) :
    ∀ c ∈ t.evaluate s, CallsOnly names c.filters := by
  intro c hc
  obtain ⟨cell, hcell, rfl⟩ := List.mem_map.1 hc
  exact (h cell hcell).callsOnly s false

theorem callsOnly_of_mem_expandNodes {tier : Tier} (htier : tier.UsesOnly names)
    {inner : σ → Expansion σ ν} (hinner : ∀ s, ∀ row ∈ (inner s).rows, row.CallsOnly names)
    (nodes : List ν) (s : σ) : ∀ row ∈ (expandNodes tier inner nodes s).rows, row.CallsOnly names := by
  induction nodes generalizing s with
  | nil => exact nofun
  | cons node nodes ih =>
      intro row hrow
      rcases List.mem_append.1 hrow with hrow | hrow
      · exact callsOnly_of_mem_rowsBehind (htier.evaluate _) (hinner _) hrow
      · exact ih _ row hrow

/-- The filters in the rows of tiers are those of their cells. -/
theorem callsOnly_of_mem_expandTiers {tiers : List Tier} (h : ∀ t ∈ tiers, t.UsesOnly names) (s : σ) :
    ∀ row ∈ (expandTiers tiers s).rows, row.CallsOnly names := by
  induction tiers generalizing s with
  | nil =>
      intro row hrow
      obtain rfl := List.mem_singleton.1 hrow
      exact nofun
  | cons tier inner ih =>
      obtain ⟨htier, hinner⟩ := List.forall_mem_cons.1 h
      simp only [expandTiers]
      split
      · -- a placeholder has no filters at all
        intro row hrow c hc
        obtain rfl := List.mem_singleton.1 hrow
        obtain ⟨cell, -, rfl⟩ := List.mem_map.1 hc
        exact callsOnly_nil
      · exact callsOnly_of_mem_expandNodes htier (fun s => ih hinner s) _ s

/-- Are the filters of all cells of a block among those with some names? -/
def Block.UsesOnly (names : List String) (b : Block) : Prop :=
  ∀ c ∈ b.nesting.cells, c.formula.UsesOnly names

theorem Block.UsesOnly.rows {b : Block} (h : b.UsesOnly names) (s : σ) :
    ∀ row ∈ (b.rows s).1, row.CallsOnly names := by
  rw [Block.rows, Walk.drain_ofTiers]
  refine callsOnly_of_mem_expandTiers (fun t ht c hc => ?_) s
  exact h c (List.mem_flatMap.2 ⟨t, ht, hc⟩)

end Expand

end Group

namespace Template

open SheetFill.Group Output

variable {names : List String}

/-! ## Sheets -/

/-- The filters that a group writes are those of its rows. -/
theorem callsOnly_of_mem_keptWrites {b : Block} {top : Nat} {rows : List Row}
    (h : ∀ row ∈ rows, row.CallsOnly names) :
    ∀ w ∈ keptWrites .unbounded b top (kept b rows), CallsOnly names w.filters := by
  intro w hw
  obtain ⟨⟨row, k⟩, hk, hw⟩ := List.mem_flatMap.1 hw
  have hrow : row ∈ rows := mem_of_mem_kept (List.fst_mem_of_mem_zipIdx hk)
  obtain hnumber | ⟨c, hc, -, hfilters⟩ := value_of_mem_keptRow hw
  · rw [hnumber]
    exact callsOnly_nil
  · rw [hfilters]
    exact h row hrow c hc

/-- Are the filters of all cells of a plan among those with some names? -/
structure SheetPlan.UsesOnly (names : List String) (t : SheetPlan) : Prop where
  flat : ∀ c ∈ t.flat, c.formula.UsesOnly names
  groups : ∀ b ∈ t.groups, b.UsesOnly names

section Fill

variable {σ ν : Type} [Scope σ ν]

/-- The filters in an output sheet are those of the plan. -/
theorem SheetPlan.UsesOnly.fill {t : SheetPlan} (ht : t.UsesOnly names) {multiple : Bool} {s : σ}
    {sheet : Sheet} (h : (t.fill multiple s).1 = .ok sheet) :
    ∀ w ∈ sheet.cells, CallsOnly names w.filters := by
  rw [t.cells_of_fill h]
  refine List.forall_mem_append.2 ⟨?_, fun w hw => ?_⟩
  · exact Draft.forall_mem_addBlocks
      (fun b hb s _ => callsOnly_of_mem_keptWrites ((ht.groups b hb).rows s)) (List.forall_mem_nil _) s
  · obtain ⟨c, hc, rfl⟩ := List.mem_map.1 hw
    exact (ht.flat c hc).callsOnly _ true

end Fill

/-! ## Templates that were read -/

/-- The cells of a sheet that can be read have known filters only. -/
theorem usesOnly_of_formula? {settings : Settings} (hknown : settings.knownFilters = some names)
    {c : RawCell} (hc : c.Readable settings) {f : PlacedFormula} (hf : c.formula? settings = some f) :
    f.formula.UsesOnly names := by
  unfold RawCell.formula? at hf
  split at hf
  · cases hf
  · next hblank =>
      rcases hc with hc | ⟨formula, hparse, hfilters⟩
      · exact absurd hc hblank
      · rw [hparse] at hf
        dsimp only at hf
        split at hf
        · cases hf
        · cases hf
          exact hfilters names hknown

theorem SheetPlan.usesOnly_of_ofRaw? {settings : Settings} (hknown : settings.knownFilters = some names)
    {index : Nat} {raw : RawSheet} {plan : SheetPlan}
    (h : SheetPlan.ofRaw? settings index raw = .ok plan) : plan.UsesOnly names := by
  obtain ⟨-, -, hread, -, -⟩ := SheetPlan.ofRaw?_eq_ok_iff.1 h
  obtain ⟨hgroups, hflat⟩ := SheetPlan.groupOf_of_ofRaw? h
  have hformulas : ∀ c ∈ raw.formulas settings, c.formula.UsesOnly names := by
    intro c hc
    obtain ⟨cell, hcell, hformula⟩ := List.mem_filterMap.1 hc
    have hmem : cell ∈ raw.cells := (Order.perm_inOrder _ _).mem_iff.1 hcell
    exact usesOnly_of_formula? hknown (hread cell hmem) hformula
  refine ⟨fun c hc => ?_, fun b hb c hc => ?_⟩
  · rw [hflat] at hc
    exact hformulas c (List.mem_of_mem_filter hc)
  · obtain ⟨bounds, hbounds⟩ := hgroups b hb
    have hstart := List.mem_of_mem_filter (hbounds.nesting.mem_iff.1 hc)
    exact hformulas c (mem_startsIn_iff.1 hstart).1

/-! ## Workbooks -/

/-- Names change no cell of a sheet. -/
theorem map_cells_nameSheets (sheets : List Sheet) (given : SheetNames) :
    (Plan.nameSheets sheets given).map Sheet.cells = sheets.map Sheet.cells := by
  induction sheets generalizing given with
  | nil => rfl
  | cons sheet sheets ih => simp [Plan.nameSheets, ih]

section Fill

variable {σ ν : Type} [Scope σ ν]

/-- Sheets keep their cells when they are given names. -/
theorem Filling.exists_cells_of_mem_named {f : Filling ν} {items : List (Except FillError Sheet)}
    {sheet : Sheet} (h : .ok sheet ∈ f.named items) :
    ∃ sheet', .ok sheet' ∈ items ∧ sheet'.cells = sheet.cells := by
  rw [named] at h
  split at h
  · have hmem : nameless (.ok sheet) ∈ items.map nameless := by
      rw [← map_nameless_nameItems f.names]
      exact List.mem_map_of_mem h
    obtain ⟨item, hitem, heq⟩ := List.mem_map.1 hmem
    cases item with
    | error e => cases heq
    | ok sheet' =>
        have hcells : (nameless (.ok sheet')).map Sheet.cells = (nameless (.ok sheet)).map Sheet.cells :=
          congrArg (Except.map Sheet.cells) heq
        exact ⟨sheet', hitem, Except.ok.inj hcells⟩
  · exact ⟨sheet, h, rfl⟩

variable {p : Plan} (hp : ∀ plan ∈ p.sheets, plan.UsesOnly names)

include hp

/-- The filters in the output sheets of a workbook are those of its template. -/
theorem Plan.callsOnly_of_mem_fill {s : σ} {sheet : Sheet} (h : .ok sheet ∈ (p.fill s).1) :
    ∀ w ∈ sheet.cells, CallsOnly names w.filters := by
  rw [Plan.fill, Filling.drain_eq_turns] at h
  obtain ⟨sheet', hitem, hcells⟩ := Filling.exists_cells_of_mem_named h
  obtain ⟨t, ht, hfill⟩ := List.mem_map.1 hitem
  rw [← hcells]
  exact (hp t.plan (Filling.plan_mem_of_mem_turns_ofPlan ht)).fill hfill

omit hp in
theorem SheetPlan.UsesOnly.fillNodes {plan : SheetPlan} (hplan : plan.UsesOnly names)
    (location : String) (nodes : List ν) {s : σ} {sheets : List Sheet}
    (h : Plan.fillNodes plan location nodes s = .ok sheets) :
    ∀ sheet ∈ sheets, ∀ w ∈ sheet.cells, CallsOnly names w.filters := by
  induction nodes generalizing s sheets with
  | nil =>
      cases h
      exact nofun
  | cons node nodes ih =>
      simp only [Plan.fillNodes] at h
      split at h
      · cases h
      · next first hfirst =>
          cases hrest : Plan.fillNodes plan location nodes (Filling.fillNode ⟨plan, location, node⟩ s).2 with
          | error e =>
              rw [hrest] at h
              cases h
          | ok rest =>
              rw [hrest] at h
              cases h
              exact List.forall_mem_cons.2 ⟨hplan.fill hfirst, ih hrest⟩

omit hp in
theorem SheetPlan.UsesOnly.fillSheet {plan : SheetPlan} (hplan : plan.UsesOnly names) {s : σ}
    {sheets : List Sheet} (h : Plan.fillSheet plan s = .ok sheets) :
    ∀ sheet ∈ sheets, ∀ w ∈ sheet.cells, CallsOnly names w.filters := by
  unfold Plan.fillSheet at h
  split at h
  · cases hfill : (plan.fill false s).1 with
    | error e =>
        rw [hfill] at h
        cases h
    | ok sheet =>
        rw [hfill] at h
        cases h
        exact List.forall_mem_singleton.2 (hplan.fill hfill)
  · exact hplan.fillNodes _ _ h

/-- So are those of its plans filled apart. -/
theorem Plan.callsOnly_of_mem_fillApart {s : σ} {sheets : List Sheet} (h : p.fillApart s = .ok sheets) :
    ∀ sheet ∈ sheets, ∀ w ∈ sheet.cells, CallsOnly names w.filters := by
  obtain ⟨parts, hparts, h⟩ := bind_eq_ok_iff.1 h
  have hall : ∀ cells ∈ parts.flatten.map Sheet.cells, ∀ w ∈ cells, CallsOnly names w.filters := by
    intro cells hcells
    obtain ⟨sheet, hsheet, rfl⟩ := List.mem_map.1 hcells
    obtain ⟨part, hpart, hsheet⟩ := List.mem_flatten.1 hsheet
    obtain ⟨result, hresult, hfill⟩ := exists_of_mem_mapM hparts hpart
    obtain ⟨plan, hplan, rfl⟩ := List.mem_map.1 hresult
    exact (hp plan hplan).fillSheet hfill sheet hsheet
  have hcells : sheets.map Sheet.cells = parts.flatten.map Sheet.cells := by
    obtain rfl := Except.ok.inj h
    split
    · exact map_cells_nameSheets parts.flatten .empty
    · rfl
  intro sheet hsheet
  exact hall sheet.cells (hcells ▸ List.mem_map_of_mem hsheet)

end Fill

/--
If the known filters are those of a set, the set has a filter for every invocation in an output sheet, in
whatever scope, and whether the plans of a workbook are filled one after the other or apart. The filters of
the set are taken not to report an unknown filter on their own account.
-/
theorem Plan.fill_knows_filters {σ ν : Type} [Scope σ ν] {set : FilterSet} {settings : Settings}
    (hknown : settings.knownFilters = some set.names) {raws : List RawSheet} {p : Plan}
    (hp : Plan.ofRaw? settings raws = .ok p)
    (hset : ∀ entry ∈ set.entries, ∀ value args name, entry.2 value args ≠ .error (.unknownFilter name))
    (s : σ) :
    (∀ sheet, .ok sheet ∈ (p.fill s).1 →
        ∀ w ∈ sheet.cells, ∀ name, w.filtered set ≠ .error (.unknownFilter name)) ∧
      ∀ sheets, p.fillApart s = .ok sheets → ∀ sheet ∈ sheets,
        ∀ w ∈ sheet.cells, ∀ name, w.filtered set ≠ .error (.unknownFilter name) := by
  have hplans : ∀ plan ∈ p.sheets, plan.UsesOnly set.names := by
    intro plan hplan
    obtain ⟨i, raw, hraw⟩ := Plan.exists_ofRaw?_of_mem hp hplan
    exact SheetPlan.usesOnly_of_ofRaw? hknown hraw
  refine ⟨fun sheet hsheet w hw => ?_, fun sheets hsheets sheet hsheet w hw => ?_⟩
  · exact CellWrite.filtered_ne_unknown hset (Plan.callsOnly_of_mem_fill hplans hsheet w hw)
  · exact CellWrite.filtered_ne_unknown hset
      (Plan.callsOnly_of_mem_fillApart hplans hsheets sheet hsheet w hw)

/-- Two filters are known, and the cells of two people and a title call them. -/
theorem Plan.fill_knows_filters_staff :
    let set := (FilterSet.empty.register "wrap" Filter.wrap).register "upper" Filter.upperCase
    let settings : Settings := { Settings.default with knownFilters := some set.names }
    let raws : List RawSheet :=
      [{ name := "Staff"
         cells := [⟨⟨0, 0⟩, "$firm.title$~upper()"⟩, ⟨⟨1, 0⟩, "#staff.name#~wrap(<, $firm.mark$)~upper()"⟩,
           ⟨⟨2, 0⟩, "#end#"⟩, ⟨⟨2, 1⟩, "since 1901~wrap()"⟩] }]
    let document := Json.Document.ofValue (.object [
      ("firm", .object [("title", .string "North"), ("mark", .string ">")]),
      ("staff", .array [.object [("name", .string "Ada")]])])
    ∃ p sheet, settings.knownFilters = some set.names ∧ Plan.ofRaw? settings raws = .ok p ∧
      (∀ entry ∈ set.entries, ∀ value args name,
        entry.2 value args ≠ .error (.unknownFilter name)) ∧
      p.fillApart document = .ok [sheet] ∧
      sheet.cells.map (fun w => w.filters.map (·.name)) = [["wrap", "upper"], ["upper"], ["wrap"]] ∧
      ∀ w ∈ sheet.cells, ∀ name, w.filtered set ≠ .error (.unknownFilter name) := by
  intro set settings raws document
  let title : Body := ⟨"$firm.title$", [.slot ⟨.plain, "firm.title", ⟨"firm", "title"⟩, []⟩]⟩
  let mark : Body := ⟨"$firm.mark$", [.slot ⟨.plain, "firm.mark", ⟨"firm", "mark"⟩, []⟩]⟩
  let person : Body := ⟨"#staff.name#", [.slot ⟨.group, "staff.name", ⟨"staff", "name"⟩, []⟩]⟩
  let plan : SheetPlan :=
    { index := 0, name := ⟨"Staff", [.literal "Staff"]⟩
      flat := [⟨⟨0, 0⟩, ⟨title, [⟨"upper", []⟩]⟩⟩,
        ⟨⟨2, 1⟩, ⟨⟨"since 1901", [.literal "since 1901"]⟩, [⟨"wrap", []⟩]⟩⟩]
      groups := [⟨1, 2, 0, .fixed, none, ⟨[⟨"staff", [⟨⟨1, 0⟩,
        ⟨person, [⟨"wrap", [⟨"<", [.literal "<"]⟩, mark]⟩, ⟨"upper", []⟩]⟩⟩]⟩]⟩⟩] }
  let sheet : Sheet :=
    { name := "Staff", templateIndex := 0, multiple := false, preparations := plan.clearings
      cells := [⟨1, 0, 1, 0, "Ada", some 1, [⟨"wrap", ["<", ">"]⟩, ⟨"upper", []⟩]⟩,
        ⟨0, 0, 0, 0, "North", none, [⟨"upper", []⟩]⟩, ⟨2, 1, 2, 1, "since 1901", none, [⟨"wrap", []⟩]⟩] }
  have hp : Plan.ofRaw? settings raws = .ok ⟨[plan], true⟩ := by decide +kernel
  have hset : ∀ entry ∈ set.entries, ∀ value args name,
      entry.2 value args ≠ .error (.unknownFilter name) := by
    intro entry hentry value args name
    rcases List.mem_cons.1 hentry with rfl | hentry
    · nofun
    · obtain rfl := List.mem_singleton.1 hentry
      nofun
  have hfill : (⟨[plan], true⟩ : Plan).fillApart document = .ok [sheet] := by
    have hsheet : Plan.fillSheet plan document = .ok [sheet] := by
      simp only [plan, Plan.fillSheet, SheetPlan.fill, SheetPlan.fillWith, SheetPlan.draft,
      Draft.addBlocks, Draft.addBlock_expand]
      decide +kernel
    rw [Plan.fillApart, Plan.fillConcurrently, List.map_singleton, hsheet]
    decide +kernel
  have hfound := (Plan.fill_knows_filters rfl hp hset document).2 [sheet] hfill sheet
    (List.mem_singleton_self _)
  exact ⟨_, sheet, rfl, hp, hset, hfill, rfl, hfound⟩

end Template

end SheetFill

import Mathlib.Data.List.Forall2
import SheetFill.Proofs.Json.Scalars
import SheetFill.Proofs.Template.KeptRows
import SheetFill.Proofs.Template.Siblings
import SheetFill.Template.Parameters
import SheetFill.Template.Reading

/-!
# What cells outside groups read of the parameters

The values that a caller passes besides the data proper are members of one object at the top of the document.
A cell outside groups reads a member of it if one of its alternatives asks for the member at the location of
the object. How the location is spelled does not matter then, for slashes count for nothing at its ends, nor
do at signs before the key, unless the object has a member that is spelled with them. Nothing else that the
document is asked for sees the members: not the nodes that sheets and groups are made for, nor the texts found
at other locations. So two documents that differ in other parameters have the same cells outside groups, in
whatever rows these end up.

The direct parameters of a plan are the keys that stand at the location as it is spelled. Some of the members
read are missing there, if the location or the key are not spelled plainly.

## Main definitions

* `readNames`, `Plan.parametersRead` — the names of the parameters that cells outside groups may read.
* `Plan.SpellsParameters` — all of these are spelled plainly.
* `Sheet.flatContents` — the cells outside groups in an output sheet.
* `FlatAlike` — output sheets with the same cells outside groups.

## Main results

* `Plan.mem_parameters_iff` — the direct parameters.
* `SheetPlan.flatContents_fill` — the cells outside groups take no notice of the groups.
* `Plan.fill_parameters` — they depend on the parameters read, and on no others.
-/

namespace SheetFill

open Cell Json Json.Document Json.Value

/-! ## Parameters -/

namespace Template

/-- The names of the parameters that an alternative may read. -/
def readNames (a : Alternative) : List String :=
  if segments a.location = [parameterLocation] ∧ a.isSelf = false then keyNames a.key else []

/-- The names of the parameters that the cells outside groups may read. -/
def Plan.parametersRead (p : Plan) : List String :=
  (p.sheets.flatMap (·.flat)).flatMap fun c => c.formula.alternatives.flatMap readNames

/-- Is the location of the parameters spelled plainly in all cells outside groups, and no key with an at sign? -/
def Plan.SpellsParameters (p : Plan) : Prop :=
  ∀ c ∈ p.sheets.flatMap (·.flat), ∀ a ∈ c.formula.alternatives, a.isSelf = false →
    segments a.location = [parameterLocation] →
      a.location = parameterLocation ∧ a.key.toList.head? ≠ some '@'

theorem parametersOf_eq (f : Formula) : parametersOf f = f.alternatives.filterMap parameter? := by
  simp only [parametersOf, Formula.alternatives, List.flatMap_cons, List.flatMap_append,
    List.flatMap_assoc]
  rfl

theorem parameter?_eq_some_iff {a : Alternative} {name : String} :
    parameter? a = some name ↔ (a.location = parameterLocation ∧ a.isSelf = false) ∧ a.key = name := by
  rw [parameter?]
  split
  · next h => simp [h]
  · next h => simp [h]

/-- The direct parameters are the keys that cells outside groups have at the location as it is spelled. -/
theorem Plan.mem_parameters_iff {p : Plan} {name : String} :
    name ∈ p.parameters ↔ ∃ c ∈ p.sheets.flatMap (·.flat), ∃ a ∈ c.formula.alternatives,
      (a.location = parameterLocation ∧ a.isSelf = false) ∧ a.key = name := by
  rw [Plan.parameters, List.mem_eraseDups, (Order.perm_inOrder _ _).mem_iff]
  simp only [List.mem_flatMap, parametersOf_eq, List.mem_filterMap, parameter?_eq_some_iff]

theorem Plan.mem_parametersRead_iff {p : Plan} {name : String} :
    name ∈ p.parametersRead ↔ ∃ c ∈ p.sheets.flatMap (·.flat), ∃ a ∈ c.formula.alternatives,
      name ∈ readNames a := by
  simp only [Plan.parametersRead, List.mem_flatMap]

theorem mem_readNames_iff {a : Alternative} {name : String} :
    name ∈ readNames a ↔
      (segments a.location = [parameterLocation] ∧ a.isSelf = false) ∧ name ∈ keyNames a.key := by
  rw [readNames]
  split
  · next h => simp [h]
  · next h => simp [h]

/-- Direct parameters are read. -/
theorem Plan.parameters_subset_parametersRead (p : Plan) : p.parameters ⊆ p.parametersRead := by
  intro name hname
  obtain ⟨c, hc, a, ha, ⟨hlocation, hself⟩, rfl⟩ := Plan.mem_parameters_iff.1 hname
  refine Plan.mem_parametersRead_iff.2 ⟨c, hc, a, ha, mem_readNames_iff.2 ⟨⟨?_, hself⟩, ?_⟩⟩
  · rw [hlocation]
    decide
  · exact List.mem_cons_self

/-- A key without at signs in front has one name. -/
theorem eq_of_mem_keyNames {key name : String} (hkey : key.toList.head? ≠ some '@')
    (h : name ∈ keyNames key) : name = key := by
  have hdrop : key.toList.dropWhile (· == '@') = key.toList := by
    cases hchars : key.toList with
    | nil => rfl
    | cons c cs =>
        have hc : ¬ c = '@' := fun heq => hkey (by rw [hchars, heq, List.head?_cons])
        simp [hc]
  rw [keyNames, hdrop, String.ofList_toList] at h
  simpa using h

/-- Parameters that are spelled plainly are direct parameters. -/
theorem Plan.SpellsParameters.parametersRead_subset {p : Plan} (h : p.SpellsParameters) :
    p.parametersRead ⊆ p.parameters := by
  intro name hname
  obtain ⟨c, hc, a, ha, hname⟩ := Plan.mem_parametersRead_iff.1 hname
  obtain ⟨⟨hlocation, hself⟩, hname⟩ := mem_readNames_iff.1 hname
  obtain ⟨hplain, hkey⟩ := h c hc a ha hself hlocation
  exact Plan.mem_parameters_iff.2 ⟨c, hc, a, ha, ⟨hplain, hself⟩, (eq_of_mem_keyNames hkey hname).symm⟩

end Template

/-! ## Cells outside groups -/

/-- The cells of an output sheet that are outside groups: their places in the template, values and filters. -/
def Output.Sheet.flatContents (sheet : Output.Sheet) :
    List (Coordinate × String × List FilterInvocation) :=
  (sheet.cells.filter fun w => w.refRow.isNone).map fun w =>
    (⟨w.templateRow, w.templateCol⟩, w.value, w.filters)

namespace Template

open SheetFill.Group Output

/-- All cells of a draft that is made of groups belong to a group. -/
theorem Draft.refRow_of_mem_addBlocks {σ ν : Type} [Scope σ ν] (blocks : List Block) {d : Draft}
    (hd : ∀ w ∈ d.cells, w.refRow ≠ none) (s : σ) :
    ∀ w ∈ (addBlocks .unbounded blocks d s).2.1.cells, w.refRow ≠ none := by
  refine forall_mem_addBlocks (fun b _ s top w hw => ?_) hd s
  obtain ⟨⟨row, k⟩, -, hw⟩ := List.mem_flatMap.1 hw
  exact (row_of_mem_keptRow hw).2

/-- Of the cells of a sheet, those outside groups are the ones that were written last. -/
theorem filter_append_flatWrites {cells : List CellWrite} (hcells : ∀ w ∈ cells, w.refRow ≠ none)
    (shifts : RowShifts) (d : Document) (flat : List PlacedFormula) :
    (cells ++ flat.map (flatWrite .unbounded shifts d)).filter (fun w => w.refRow.isNone) =
      flat.map (flatWrite .unbounded shifts d) := by
  have hgroups : cells.filter (fun w => w.refRow.isNone) = [] :=
    List.filter_eq_nil_iff.2 fun w hw hnone => hcells w hw (Option.isNone_iff_eq_none.1 hnone)
  have hflat : (flat.map (flatWrite .unbounded shifts d)).filter (fun w => w.refRow.isNone) =
      flat.map (flatWrite .unbounded shifts d) := by
    refine List.filter_eq_self.2 fun w hw => ?_
    obtain ⟨c, -, rfl⟩ := List.mem_map.1 hw
    rfl
  rw [List.filter_append, hgroups, hflat, List.nil_append]

/-- The cells outside groups in an output sheet are those of the plan, whatever the groups are. -/
theorem SheetPlan.flatContents_fill (plan : SheetPlan) (multiple : Bool) {d : Document}
    (h : d.WellFormed) (hbacked : d.env.Backed) {sheet : Sheet}
    (hfill : (plan.fill multiple d).1 = .ok sheet) :
    sheet.flatContents = plan.flat.map fun c => (c.position, c.formula.resolve d true) := by
  have hlater := Draft.addBlocks_later plan.groups plan.draft h hbacked
  have hgroups := Draft.refRow_of_mem_addBlocks plan.groups (d := plan.draft) (List.forall_mem_nil _) d
  rw [Sheet.flatContents, plan.cells_of_fill hfill, filter_append_flatWrites hgroups, List.map_map]
  refine List.map_congr_left fun c _ => ?_
  have hsame : SameAnswers c.formula.alternatives
      (Draft.addBlocks .unbounded plan.groups plan.draft d).2.2 d := by
    intro a _ _ search
    rw [sameTexts_env, hlater.env_eq, ← sameTexts_env]
  show (c.position, c.formula.resolve (Draft.addBlocks .unbounded plan.groups plan.draft d).2.2 true) = _
  rw [Formula.resolve_of_sameAnswers hsame]

/-- Items with the same cells outside groups, if both are output sheets. -/
def FlatAlike (item item' : Except FillError Sheet) : Prop :=
  ∀ sheet sheet', item = .ok sheet → item' = .ok sheet' → sheet'.flatContents = sheet.flatContents

/-! ## Documents with other parameters -/

section Differ

variable {free : String → Prop} {root root' : Value}

/-- Requests that read no free parameter are answered alike, whatever the free parameters are. -/
theorem sameAnswers_of_differUnder {d d' : Document}
    (h : DifferUnder parameterLocation free d.env.root d'.env.root) (hnodes : d'.env.node? = d.env.node?)
    (htraced : d.env.Traced) {alternatives : List Alternative}
    (hread : ∀ a ∈ alternatives, ∀ name ∈ readNames a, ¬ free name) : SameAnswers alternatives d' d := by
  intro a ha hself search
  rw [sameTexts_env d' a.location, sameTexts_env d a.location]
  refine h.textAt_eq hnodes htraced (fun hlocation name hname => ?_) search
  exact hread a ha name (mem_readNames_iff.2 ⟨⟨hlocation, hself⟩, hname⟩)

/-- One output sheet, in two documents in which the same nodes are bound. -/
theorem SheetPlan.flatAlike_fill {plan : SheetPlan}
    (hread : ∀ c ∈ plan.flat, ∀ a ∈ c.formula.alternatives, ∀ name ∈ readNames a, ¬ free name)
    (multiple : Bool) {d d' : Document} (hd : d.WellFormed) (hd' : d'.WellFormed)
    (hbacked : d.env.Backed) (hbacked' : d'.env.Backed)
    (h : DifferUnder parameterLocation free d.env.root d'.env.root) (hnodes : d'.env.node? = d.env.node?)
    (htraced : d.env.Traced) : FlatAlike (plan.fill multiple d).1 (plan.fill multiple d').1 := by
  intro sheet sheet' hsheet hsheet'
  rw [plan.flatContents_fill multiple hd hbacked hsheet,
    plan.flatContents_fill multiple hd' hbacked' hsheet']
  refine List.map_congr_left fun c hc => ?_
  rw [Formula.resolve_of_sameAnswers (sameAnswers_of_differUnder h hnodes htraced (hread c hc)) true]

/-- The output sheets of a plan are made for the same nodes, and have the same cells outside groups. -/
theorem SheetPlan.forall₂_itemsApart {plan : SheetPlan}
    (hread : ∀ c ∈ plan.flat, ∀ a ∈ c.formula.alternatives, ∀ name ∈ readNames a, ¬ free name)
    (h : DifferUnder parameterLocation free root root') :
    List.Forall₂ FlatAlike (plan.itemsApart root) (plan.itemsApart root') := by
  unfold SheetPlan.itemsApart
  cases plan.nameLocation? with
  | none =>
      refine .cons ?_ .nil
      exact flatAlike_fill hread false (wellFormed_ofValue root) (wellFormed_ofValue root')
        (Environment.backed_ofValue root) (Environment.backed_ofValue root') h rfl
        (Environment.traced_ofValue root)
  | some location =>
      have hsame := h.nodes_eq location
      simp only [hsame]
      refine List.forall₂_map_left_iff.2 (List.forall₂_map_right_iff.2 (List.forall₂_same.2 ?_))
      intro node hnode
      have hne := List.ne_nil_of_mem hnode
      obtain ⟨hd, hbacked, henv⟩ := entered_ofValue hne node
      obtain ⟨hd', hbacked', henv'⟩ := entered_ofValue (hsame ▸ hne) node
      rw [nodes_ofValue] at hnode
      refine flatAlike_fill hread true hd hd' hbacked hbacked' ?_ ?_ ?_
      · rw [henv, henv']
        exact h
      · rw [henv, henv']
        rfl
      · rw [henv]
        exact Environment.traced_enter hnode

theorem Plan.forall₂_itemsApart {p : Plan} (hfree : ∀ name ∈ p.parametersRead, ¬ free name)
    (h : DifferUnder parameterLocation free root root') :
    List.Forall₂ FlatAlike (p.itemsApart root) (p.itemsApart root') := by
  have hplans : ∀ plans ⊆ p.sheets, List.Forall₂ FlatAlike
      (plans.flatMap fun plan => plan.itemsApart root)
      (plans.flatMap fun plan => plan.itemsApart root') := by
    intro plans hsub
    induction plans with
    | nil => exact .nil
    | cons plan plans ih =>
        obtain ⟨hplan, hsub⟩ := List.cons_subset.1 hsub
        rw [List.flatMap_cons, List.flatMap_cons]
        refine List.rel_append (plan.forall₂_itemsApart (fun c hc a ha name hname => ?_) h) (ih hsub)
        refine hfree name (Plan.mem_parametersRead_iff.2 ⟨c, ?_, a, ha, hname⟩)
        exact List.mem_flatMap.2 ⟨plan, hplan, hc⟩
  exact hplans p.sheets (List.Subset.refl _)

end Differ

/-! ## Workbooks -/

/-- Names make no difference to the cells of a sheet. -/
theorem flatAlike_nameless_iff {item item' : Except FillError Sheet} :
    FlatAlike (nameless item) (nameless item') ↔ FlatAlike item item' := by
  cases item with
  | error e => exact ⟨fun _ => nofun, fun _ => nofun⟩
  | ok sheet =>
      cases item' with
      | error e => exact ⟨fun _ _ _ _ => nofun, fun _ _ _ _ => nofun⟩
      | ok sheet' =>
          constructor
          · rintro h _ _ ⟨⟩ ⟨⟩
            exact h { sheet with name := "" } { sheet' with name := "" } rfl rfl
          · rintro h _ _ ⟨⟩ ⟨⟩
            exact h sheet sheet' rfl rfl

/--
The output sheets of a workbook in two documents that differ in parameters which no cell outside a group reads
come for the same plans and nodes, in the same order, and have the same cells outside groups wherever both do
not fail. All direct parameters are read; and if the cells spell the parameters plainly, no other ones are, so
that two documents that differ in no direct parameter have the same cells outside groups.
-/
theorem Plan.fill_parameters (p : Plan) (root root' : Value) :
    (DifferUnder parameterLocation (fun name => name ∉ p.parametersRead) root root' →
        List.Forall₂ FlatAlike (p.fill (ofValue root)).1 (p.fill (ofValue root')).1) ∧
      p.parameters ⊆ p.parametersRead ∧
      (p.SpellsParameters → DifferUnder parameterLocation (fun name => name ∉ p.parameters) root root' →
        List.Forall₂ FlatAlike (p.fill (ofValue root)).1 (p.fill (ofValue root')).1) := by
  have hfill {free : String → Prop} (hfree : ∀ name ∈ p.parametersRead, ¬ free name)
      (h : DifferUnder parameterLocation free root root') :
      List.Forall₂ FlatAlike (p.fill (ofValue root)).1 (p.fill (ofValue root')).1 := by
    have hitems := Plan.forall₂_itemsApart hfree h
    have hnameless : List.Forall₂ FlatAlike ((p.fill (ofValue root)).1.map nameless)
        ((p.fill (ofValue root')).1.map nameless) := by
      rw [p.map_nameless_fill, p.map_nameless_fill]
      refine List.forall₂_map_left_iff.2 (List.forall₂_map_right_iff.2 (hitems.imp fun _ _ halike => ?_))
      exact flatAlike_nameless_iff.2 halike
    refine (List.forall₂_map_right_iff.1 (List.forall₂_map_left_iff.1 hnameless)).imp fun _ _ halike => ?_
    exact flatAlike_nameless_iff.1 halike
  refine ⟨hfill fun name hname hfree => hfree hname, p.parameters_subset_parametersRead, fun hplain => ?_⟩
  exact hfill fun name hname hfree => hfree (hplain.parametersRead_subset hname)

/-- A note names the sheet and stands in a group; the title and its width are the only direct parameters. -/
theorem Plan.fill_parameters_report :
    let raws : List RawSheet :=
      [{ name := "$g.note$"
         cells := [⟨⟨0, 0⟩, "$g.title$~pad($g.width$)"⟩, ⟨⟨1, 0⟩, "#staff.name | g.note#"⟩,
           ⟨⟨2, 0⟩, "#grow#"⟩] }]
    let report (note : Value) := Value.object
      [("g", .object [("note", note), ("title", .string "North"), ("width", .string "8")]),
       ("staff", .array [.object [("name", .string "Ada")], .object [("name", .string "Ben")]])]
    ∃ p sheet, Plan.ofRaw? .default raws = .ok p ∧ p.parameters = ["title", "width"] ∧
      p.SpellsParameters ∧
      DifferUnder parameterLocation (fun name => name ∉ p.parametersRead) (report (.string "draft"))
        (report (.bool true)) ∧
      List.Forall₂ FlatAlike (p.fill (ofValue (report (.string "draft")))).1
        (p.fill (ofValue (report (.bool true)))).1 ∧
      (p.fill (ofValue (report (.bool true)))).1 = [.ok sheet] ∧
      sheet.flatContents = [(⟨0, 0⟩, "North", [⟨"pad", ["8"]⟩])] := by
  intro raws report
  let reference (mode : Mode) (source location key : String) : Part :=
    .slot ⟨mode, source, ⟨location, key⟩, []⟩
  let title : Formula :=
    ⟨⟨"$g.title$", [reference .plain "g.title" "g" "title"]⟩,
      [⟨"pad", [⟨"$g.width$", [reference .plain "g.width" "g" "width"]⟩]⟩]⟩
  let person : Body :=
    ⟨"#staff.name | g.note#", [.slot ⟨.group, "staff.name | g.note", ⟨"staff", "name"⟩, [⟨"g", "note"⟩]⟩]⟩
  let plan : SheetPlan :=
    { index := 0, name := ⟨"$g.note$", [reference .plain "g.note" "g" "note"]⟩, flat := [⟨⟨0, 0⟩, title⟩]
      groups := [⟨1, 2, 0, .grow, none, ⟨[⟨"staff", [⟨⟨1, 0⟩, ⟨person, []⟩⟩]⟩]⟩⟩] }
  let p : Plan := ⟨[plan], true⟩
  let sheet : Sheet :=
    { name := "true", templateIndex := 0, multiple := true
      preparations := plan.clearings ++ [.insertRows 2 1 3]
      cells := [⟨1, 0, 1, 0, "Ada", some 1, []⟩, ⟨2, 0, 2, 0, "Ben", some 2, []⟩,
        ⟨0, 0, 0, 0, "North", none, [⟨"pad", ["8"]⟩]⟩] }
  have hp : Plan.ofRaw? .default raws = .ok p := by decide +kernel
  have hplain : p.SpellsParameters := by
    unfold Plan.SpellsParameters
    decide +kernel
  have hnote : "note" ∉ p.parametersRead := by decide +kernel
  have hdiffer : DifferUnder parameterLocation (fun name => name ∉ p.parametersRead)
      (report (.string "draft")) (report (.bool true)) := by
    refine .inr ⟨_, _, rfl, rfl, .cons ⟨rfl, .inr ⟨rfl, _, _, rfl, rfl, ?_⟩⟩ ?_⟩
    · exact .cons ⟨rfl, .inr ⟨hnote, rfl, rfl⟩⟩ (List.forall₂_same.2 fun _ _ => ⟨rfl, .inl rfl⟩)
    · exact List.forall₂_same.2 fun _ _ => ⟨rfl, .inl rfl⟩
  have hsheet : plan.itemsApart (report (.bool true)) = [.ok sheet] := by
    simp only [plan, SheetPlan.itemsApart, Scope.within, SheetPlan.fill, SheetPlan.fillWith, SheetPlan.draft,
      Draft.addBlocks, Draft.addBlock_expand]
    decide +kernel
  have hitems : p.namedApart (report (.bool true)) = [.ok sheet] := by
    simp only [p, Plan.namedApart, Plan.itemsApart, List.flatMap_singleton, hsheet]
    decide +kernel
  have hfill : (p.fill (ofValue (report (.bool true)))).1 = [.ok sheet] :=
    (Filling.drain_eq (p.between_ofPlan _)).trans hitems
  exact ⟨p, sheet, hp, by decide +kernel, hplain, hdiffer, (p.fill_parameters _ _).1 hdiffer, hfill, rfl⟩

/-- A parameter that is read behind a slash is no direct parameter. -/
theorem Plan.parameters_miss_slash :
    let raw : RawSheet := ⟨"S", [⟨⟨0, 0⟩, "$/g.title$"⟩]⟩
    let report (title : String) := Value.object [("g", .object [("title", .string title)])]
    ∃ p, Plan.ofRaw? .default [raw] = .ok p ∧
      DifferUnder parameterLocation (fun name => name ∉ p.parameters) (report "North") (report "South") ∧
      ¬ List.Forall₂ FlatAlike (p.fill (ofValue (report "North"))).1
        (p.fill (ofValue (report "South"))).1 := by
  intro raw report
  let title : Body := ⟨"$/g.title$", [.slot ⟨.plain, "/g.title", ⟨"/g", "title"⟩, []⟩]⟩
  let plan : SheetPlan := ⟨0, ⟨"S", [.literal "S"]⟩, [⟨⟨0, 0⟩, ⟨title, []⟩⟩], []⟩
  let p : Plan := ⟨[plan], true⟩
  let sheet (title : String) : Sheet :=
    ⟨"S", 0, false, [.clearCell 0 0], [⟨0, 0, 0, 0, title, none, []⟩]⟩
  have hp : Plan.ofRaw? .default [raw] = .ok p := by decide +kernel
  have hfill (title : String) (hitems : p.namedApart (report title) = [.ok (sheet title)]) :
      (p.fill (ofValue (report title))).1 = [.ok (sheet title)] :=
    (Filling.drain_eq (p.between_ofPlan _)).trans hitems
  refine ⟨p, hp, ?_, fun halike => ?_⟩
  · refine .inr ⟨_, _, rfl, rfl, .cons ⟨rfl, .inr ⟨rfl, _, _, rfl, rfl, ?_⟩⟩ .nil⟩
    exact .cons ⟨rfl, .inr ⟨by decide +kernel, rfl, rfl⟩⟩ .nil
  · rw [hfill "North" (by decide +kernel), hfill "South" (by decide +kernel)] at halike
    have hcontents := (List.forall₂_cons.1 halike).1 (sheet "North") (sheet "South") rfl rfl
    revert hcontents
    decide

end Template

end SheetFill

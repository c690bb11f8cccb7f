import Mathlib.Data.List.Forall2
import SheetFill.Proofs.Json.NullItems
import SheetFill.Proofs.Template.Siblings
import SheetFill.Template.Reading

/-!
# Workbooks and the null items of their data

A null item of an array counts as an item. A sheet or a row is made for it as for any other item, only that all
texts that are asked for there are missing; and a cell that stands for the first item of an array shows no text
if that one is null. So a workbook comes out the same if all null items are replaced by objects without members.

It does not come out the same without them. But it does if no null item is ever a node: none is at a location
for whose nodes sheets or rows are made, and none is the first of its array at a location that a cell asks for
texts.

## Main definitions

* `SheetPlan.iterated` — the locations for whose nodes sheets and rows are made.
* `SheetPlan.PassesOverNulls` — no null item is a node that is looked at.

## Main results

* `lexicalRows_replaced` — one group.
* `SheetPlan.itemsApart_replaced` — the output sheets of one plan.
* `Plan.fill_withoutNulls` — a workbook with the null items replaced, or left out.
-/

namespace SheetFill

open Cell Json Json.Document Json.Value

variable {instead : List Value}

/-- Related elements that are mapped alike give one list. -/
theorem map_eq_of_forall₂ {α β γ : Type} {related : α → β → Prop} {as : List α} {bs : List β}
    {f : α → γ} {g : β → γ} (h : List.Forall₂ related as bs) (hfg : ∀ a b, related a b → g b = f a) :
    bs.map g = as.map f := by
  have hequal : List.Forall₂ (· = ·) (as.map f) (bs.map g) := by
    rw [List.forall₂_map_left_iff, List.forall₂_map_right_iff]
    exact h.imp fun a b hab => (hfg a b hab).symm
  rw [List.forall₂_eq_eq_eq] at hequal
  exact hequal.symm

theorem flatMap_eq_of_forall₂ {α β γ : Type} {related : α → β → Prop} {as : List α} {bs : List β}
    {f : α → List γ} {g : β → List γ} (h : List.Forall₂ related as bs)
    (hfg : ∀ a b, related a b → g b = f a) : bs.flatMap g = as.flatMap f := by
  rw [List.flatMap_def, List.flatMap_def, map_eq_of_forall₂ h hfg]

/-! ## One group -/

/-- A group has the same rows, if one node stands in for each node of its tiers. -/
theorem Group.lexicalRows_replaced (hinstead : Memberless instead) {e e' : Environment}
    (h : e.Replaced instead e') {tiers : List Tier}
    (hone : ∀ tier ∈ tiers, ∀ v ∈ valuesFrom e.root.flat (segments tier.location),
      ∃ w, standIns instead v = [w])
    (hfirst : ∀ location ∈ tiers.flatMap Tier.locations, ∀ items ∈ e.root.listsAt (segments location),
      ∀ v ∈ items.head?, standIns instead v ≠ []) :
    lexicalRows tiers e' = lexicalRows tiers e := by
  induction tiers generalizing e e' with
  | nil => rfl
  | cons tier inner ih =>
      obtain ⟨hown, hinner⟩ := List.forall_mem_cons.1 hone
      rw [List.flatMap_cons] at hfirst
      obtain ⟨hcells, hbelow⟩ := List.forall_mem_append.1 hfirst
      have hnodes : List.Forall₂ (Environment.Counterpart instead e.root (segments tier.location))
          (Lookup.nodes e tier.location) (Lookup.nodes e' tier.location) :=
        h.forall₂_resolve hinstead hown
      simp only [lexicalRows]
      generalize Lookup.nodes e tier.location = nodes at hnodes
      generalize Lookup.nodes e' tier.location = nodes' at hnodes
      -- there are nodes in both environments, or placeholders
      cases hnodes with
      | nil => simp only [Tier.evaluateBare_congr (h.sameTextsOn hinstead hcells)]
      | cons hnode hnodes =>
          refine flatMap_eq_of_forall₂ (.cons hnode hnodes) fun p p' hp => ?_
          have hentered := h.enter hp
          simp only [Tier.evaluate_congr (hentered.sameTextsOn hinstead hcells), ih hentered hinner hbelow]

namespace Template

open SheetFill.Group Output

/-- The locations for whose nodes output sheets and rows are made. -/
def SheetPlan.iterated (t : SheetPlan) : List String :=
  t.nameLocation?.toList ++ t.groups.flatMap fun b => b.nesting.tiers.map Tier.location

/--
One value stands in for each value that a sheet or a row is made for, and one at least for the first item of
each array that cells look at.
-/
structure SheetPlan.Withstands (plan : SheetPlan) (instead : List Value) (root : Value) : Prop where
  one : ∀ location ∈ plan.iterated, ∀ v ∈ valuesFrom root.flat (segments location),
    ∃ w, standIns instead v = [w]
  first : ∀ location ∈ plan.locations, ∀ items ∈ root.listsAt (segments location),
    ∀ v ∈ items.head?, standIns instead v ≠ []

/--
No null item is at a location for whose nodes sheets or rows are made, and none is the first of its array at a
location that cells ask for texts.
-/
def SheetPlan.PassesOverNulls (plan : SheetPlan) (root : Value) : Prop :=
  (∀ location ∈ plan.iterated, ∀ items ∈ root.listsAt (segments location), ∀ v ∈ items,
    v.isNull = false) ∧
  ∀ location ∈ plan.locations, ∀ items ∈ root.listsAt (segments location), ∀ v ∈ items.head?,
    v.isNull = false

/-! ## One output sheet -/

/-- A sheet comes out alike in two documents in which corresponding nodes are bound. -/
theorem SheetPlan.fill_replaced {plan : SheetPlan} (hinstead : Memberless instead) {d d' : Document}
    (hd : d.WellFormed) (hd' : d'.WellFormed) (hbacked : d.env.Backed) (hbacked' : d'.env.Backed)
    (h : d.env.Replaced instead d'.env) (hplan : plan.Withstands instead d.env.root) (multiple : Bool) :
    (plan.fill multiple d').1 = (plan.fill multiple d).1 := by
  have htexts {locations : List String} (hsub : locations ⊆ plan.locations) :
      SameTextsOn locations d'.env d.env :=
    h.sameTextsOn hinstead fun location hlocation => hplan.first location (hsub hlocation)
  refine plan.fill_of_rows_eq multiple hd hd' hbacked hbacked' (fun b hb => ?_)
    (htexts fun location hlocation => ?_) (htexts fun location hlocation => ?_)
  · refine Group.lexicalRows_replaced hinstead h (fun tier htier => hplan.one tier.location ?_)
      fun location hlocation => hplan.first location ?_
    · exact List.mem_append_right _ (List.mem_flatMap.2 ⟨b, hb, List.mem_map_of_mem htier⟩)
    · exact List.mem_append_right _ (List.mem_flatMap.2 ⟨b, hb, hlocation⟩)
  · exact List.mem_append_left _ (List.mem_append_left _ hlocation)
  · exact List.mem_append_left _ (List.mem_append_right _ hlocation)

/-- The output sheets of a plan are the same, each filled in a new document. -/
theorem SheetPlan.itemsApart_replaced {plan : SheetPlan} (hinstead : Memberless instead) {root : Value}
    (hplan : plan.Withstands instead root) :
    plan.itemsApart (root.replaceNulls instead) = plan.itemsApart root := by
  have hnew : (ofValue root).env.Replaced instead (ofValue (root.replaceNulls instead)).env :=
    Environment.replaced_ofValue instead root
  unfold SheetPlan.itemsApart
  cases hname : plan.nameLocation? with
  | none =>
      have hsame := SheetPlan.fill_replaced hinstead (wellFormed_ofValue root)
        (wellFormed_ofValue (root.replaceNulls instead)) (Environment.backed_ofValue root)
        (Environment.backed_ofValue (root.replaceNulls instead)) hnew hplan false
      simp only [hsame]
  | some location =>
      have hone := hplan.one location (List.mem_append_left _ (by rw [hname]; exact List.mem_singleton_self _))
      have hnodes : List.Forall₂ (Environment.Counterpart instead root (segments location))
          (Scope.nodes (ofValue root) location)
          (Scope.nodes (ofValue (root.replaceNulls instead)) location) := by
        rw [nodes_eq, nodes_eq]
        exact hnew.forall₂_resolve hinstead hone
      by_cases hnone : Scope.nodes (ofValue root) location = []
      · have hnone' : Scope.nodes (ofValue (root.replaceNulls instead)) location = [] := by
          rwa [hnone, List.forall₂_nil_left_iff] at hnodes
        simp only [hnone, hnone', List.map_nil]
      · have hsome : Scope.nodes (ofValue (root.replaceNulls instead)) location ≠ [] := fun hnone' =>
          hnone (by rwa [hnone', List.forall₂_nil_right_iff] at hnodes)
        refine map_eq_of_forall₂ hnodes fun p p' hp => ?_
        obtain ⟨hd, hbacked, henv⟩ := entered_ofValue hnone p
        obtain ⟨hd', hbacked', henv'⟩ := entered_ofValue hsome p'
        refine SheetPlan.fill_replaced hinstead hd hd' hbacked hbacked' ?_ ?_ true
        · rw [henv, henv']
          exact hnew.enter hp
        · rw [henv]
          exact hplan

/-! ## Workbooks -/

/-- A workbook comes out alike, if something stands in for all null items that its plans look at. -/
theorem Plan.fill_replaced {p : Plan} (hinstead : Memberless instead) {root : Value}
    (hplans : ∀ plan ∈ p.sheets, plan.Withstands instead root) :
    (p.fill (ofValue (root.replaceNulls instead))).1 = (p.fill (ofValue root)).1 := by
  have hitems : p.itemsApart (root.replaceNulls instead) = p.itemsApart root :=
    List.flatMap_congr fun plan hplan => SheetPlan.itemsApart_replaced hinstead (hplans plan hplan)
  rw [p.fill_eq_namedApart, p.fill_eq_namedApart, Plan.namedApart, hitems, Plan.namedApart]

/-- Objects without members stand in for null items wherever these are. -/
theorem SheetPlan.withstands_object (plan : SheetPlan) (root : Value) :
    plan.Withstands [.object []] root := by
  have hone (v : Value) : ∃ w, standIns [.object []] v = [w] := by
    cases hnull : v.isNull with
    | false => exact ⟨_, standIns_of_not_isNull hnull⟩
    | true => exact ⟨_, standIns_of_isNull hnull⟩
  refine ⟨fun _ _ v _ => hone v, fun _ _ _ _ v _ => ?_⟩
  obtain ⟨w, hw⟩ := hone v
  rw [hw]
  exact List.cons_ne_nil _ _

/-- Nothing need stand in for null items that are no nodes. -/
theorem SheetPlan.PassesOverNulls.withstands {plan : SheetPlan} {root : Value}
    (h : plan.PassesOverNulls root) : plan.Withstands [] root := by
  refine ⟨fun location hlocation v hv => ?_, fun location hlocation items hitems v hv => ?_⟩
  · rw [← flatten_listsAt, List.mem_flatten] at hv
    obtain ⟨items, hitems, hv⟩ := hv
    exact ⟨_, standIns_of_not_isNull (h.1 location hlocation items hitems v hv)⟩
  · rw [standIns_of_not_isNull (h.2 location hlocation items hitems v hv)]
    exact List.cons_ne_nil _ _

/--
In all that a workbook shows, a null item is no other than an object without members. The workbook is also the
same without the null items, if its plans pass over them.
-/
theorem Plan.fill_withoutNulls (p : Plan) (root : Value) :
    (p.fill (ofValue (root.replaceNulls [.object []]))).1 = (p.fill (ofValue root)).1 ∧
      ((∀ plan ∈ p.sheets, plan.PassesOverNulls root) →
        (p.fill (ofValue root.withoutNulls)).1 = (p.fill (ofValue root)).1) := by
  have hmemberless : Memberless [.object []] := by
    intro v hv key
    rw [List.mem_singleton.1 hv]
    rfl
  refine ⟨Plan.fill_replaced hmemberless fun plan _ => plan.withstands_object root, fun hplans => ?_⟩
  exact Plan.fill_replaced (List.forall_mem_nil _) fun plan hplan => (hplans plan hplan).withstands

/-- The second owner is null and nobody asks for it; of the things that make the rows none is null. -/
theorem Plan.fill_withoutNulls_owners :
    let raw : RawSheet :=
      ⟨"S", [⟨⟨0, 0⟩, "$owners.name$"⟩, ⟨⟨1, 0⟩, "#things.name#"⟩, ⟨⟨2, 0⟩, "#grow#"⟩]⟩
    let named (name : String) := Value.object [("name", .string name)]
    let report (owners : List Value) :=
      Value.object [("owners", .array owners), ("things", .array [named "Pen", named "Ink"])]
    ∃ p, Plan.ofRaw? .default [raw] = .ok p ∧
      (∀ plan ∈ p.sheets, plan.PassesOverNulls (report [named "Ada", .null])) ∧
      (p.fill (ofValue (report [named "Ada"]))).1 =
        (p.fill (ofValue (report [named "Ada", .null]))).1 := by
  intro raw named report
  let owner : Body := ⟨"$owners.name$", [.slot ⟨.plain, "owners.name", ⟨"owners", "name"⟩, []⟩]⟩
  let thing : Body := ⟨"#things.name#", [.slot ⟨.group, "things.name", ⟨"things", "name"⟩, []⟩]⟩
  let plan : SheetPlan :=
    { index := 0, name := ⟨"S", [.literal "S"]⟩, flat := [⟨⟨0, 0⟩, ⟨owner, []⟩⟩]
      groups := [⟨1, 2, 0, .grow, none, ⟨[⟨"things", [⟨⟨1, 0⟩, ⟨thing, []⟩⟩]⟩]⟩⟩] }
  let p : Plan := ⟨[plan], true⟩
  have hp : Plan.ofRaw? .default [raw] = .ok p := by decide +kernel
  have hplans : ∀ plan ∈ p.sheets, plan.PassesOverNulls (report [named "Ada", .null]) := by
    unfold SheetPlan.PassesOverNulls
    decide +kernel
  have hwithout : (report [named "Ada", .null]).withoutNulls = report [named "Ada"] := by rfl
  obtain ⟨-, hfill⟩ := p.fill_withoutNulls (report [named "Ada", .null])
  exact ⟨p, hp, hplans, hwithout ▸ hfill hplans⟩

/-- A cell that stands for the first of some items shows no text if that one is null. -/
theorem Plan.fill_stops_at_null :
    let raw : RawSheet := ⟨"S", [⟨⟨0, 0⟩, "$items.name$"⟩]⟩
    let root := Value.object [("items", .array [.null, .object [("name", .string "Ada")]])]
    ∃ p, Plan.ofRaw? .default [raw] = .ok p ∧
      (p.fill (ofValue root.withoutNulls)).1 ≠ (p.fill (ofValue root)).1 := by
  intro raw root
  let name : Body := ⟨"$items.name$", [.slot ⟨.plain, "items.name", ⟨"items", "name"⟩, []⟩]⟩
  let plan : SheetPlan := ⟨0, ⟨"S", [.literal "S"]⟩, [⟨⟨0, 0⟩, ⟨name, []⟩⟩], []⟩
  let p : Plan := ⟨[plan], true⟩
  let sheet (text : String) : Sheet :=
    ⟨"S", 0, false, [.clearCell 0 0], [⟨0, 0, 0, 0, text, none, []⟩]⟩
  have hp : Plan.ofRaw? .default [raw] = .ok p := by decide +kernel
  have hwithout : root.withoutNulls =
      .object [("items", .array [.object [("name", .string "Ada")]])] := by rfl
  have hfill (document : Value) (text : String) (hitems : p.namedApart document = [.ok (sheet text)]) :
      (p.fill (ofValue document)).1 = [.ok (sheet text)] :=
    (p.fill_eq_namedApart document).trans hitems
  refine ⟨p, hp, fun hsame => ?_⟩
  rw [hwithout, hfill _ "Ada" (by decide +kernel), hfill _ "" (by decide +kernel)] at hsame
  revert hsame
  decide

end Template

end SheetFill

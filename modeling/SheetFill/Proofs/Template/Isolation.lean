import Mathlib.Data.List.Basic
import SheetFill.Proofs.Group.LexicalRows
import SheetFill.Proofs.Template.KeptRows
import SheetFill.Template.Filling

/-!
# Output sheets are filled independently

The output sheets of a workbook are filled one after the other in one document: nodes are bound and
released all along, and some sheets fail. Still no sheet sees anything of another one. Between two sheets
the document is the new one at a later time, whatever became of the sheets before, so each sheet comes out
as if it were filled in a document of its own.

Names are the exception. They are given out in the order of the sheets that do not fail, after these were
filled, and so in the same way when every plan was filled by itself.

## Main definitions

* `SheetPlan.itemsApart`, `Plan.itemsApart` — every output sheet, filled in a new document.
* `nameItems` — names for the sheets that did not fail, in order.
* `Filling.remaining` — the output sheets that a filling has still to yield.

## Main results

* `SheetPlan.fill_of_rows_eq`, `SheetPlan.fill_later` — a sheet depends on the rows of its groups and the
  texts of its other cells in the environment, and gives the document back, whether it fails or not.
* `Filling.next_of_remaining_cons` — a step yields the first sheet that remains.
* `Plan.fill_eq_itemsApart` — the output sheets of a workbook are those filled apart.
-/

namespace SheetFill

open Json Json.Document

/-- Documents are alike where their environments are. -/
theorem Json.Document.sameTextsOn_of_env {d e : Document} {locations : List String}
    (h : SameTextsOn locations e.env d.env) : SameTextsOn locations e d := by
  intro location hlocation key search
  rw [sameTexts_env e location key search, h location hlocation, ← sameTexts_env d location key search]

namespace Template

open Cell SheetFill.Group Output

/-! ## One output sheet -/

section Assembly

variable {d e : Document}

theorem Draft.addBlocks_later (blocks : List Block) (draft : Draft) (h : d.WellFormed)
    (hbacked : d.env.Backed) : Later d (Draft.addBlocks .unbounded blocks draft d).2.2 := by
  induction blocks generalizing draft d with
  | nil => exact .refl d
  | cons b blocks ih =>
      have hrows := (b.rows_document h hbacked).2
      rw [← Draft.scope_addBlock (RowSums.hold_unbounded b.reservation) draft] at hrows
      rw [Draft.addBlocks]
      split
      · next hadd =>
          rw [hadd] at hrows
          exact hrows
      · next hadd =>
          rw [hadd] at hrows
          exact hrows.trans (ih _ (hrows.wellFormed h) (by rw [hrows.env_eq]; exact hbacked))

/-- The groups of a sheet depend on the rows that they have in the environment, and on nothing else. -/
theorem Draft.addBlocks_of_rows_eq {blocks : List Block} (draft : Draft) (hd : d.WellFormed)
    (he : e.WellFormed) (hbackedd : d.env.Backed) (hbackede : e.env.Backed)
    (hblocks : ∀ b ∈ blocks, b.lexicalRows e.env = b.lexicalRows d.env) :
    (Draft.addBlocks .unbounded blocks draft e).1 = (Draft.addBlocks .unbounded blocks draft d).1 ∧
      (Draft.addBlocks .unbounded blocks draft e).2.1 = (Draft.addBlocks .unbounded blocks draft d).2.1 := by
  induction blocks generalizing draft d e with
  | nil => exact ⟨rfl, rfl⟩
  | cons b blocks ih =>
      obtain ⟨hb, hlater⟩ := List.forall_mem_cons.1 hblocks
      obtain ⟨hrowsd, hlaterd⟩ := b.rows_document hd hbackedd
      obtain ⟨hrowse, hlatere⟩ := b.rows_document he hbackede
      have hrows : (b.rows e).1 = (b.rows d).1 := by rw [hrowse, hrowsd, hb]
      rw [Draft.addBlocks, Draft.addBlocks, Draft.addBlock_of_rows_eq hrows draft]
      rw [← Draft.scope_addBlock (RowSums.hold_unbounded b.reservation) draft] at hlaterd
      cases hadd : draft.addBlock .unbounded b d with
      | mk answer rest =>
          obtain ⟨draft', d'⟩ := rest
          rw [hadd] at hlaterd
          cases answer with
          | error e => exact ⟨rfl, rfl⟩
          | ok _ =>
              refine ih draft' (hlaterd.wellFormed hd) (hlatere.wellFormed he) ?_ ?_ ?_
              · rwa [hlaterd.env_eq]
              · rwa [hlatere.env_eq]
              · rwa [hlaterd.env_eq, hlatere.env_eq]

/-- A sheet gives the document back, whether it fails or not. -/
theorem SheetPlan.fill_later (plan : SheetPlan) (multiple : Bool) (h : d.WellFormed)
    (hbacked : d.env.Backed) : Later d (plan.fill multiple d).2 :=
  Draft.addBlocks_later plan.groups plan.draft h hbacked

/-- A sheet, or its failure, depends on the rows of its groups and the texts of its other cells. -/
theorem SheetPlan.fill_of_rows_eq (plan : SheetPlan) (multiple : Bool) (hd : d.WellFormed)
    (he : e.WellFormed) (hbackedd : d.env.Backed) (hbackede : e.env.Backed)
    (hgroups : ∀ b ∈ plan.groups, b.lexicalRows e.env = b.lexicalRows d.env)
    (hname : SameTextsOn plan.name.locations e.env d.env)
    (hflat : SameTextsOn (plan.flat.flatMap fun c => c.formula.locations) e.env d.env) :
    (plan.fill multiple e).1 = (plan.fill multiple d).1 := by
  have hvalue := Body.value_congr (sameTextsOn_of_env hname) true
  obtain ⟨hanswer, hdraft⟩ :=
    Draft.addBlocks_of_rows_eq plan.draft hd he hbackedd hbackede hgroups
  have hafter : SameTextsOn (plan.flat.flatMap fun c => c.formula.locations)
      (Draft.addBlocks .unbounded plan.groups plan.draft e).2.2
      (Draft.addBlocks .unbounded plan.groups plan.draft d).2.2 := by
    refine sameTextsOn_of_env ?_
    rwa [(Draft.addBlocks_later plan.groups _ he hbackede).env_eq,
      (Draft.addBlocks_later plan.groups _ hd hbackedd).env_eq]
  have hwrites (shifts : RowShifts) :
      plan.flat.map
          (flatWrite .unbounded shifts (Draft.addBlocks .unbounded plan.groups plan.draft e).2.2) =
        plan.flat.map
          (flatWrite .unbounded shifts (Draft.addBlocks .unbounded plan.groups plan.draft d).2.2) := by
    refine List.map_congr_left fun c hc => ?_
    rw [flatWrite, Formula.resolve_congr (hafter.of_mem hc) true, flatWrite]
  simp only [SheetPlan.fill, SheetPlan.fillWith, hvalue, hanswer, hdraft, hwrites]

/-- A sheet, or its failure, depends on the environment alone. -/
theorem SheetPlan.fill_of_env_eq (plan : SheetPlan) (multiple : Bool) (hd : d.WellFormed)
    (he : e.WellFormed) (hbacked : d.env.Backed) (henv : e.env = d.env) :
    (plan.fill multiple e).1 = (plan.fill multiple d).1 := by
  have hsame (locations : List String) : SameTextsOn locations e.env d.env := by
    rw [henv]
    exact fun _ _ _ _ => rfl
  exact plan.fill_of_rows_eq multiple hd he hbacked (by rwa [henv]) (fun b _ => by rw [henv])
    (hsame _) (hsame _)

end Assembly

/-! ## Sheets filled apart -/

/-- The output sheets of a plan, each filled in a new document. -/
def SheetPlan.itemsApart (plan : SheetPlan) (root : Value) : List (Except FillError Sheet) :=
  match plan.nameLocation? with
  | none => [(plan.fill false (ofValue root)).1]
  | some location => (Scope.nodes (ofValue root) location).map fun node =>
      (Scope.within (ofValue root) location node (plan.fill true)).1

/-- The output sheets of a workbook, each filled in a new document. -/
def Plan.itemsApart (p : Plan) (root : Value) : List (Except FillError Sheet) :=
  p.sheets.flatMap fun plan => plan.itemsApart root

/-- Gives names to the sheets that did not fail, in order. -/
def nameItems : SheetNames → List (Except FillError Sheet) → List (Except FillError Sheet)
  | _, [] => []
  | names, .error e :: items => .error e :: nameItems names items
  | names, .ok sheet :: items =>
    let (name, names) := names.register sheet.name
    .ok { sheet with name } :: nameItems names items

namespace Filling

/-! ## Naming sheet by sheet -/

/-- Items with the names that a filling gives them from now on. -/
def named {ν : Type} (f : Filling ν) (items : List (Except FillError Sheet)) :
    List (Except FillError Sheet) :=
  if f.normalizeNames then nameItems f.names items else items

theorem named_cons {ν : Type} (f : Filling ν) (item : Except FillError Sheet)
    (items : List (Except FillError Sheet)) :
    f.named (item :: items) = (finish f item).1 :: (finish f item).2.named items := by
  by_cases hnormalize : f.normalizeNames = true
  · cases item with
    | error e => simp [named, finish, hnormalize, nameItems]
    | ok sheet => simp [named, finish, hnormalize, nameItems]
  · cases item with
    | error e => simp [named, finish, hnormalize]
    | ok sheet => simp [named, finish, hnormalize]

/-- Names take no notice of the sheets that are to come. -/
theorem finish_with {ν : Type} (f : Filling ν) (pending : List (SheetNode ν)) (plans : List SheetPlan)
    (item : Except FillError Sheet) :
    finish { f with pending, plans } item =
      ((finish f item).1, { (finish f item).2 with pending, plans }) := by
  cases item with
  | error e => rfl
  | ok sheet =>
      by_cases hnormalize : f.normalizeNames = true
      · simp [finish, hnormalize]
      · simp [finish, hnormalize]

/-! ## Steps of a filling -/

variable {root : Value} {f : Filling Pointer} {d : Document}

/-- The output sheets that are still to come, each filled in a new document. -/
def remaining (root : Value) (f : Filling Pointer) : List (Except FillError Sheet) :=
  f.pending.map (fun n => (fillNode n (ofValue root)).1) ++
    f.plans.flatMap fun plan => plan.itemsApart root

/--
The state between two steps: the document is the new one at a later time, and the nodes that are to come
are bound to locations that lead somewhere.
-/
structure Between (root : Value) (f : Filling Pointer) (d : Document) : Prop where
  later : Later (ofValue root) d
  sourced : ∀ n ∈ f.pending, Scope.nodes (ofValue root) n.location ≠ []

/-- Without a node bound, a sheet comes out as in a new document. -/
theorem fill_of_later (h : Later (ofValue root) d) (plan : SheetPlan) (multiple : Bool) :
    (plan.fill multiple d).1 = (plan.fill multiple (ofValue root)).1 ∧
      Later (ofValue root) (plan.fill multiple d).2 := by
  have hnew := wellFormed_ofValue root
  have hbacked : (ofValue root).env.Backed := Environment.backed_ofValue root
  refine ⟨plan.fill_of_env_eq multiple hnew (h.wellFormed hnew) hbacked h.env_eq, ?_⟩
  exact h.trans (plan.fill_later multiple (h.wellFormed hnew) (by rwa [h.env_eq]))

/-- With a node bound, a sheet comes out as in a new document with the node bound. -/
theorem fillNode_of_later (h : Later (ofValue root) d) {n : SheetNode Pointer}
    (hn : Scope.nodes (ofValue root) n.location ≠ []) :
    (fillNode n d).1 = (fillNode n (ofValue root)).1 ∧
      Later (ofValue root) (fillNode n d).2 := by
  have hnew := wellFormed_ofValue root
  have hd := h.wellFormed hnew
  have henv : (Scope.enter d n.location n.node).env =
      (Scope.enter (ofValue root) n.location n.node).env := by
    rw [hd.env_enter, hnew.env_enter, h.env_eq]
  have hbacked : (Scope.enter (ofValue root) n.location n.node).env.Backed := by
    rw [nodes_eq] at hn
    rw [hnew.env_enter]
    exact Environment.Backed.enter (Environment.backed_ofValue root) hn n.node
  have hfilled := n.plan.fill_later true (hd.enter n.location n.node) (by rwa [henv])
  refine ⟨?_, h.trans (hfilled.release hd)⟩
  exact n.plan.fill_of_env_eq true (hnew.enter n.location n.node) (hd.enter n.location n.node) hbacked
    henv

theorem nodes_of_later (h : Later (ofValue root) d) (location : String) :
    Scope.nodes d location = Scope.nodes (ofValue root) location := by
  rw [nodes_eq, nodes_eq, h.env_eq]

/-- A plan without output sheets is passed over. -/
theorem nextPlan_of_plan_nil (h : Later (ofValue root) d) {plan : SheetPlan}
    (hplan : plan.itemsApart root = []) (plans : List SheetPlan) :
    nextPlan f d (plan :: plans) = nextPlan f d plans := by
  cases hlocation : plan.nameLocation? with
  | none => simp [SheetPlan.itemsApart, hlocation] at hplan
  | some location =>
      simp only [SheetPlan.itemsApart, hlocation, List.map_eq_nil_iff] at hplan
      simp only [nextPlan, hlocation, nodes_of_later h, hplan]

/-- The first output sheet of a plan comes out as in a new document, and the others wait. -/
theorem nextPlan_of_plan_cons (h : Later (ofValue root) d) {plan : SheetPlan}
    {item : Except FillError Sheet} {items : List (Except FillError Sheet)}
    (hplan : plan.itemsApart root = item :: items) (plans : List SheetPlan) :
    ∃ (pending : List (SheetNode Pointer)) (d' : Document),
      nextPlan f d (plan :: plans) =
          (some (finish f item).1, { (finish f item).2 with pending, plans }, d') ∧
        Between root { (finish f item).2 with pending, plans } d' ∧
        pending.map (fun n => (fillNode n (ofValue root)).1) = items := by
  cases hlocation : plan.nameLocation? with
  | none =>
      obtain ⟨hsheet, hlater⟩ := fill_of_later h plan false
      simp only [SheetPlan.itemsApart, hlocation, List.cons.injEq] at hplan
      obtain ⟨hitem, hitems⟩ := hplan
      refine ⟨[], (plan.fill false d).2, ?_, ⟨hlater, by simp⟩, hitems⟩
      simp only [nextPlan, hlocation]
      rw [hsheet, hitem, finish_with]
  | some location =>
      simp only [SheetPlan.itemsApart, hlocation] at hplan
      obtain ⟨node, nodes, hnodes, hitem, hitems⟩ := List.map_eq_cons_iff.1 hplan
      have hne : Scope.nodes (ofValue root) location ≠ [] := by simp [hnodes]
      obtain ⟨hsheet, hlater⟩ := fillNode_of_later h (n := ⟨plan, location, node⟩) hne
      have hfirst : (fillNode ⟨plan, location, node⟩ (ofValue root)).1 = item := hitem
      refine ⟨nodes.map fun node => ⟨plan, location, node⟩, (fillNode ⟨plan, location, node⟩ d).2, ?_,
        ⟨hlater, ?_⟩, ?_⟩
      · simp only [nextPlan, hlocation, nodes_of_later h, hnodes]
        rw [hsheet, hfirst, finish_with]
      · intro n hn
        obtain ⟨_, -, rfl⟩ := List.mem_map.1 hn
        exact hne
      · rw [List.map_map]
        exact hitems

theorem nextPlan_of_nil (h : Later (ofValue root) d) {plans : List SheetPlan}
    (hplans : plans.flatMap (fun plan => plan.itemsApart root) = []) :
    nextPlan f d plans = (none, { f with pending := [], plans := [] }, d) := by
  induction plans with
  | nil => rfl
  | cons plan plans ih =>
      rw [List.flatMap_cons, List.append_eq_nil_iff] at hplans
      rw [nextPlan_of_plan_nil h hplans.1]
      exact ih hplans.2

/-- The first output sheet of all plans comes out as in a new document, and the others remain. -/
theorem nextPlan_of_cons (h : Later (ofValue root) d) {plans : List SheetPlan}
    {item : Except FillError Sheet} {items : List (Except FillError Sheet)}
    (hplans : plans.flatMap (fun plan => plan.itemsApart root) = item :: items) :
    ∃ (pending : List (SheetNode Pointer)) (rest : List SheetPlan) (d' : Document),
      nextPlan f d plans =
          (some (finish f item).1, { (finish f item).2 with pending, plans := rest }, d') ∧
        Between root { (finish f item).2 with pending, plans := rest } d' ∧
        remaining root { (finish f item).2 with pending, plans := rest } = items := by
  induction plans with
  | nil => simp at hplans
  | cons plan plans ih =>
      rw [List.flatMap_cons] at hplans
      cases hplan : plan.itemsApart root with
      | nil =>
          rw [hplan, List.nil_append] at hplans
          rw [nextPlan_of_plan_nil h hplan]
          exact ih hplans
      | cons first later =>
          rw [hplan, List.cons_append, List.cons.injEq] at hplans
          obtain ⟨rfl, hitems⟩ := hplans
          obtain ⟨pending, d', hnext, hbetween, hpending⟩ :=
            nextPlan_of_plan_cons (f := f) h hplan plans
          refine ⟨pending, plans, d', hnext, hbetween, ?_⟩
          rw [remaining, hpending]
          exact hitems

/-- A filling without sheets to come is over. -/
theorem next_of_remaining_nil (h : Between root f d) (hremaining : remaining root f = []) :
    ∃ f' : Filling Pointer, next f d = (none, f', d) := by
  obtain ⟨hpending, hplans⟩ := List.append_eq_nil_iff.1 hremaining
  rw [List.map_eq_nil_iff] at hpending
  rw [next, hpending]
  exact ⟨_, nextPlan_of_nil h.later hplans⟩

/-- A step yields the first sheet that remains, under the name that is given out next. -/
theorem next_of_remaining_cons (h : Between root f d) {item : Except FillError Sheet}
    {items : List (Except FillError Sheet)} (hremaining : remaining root f = item :: items) :
    ∃ (f' : Filling Pointer) (d' : Document), next f d = (some (finish f item).1, f', d') ∧
      Between root f' d' ∧ remaining root f' = items ∧ f'.named = (finish f item).2.named := by
  cases hpending : f.pending with
  | nil =>
      rw [remaining, hpending, List.map_nil, List.nil_append] at hremaining
      obtain ⟨pending, rest, d', hnext, hbetween, hrest⟩ := nextPlan_of_cons (f := f) h.later hremaining
      refine ⟨_, d', ?_, hbetween, hrest, rfl⟩
      rw [next, hpending]
      exact hnext
  | cons n pending =>
      have hsourced := h.sourced
      rw [hpending] at hsourced
      obtain ⟨hsheet, hlater⟩ := fillNode_of_later h.later (hsourced n List.mem_cons_self)
      rw [remaining, hpending, List.map_cons, List.cons_append, List.cons.injEq] at hremaining
      obtain ⟨hitem, hitems⟩ := hremaining
      refine ⟨{ (finish f item).2 with pending, plans := f.plans }, (fillNode n d).2, ?_,
        ⟨hlater, fun m hm => hsourced m (List.mem_cons_of_mem _ hm)⟩, hitems, rfl⟩
      have hfinish : finish { f with pending } item =
          ((finish f item).1, { (finish f item).2 with pending, plans := f.plans }) :=
        finish_with f pending f.plans item
      rw [next, hpending]
      dsimp only
      rw [hsheet, hitem, hfinish]

/-! ## Runs of a filling -/

theorem drain_of_next_none {σ ν : Type} [Scope σ ν] {f f' : Filling ν} {s s' : σ}
    (h : next f s = (none, f', s')) : drain f s = ([], s') := by
  rw [drain]
  split
  · next heq =>
      rw [h] at heq
      simp only [Prod.mk.injEq] at heq
      rw [heq.2.2]
  · next heq =>
      rw [h] at heq
      simp at heq

theorem drain_of_next_some {σ ν : Type} [Scope σ ν] {f f' : Filling ν} {s s' : σ}
    {item : Except FillError Sheet} (h : next f s = (some item, f', s')) :
    drain f s = (item :: (drain f' s').1, (drain f' s').2) := by
  rw [drain]
  split
  · next heq =>
      rw [h] at heq
      simp at heq
  · next heq =>
      rw [h] at heq
      simp only [Prod.mk.injEq, Option.some.injEq] at heq
      obtain ⟨rfl, rfl, rfl⟩ := heq
      rfl

/-- A filling yields what remains, under the names that it gives. -/
theorem drain_eq (h : Between root f d) : (drain f d).1 = f.named (remaining root f) := by
  generalize hremaining : remaining root f = items
  induction items generalizing f d with
  | nil =>
      obtain ⟨f', hnext⟩ := next_of_remaining_nil h hremaining
      rw [drain_of_next_none hnext]
      simp [named, nameItems]
  | cons item items ih =>
      obtain ⟨f', d', hnext, hbetween, hrest, hnamed⟩ := next_of_remaining_cons h hremaining
      rw [drain_of_next_some hnext, ih hbetween hrest, named_cons, hnamed]

end Filling

/-! ## Plans filled by themselves -/

section Sequence

variable {ε α : Type}

end Sequence

namespace Plan

open Filling

variable {root : Value}

/-- Of every plan the output sheets, each filled in a new document, or the first failure among them. -/
def results (p : Plan) (root : Value) : List (Except FillError (List Sheet)) :=
  p.sheets.map fun plan => (plan.itemsApart root).mapM id

/-- The output sheets of a workbook with their names, each filled in a new document. -/
def namedApart (p : Plan) (root : Value) : List (Except FillError Sheet) :=
  if p.normalizeNames then nameItems .empty (p.itemsApart root) else p.itemsApart root

theorem between_ofPlan (p : Plan) (root : Value) :
    Between root (Filling.ofPlan p) (ofValue root) where
  later := .refl _
  sourced := by simp [Filling.ofPlan]

/-- A filled workbook has the output sheets filled apart, under their names. -/
theorem fill_eq_namedApart (p : Plan) (root : Value) : (p.fill (ofValue root)).1 = p.namedApart root :=
  Filling.drain_eq (p.between_ofPlan root)

section Concurrently

variable {p : Plan} {gather : List (Except FillError (List Sheet)) → Except FillError (List (List Sheet))}

variable (hgather : Gathers gather)

include hgather

end Concurrently

end Plan

end Template

end SheetFill

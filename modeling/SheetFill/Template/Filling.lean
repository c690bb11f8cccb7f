import SheetFill.Output.SheetNames
import SheetFill.Template.Assembly

/-!
# Filling a workbook

A sheet plan whose name holds no references gives one output sheet. Otherwise it gives one for every
node at the first location of its name, filled while that node is bound.

`Filling` produces the output sheets one at a time, all in one scope: the nodes of a plan are asked for
when its turn comes. A sheet that fails does not end the filling, and takes no name.

`Plan.fillConcurrently` fills every plan in a scope of its own. The plans are filled at the same time, on
a pool of threads, and their results are gathered by a library: it keeps the order of the plans, but where
several of them fail it does not say which failure is met first. The gathering is a parameter therefore,
and `Gathers` is all that is known of it. `Plan.fillApart` gathers the results one after the other.

## Main definitions

* `Filling.next`, `Filling.take`, `Filling.drain` — the next output sheet, at most `n`, and all.
* `Plan.fill`, `Plan.fillAll` — the output sheets of a workbook, and the same up to a failure.
* `Gathers` — results of work done at the same time, in order, or a failure among them.
* `Plan.fillConcurrently`, `Plan.fillApart` — the output sheets of a workbook, every plan by itself.
-/

namespace SheetFill.Template

open Cell Output

/-- The location whose nodes a plan is filled for, if its name has a reference. -/
def SheetPlan.nameLocation? (t : SheetPlan) : Option String :=
  t.name.references.head?.map fun r => r.first.location

/-- An output sheet that is still to be filled, for one node. -/
structure SheetNode (ν : Type) where
  plan : SheetPlan
  location : String
  node : ν

/-- The output sheets that are still to come. -/
structure Filling (ν : Type) where
  normalizeNames : Bool
  /-- The nodes left of the plan whose turn it is. -/
  pending : List (SheetNode ν)
  /-- The plans whose turn has not come. -/
  plans : List SheetPlan
  /-- The names given out. -/
  names : SheetNames

namespace Filling

variable {σ ν : Type} [Scope σ ν]

/-- All output sheets of a plan are still to come. -/
def ofPlan (p : Plan) : Filling ν := ⟨p.normalizeNames, [], p.sheets, .empty⟩

/-- Gives an output sheet its final name. -/
def finish (f : Filling ν) (sheet : Except FillError Sheet) :
    Except FillError Sheet × Filling ν :=
  match sheet with
  | .error e => (.error e, f)
  | .ok sheet =>
    if f.normalizeNames then
      let (name, names) := f.names.register sheet.name
      (.ok { sheet with name }, { f with names })
    else (.ok sheet, f)

/-- The output sheet of a node. -/
def fillNode (n : SheetNode ν) (s : σ) : Except FillError Sheet × σ :=
  Scope.within s n.location n.node fun s => n.plan.fill true s

/-- The next output sheet once no node is left of the plan whose turn it was. -/
def nextPlan (f : Filling ν) (s : σ) :
    List SheetPlan → Option (Except FillError Sheet) × Filling ν × σ
  | [] => (none, { f with pending := [], plans := [] }, s)
  | plan :: plans =>
    match plan.nameLocation? with
    | none =>
      let (sheet, s) := plan.fill false s
      let (sheet, f) := finish { f with pending := [], plans } sheet
      (some sheet, f, s)
    | some location =>
      match Scope.nodes s location with
      | [] => nextPlan f s plans
      | node :: nodes =>
        let (sheet, s) := fillNode ⟨plan, location, node⟩ s
        let pending := nodes.map fun node => ⟨plan, location, node⟩
        let (sheet, f) := finish { f with pending, plans } sheet
        (some sheet, f, s)

/-- The next output sheet, or the failure that takes its place. -/
def next (f : Filling ν) (s : σ) : Option (Except FillError Sheet) × Filling ν × σ :=
  match f.pending with
  | [] => nextPlan f s f.plans
  | n :: pending =>
    let (sheet, s) := fillNode n s
    let (sheet, f) := finish { f with pending } sheet
    (some sheet, f, s)

/-- At most `n` output sheets. -/
def take : Nat → Filling ν → σ → List (Except FillError Sheet) × Filling ν × σ
  | 0, f, s => ([], f, s)
  | n + 1, f, s =>
    match next f s with
    | (none, f, s) => ([], f, s)
    | (some sheet, f, s) =>
      let (sheets, f, s) := take n f s
      (sheet :: sheets, f, s)

/-! ## Every filling ends -/

/-- `Before after before`: a plan had its turn, or a node of the plan whose turn it is. -/
def Before (after before : Filling ν) : Prop :=
  Prod.Lex (· < ·) (· < ·) (after.plans.length, after.pending.length)
    (before.plans.length, before.pending.length)

theorem before_wf : WellFounded (Before (ν := ν)) :=
  InvImage.wf (fun f : Filling ν => (f.plans.length, f.pending.length))
    (Prod.lex Nat.lt_wfRel Nat.lt_wfRel).wf

instance : WellFoundedRelation (Filling ν) := ⟨Before, before_wf⟩

theorem finish_plans (f : Filling ν) (sheet : Except FillError Sheet) :
    (finish f sheet).2.plans = f.plans ∧ (finish f sheet).2.pending = f.pending := by
  unfold finish
  split
  · exact ⟨rfl, rfl⟩
  · split <;> exact ⟨rfl, rfl⟩

theorem length_of_nextPlan {f f' : Filling ν} {s s' : σ} {plans : List SheetPlan}
    {sheet : Except FillError Sheet} (h : nextPlan f s plans = (some sheet, f', s')) :
    f'.plans.length < plans.length := by
  induction plans with
  | nil => simp [nextPlan] at h
  | cons plan plans ih =>
      simp only [nextPlan] at h
      split at h
      · obtain ⟨-, rfl, -⟩ := h
        rw [(finish_plans _ _).1]
        exact Nat.lt_succ_self _
      · split at h
        · exact Nat.lt_succ_of_lt (ih h)
        · obtain ⟨-, rfl, -⟩ := h
          rw [(finish_plans _ _).1]
          exact Nat.lt_succ_self _

/-- A step that yields a sheet makes progress. -/
theorem before_of_next {f f' : Filling ν} {s s' : σ} {sheet : Except FillError Sheet}
    (h : next f s = (some sheet, f', s')) : Before f' f := by
  unfold next at h
  unfold Before
  split at h
  · exact Prod.Lex.left _ _ (length_of_nextPlan h)
  · next n pending hp =>
      simp only [Prod.mk.injEq] at h
      obtain ⟨-, hf, -⟩ := h
      rw [← hf, (finish_plans _ _).1, (finish_plans _ _).2, hp]
      exact Prod.Lex.right _ (Nat.lt_succ_self _)

/-- All output sheets that are still to come. -/
def drain (f : Filling ν) (s : σ) : List (Except FillError Sheet) × σ :=
  match _h : next f s with
  | (none, _, s) => ([], s)
  | (some sheet, f, s) =>
    let (sheets, s) := drain f s
    (sheet :: sheets, s)
termination_by f
decreasing_by exact before_of_next _h

/-- The output sheets that are still to come, or the first failure among them. -/
def drainSound (f : Filling ν) (s : σ) : Except FillError (List Sheet) × σ :=
  match _h : next f s with
  | (none, _, s) => (.ok [], s)
  | (some (.error e), _, s) => (.error e, s)
  | (some (.ok sheet), f, s) =>
    let (sheets, s) := drainSound f s
    (sheets.map (sheet :: ·), s)
termination_by f
decreasing_by exact before_of_next _h

end Filling

/--
What is known of gathering results that are worked out at the same time: if none is a failure, their
values in order, and else one of the failures. Which one of several is left open.
-/
structure Gathers {ε α : Type} (gather : List (Except ε α) → Except ε (List α)) : Prop where
  ok : ∀ values : List α, gather (values.map .ok) = .ok values
  error : ∀ (results : List (Except ε α)) (e : ε), .error e ∈ results →
    ∃ e', .error e' ∈ results ∧ gather results = .error e'

namespace Plan

variable {σ ν : Type} [Scope σ ν]

/-- The output sheets of a workbook and the failures among them, in order. -/
def fill (p : Plan) (s : σ) : List (Except FillError Sheet) × σ :=
  Filling.drain (Filling.ofPlan p) s

/-- The output sheets of a workbook, or the first failure, which ends the filling. -/
def fillAll (p : Plan) (s : σ) : Except FillError (List Sheet) × σ :=
  Filling.drainSound (Filling.ofPlan p) s

/-- At most `n` output sheets of a workbook. -/
def fillSome (p : Plan) (n : Nat) (s : σ) : List (Except FillError Sheet) × σ :=
  let (sheets, _, s) := Filling.take n (Filling.ofPlan p) s
  (sheets, s)

/-- The output sheets of a plan for the given nodes, up to the first failure. -/
def fillNodes (plan : SheetPlan) (location : String) : List ν → σ → Except FillError (List Sheet)
  | [], _ => .ok []
  | node :: nodes, s =>
    let (sheet, s) := Filling.fillNode ⟨plan, location, node⟩ s
    match sheet with
    | .error e => .error e
    | .ok sheet => (fillNodes plan location nodes s).map (sheet :: ·)

/-- The output sheets of one plan, up to the first failure. -/
def fillSheet (plan : SheetPlan) (s : σ) : Except FillError (List Sheet) :=
  match plan.nameLocation? with
  | none => (plan.fill false s).1.map fun sheet => [sheet]
  | some location => fillNodes plan location (Scope.nodes s location) s

/-- Gives sheets their final names, in order. -/
def nameSheets : List Sheet → SheetNames → List Sheet
  | [], _ => []
  | sheet :: sheets, names =>
    let (name, names) := names.register sheet.name
    { sheet with name } :: nameSheets sheets names

/-- The output sheets of a workbook, every plan filled in the scope `s`, gathered by `gather`. -/
def fillConcurrently (gather : List (Except FillError (List Sheet)) → Except FillError (List (List Sheet)))
    (p : Plan) (s : σ) : Except FillError (List Sheet) := do
  let sheets ← gather (p.sheets.map fun plan => fillSheet plan s)
  return if p.normalizeNames then nameSheets sheets.flatten .empty else sheets.flatten

/-- The output sheets of a workbook, every plan filled in the scope `s`, gathered in order. -/
def fillApart (p : Plan) (s : σ) : Except FillError (List Sheet) :=
  p.fillConcurrently (fun results => results.mapM id) s

end Plan

end SheetFill.Template

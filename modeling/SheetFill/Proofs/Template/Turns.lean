import SheetFill.Proofs.Template.Isolation

/-!
# A filling, turn by turn

A filling yields one output sheet at a time, in a scope that each of them changes. All it does can be said
by recursion over what it has still to do: a sheet is filled for every node that is pending, then for every
plan in order, or for every node that the location of its name has by then. A *turn* is the filling of one
sheet: its plan, and the scope at that moment.

This holds in every scope, whatever the changes of a sheet leave behind for the next one.

## Main definitions

* `Turn` — the filling of one sheet.
* `Filling.turns` — the turns of a filling, and the scope after them.

## Main results

* `Filling.drain_eq_turns` — a filling yields what comes of its turns, under the names that it gives.
-/

namespace SheetFill.Template

open Output

/-- One sheet to be filled, and the scope in which its turn comes. -/
structure Turn (σ : Type) where
  plan : SheetPlan
  multiple : Bool
  scope : σ

variable {σ ν : Type} [Scope σ ν]

/-- What comes of a turn, before names are given. -/
def Turn.item (t : Turn σ) : Except FillError Sheet := (t.plan.fill t.multiple t.scope).1

namespace Filling

/-- The turns of nodes, one after the other. -/
def nodeTurns : List (SheetNode ν) → σ → List (Turn σ) × σ
  | [], s => ([], s)
  | n :: nodes, s =>
    let (turns, after) := nodeTurns nodes (fillNode n s).2
    (⟨n.plan, true, Scope.enter s n.location n.node⟩ :: turns, after)

/-- The turns of a plan: one, or one for every node of its name. -/
def planTurns (plan : SheetPlan) (s : σ) : List (Turn σ) × σ :=
  match plan.nameLocation? with
  | none => ([⟨plan, false, s⟩], (plan.fill false s).2)
  | some location => nodeTurns ((Scope.nodes s location).map fun node => ⟨plan, location, node⟩) s

/-- The turns of plans, one plan after the other. -/
def plansTurns : List SheetPlan → σ → List (Turn σ) × σ
  | [], s => ([], s)
  | plan :: plans, s =>
    let (turns, s) := planTurns plan s
    let (later, s) := plansTurns plans s
    (turns ++ later, s)

/-- The turns that are still to come, and the scope after them. -/
def turns (f : Filling ν) (s : σ) : List (Turn σ) × σ :=
  let (turns, s) := nodeTurns f.pending s
  let (later, s) := plansTurns f.plans s
  (turns ++ later, s)

/-! ## Steps -/

variable {f g : Filling ν} {s : σ}

theorem drain_congr (h : next f s = next g s) : drain f s = drain g s := by
  rcases hnext : next g s with ⟨item, g', s'⟩
  cases item with
  | none => rw [drain_of_next_none hnext, drain_of_next_none (h.trans hnext)]
  | some item => rw [drain_of_next_some hnext, drain_of_next_some (h.trans hnext)]

/-- The sheet of a pending node is yielded, and the others wait. -/
theorem drain_of_pending {n : SheetNode ν} {pending : List (SheetNode ν)}
    (hpending : f.pending = n :: pending) :
    let named := finish f (fillNode n s).1
    let rest := drain { named.2 with pending, plans := f.plans } (fillNode n s).2
    drain f s = (named.1 :: rest.1, rest.2) := by
  intro named rest
  refine drain_of_next_some ?_
  have hfinish : finish { f with pending } (fillNode n s).1 =
      (named.1, { named.2 with pending, plans := f.plans }) := finish_with f pending f.plans _
  simp only [next, hpending, hfinish]

/-- The sheet of a plan without a path in its name is yielded, and the other plans wait. -/
theorem drain_of_constant {plan : SheetPlan} {plans : List SheetPlan} (hpending : f.pending = [])
    (hplans : f.plans = plan :: plans) (hlocation : plan.nameLocation? = none) :
    let named := finish f (plan.fill false s).1
    let rest := drain { named.2 with pending := [], plans } (plan.fill false s).2
    drain f s = (named.1 :: rest.1, rest.2) := by
  intro named rest
  refine drain_of_next_some ?_
  simp only [next, hpending, hplans, nextPlan, hlocation, finish_with]
  rfl

/-- The step that begins a plan does what the step for its first node does, if there is one. -/
theorem next_of_path {plan : SheetPlan} {plans : List SheetPlan} {location : String}
    (hpending : f.pending = []) (hplans : f.plans = plan :: plans)
    (hlocation : plan.nameLocation? = some location) :
    next f s =
      next { f with
        pending := (Scope.nodes s location).map fun node => ⟨plan, location, node⟩
        plans } s := by
  have hlater (passed : List SheetPlan) :
      nextPlan f s passed = nextPlan { f with pending := [], plans } s passed := by
    induction passed with
    | nil => rfl
    | cons plan' passed ih =>
        simp only [nextPlan, ih]
  cases hnodes : Scope.nodes s location with
  | nil =>
      simp only [next, hpending, hplans, nextPlan, hlocation, hnodes, List.map_nil]
      exact hlater plans
  | cons node nodes => simp only [next, hpending, hplans, nextPlan, hlocation, hnodes, List.map_cons]

/-! ## Runs -/

/-- A filling yields what comes of its turns. -/
def YieldsTurns (f : Filling ν) (s : σ) : Prop :=
  drain f s = (f.named ((f.turns s).1.map Turn.item), (f.turns s).2)

/-- The pending nodes have their turns before the plans. -/
theorem yieldsTurns_of_plans {plans : List SheetPlan}
    (h : ∀ (g : Filling ν) (s : σ), g.pending = [] → g.plans = plans → YieldsTurns g s)
    (hplans : f.plans = plans) (s : σ) : YieldsTurns f s := by
  generalize hpending : f.pending = pending
  induction pending generalizing f s with
  | nil => exact h f s hpending hplans
  | cons n pending ih =>
      have hrest := ih (f := { (finish f (fillNode n s).1).2 with pending, plans }) rfl
        (fillNode n s).2 rfl
      have hdrain := drain_of_pending (s := s) hpending
      rw [hplans] at hdrain
      rw [YieldsTurns, turns] at hrest
      rw [YieldsTurns, turns, hdrain, hrest, hpending, hplans]
      simp only [nodeTurns, List.cons_append, List.map_cons, named_cons]
      rfl

/-- A filling yields what comes of its turns, one after the other, under the names that it gives. -/
theorem drain_eq_turns (f : Filling ν) (s : σ) :
    drain f s = (f.named ((f.turns s).1.map Turn.item), (f.turns s).2) := by
  have hall (plans : List SheetPlan) :
      ∀ (g : Filling ν) (s : σ), g.plans = plans → YieldsTurns g s := by
    induction plans with
    | nil =>
        intro g s hplans
        refine yieldsTurns_of_plans (fun g s hpending hplans => ?_) hplans s
        have hnext : next g s = (none, { g with pending := [], plans := [] }, s) := by
          rw [next, hpending, hplans]
          rfl
        rw [YieldsTurns, drain_of_next_none hnext, turns, hpending, hplans]
        simp [nodeTurns, plansTurns, named, nameItems]
    | cons plan plans ih =>
        intro g s hplans
        refine yieldsTurns_of_plans (fun g s hpending hplans => ?_) hplans s
        cases hlocation : plan.nameLocation? with
        | none =>
            have hrest := ih { (finish g (plan.fill false s).1).2 with pending := [], plans }
              (plan.fill false s).2 rfl
            rw [YieldsTurns, turns] at hrest
            rw [YieldsTurns, turns, drain_of_constant hpending hplans hlocation, hrest, hpending, hplans]
            simp only [nodeTurns, plansTurns, planTurns, hlocation, List.nil_append, List.cons_append,
              List.map_cons, named_cons]
            rfl
        | some location =>
            have hrest := ih { g with
              pending := (Scope.nodes s location).map fun node => ⟨plan, location, node⟩
              plans } s rfl
            rw [YieldsTurns, turns] at hrest
            rw [YieldsTurns, turns, drain_congr (next_of_path hpending hplans hlocation), hrest, hpending,
              hplans]
            simp only [nodeTurns, plansTurns, planTurns, hlocation, List.nil_append]
            rfl
  exact hall f.plans f s rfl

/-- Giving names neither makes sheets fail nor mends those that fail. -/
theorem error_mem_named_iff {items : List (Except FillError Sheet)} {e : FillError} :
    .error e ∈ f.named items ↔ .error e ∈ items := by
  have hnames (names : SheetNames) : .error e ∈ nameItems names items ↔ .error e ∈ items := by
    induction items generalizing names with
    | nil => rfl
    | cons item items ih =>
        cases item with
        | error e' => simp [nameItems, ih]
        | ok sheet => simp [nameItems, ih]
  rw [named]
  split
  · exact hnames f.names
  · rfl

end Filling

end SheetFill.Template

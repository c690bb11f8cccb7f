import Mathlib.Data.List.Forall2
import SheetFill.Proofs.Group.Expansion

/-!
# Where the rows of a group are made

An expansion descends through the tiers of a group and comes to a *point* at which a row is made: either
every tier stands at a node, or there is a tier without nodes, and the tiers below it are not reached. Each
point gives one row. At a tier without nodes the row is a placeholder: it has the cells of the tiers above
and those of the vacant tier, and no others.

## Main definitions

* `Point`, `Block.points` — where the rows of an expansion are made.
* `Row.MadeAt` — what a row has from its point.
* `vacantCells` — the cells of a tier without nodes.

## Main results

* `forall₂_points` — the points of an expansion and its rows correspond, in every scope.
* `cols_prefix_of_mem_expandTiers` — the columns of an expanded row are those of the first cells of the
  group's row.
-/

namespace SheetFill.Group

/-! ## Columns -/

/-- The columns of the cells of a row. -/
def Row.cols (r : Row) : List Nat := r.cells.map RowCell.col

/-- The columns of the cells of tiers. -/
def Tier.cols (tiers : List Tier) : List Nat := (tiers.flatMap Tier.cells).map (·.position.col)

theorem Tier.cols_cons (tier : Tier) (tiers : List Tier) :
    Tier.cols (tier :: tiers) = tier.cells.map (·.position.col) ++ Tier.cols tiers := by
  simp only [Tier.cols, List.flatMap_cons, List.map_append]

theorem Tier.cols_append (tiers others : List Tier) :
    Tier.cols (tiers ++ others) = Tier.cols tiers ++ Tier.cols others := by
  simp only [Tier.cols, List.flatMap_append, List.map_append]

variable {σ ν : Type} [Scope σ ν]

theorem Tier.col_evaluate (tier : Tier) (s : σ) :
    (tier.evaluate s).map RowCell.col = tier.cells.map (·.position.col) := by
  rw [Tier.evaluate, List.map_map]
  rfl

theorem Tier.col_evaluateBare (tier : Tier) (s : σ) :
    (tier.evaluateBare s).map RowCell.col = tier.cells.map (·.position.col) := by
  rw [Tier.evaluateBare, List.map_map]
  rfl

/-! ## Points -/

/--
A point at which a row is made: the tiers that stand at a node, those below them, the first of which has
no node, and the state in which the descent has ended.
-/
structure Point (σ : Type) where
  standing : List Tier
  waiting : List Tier
  state : σ

/-- The point seen from the tier above, which stands at a node. -/
def Point.inside {σ : Type} (tier : Tier) (p : Point σ) : Point σ :=
  { p with standing := tier :: p.standing }

/-- The points under the nodes of a tier, one node after the other. -/
def nodePoints (tier : Tier) (inner : σ → Expansion σ ν) (points : σ → List (Point σ)) :
    List ν → σ → List (Point σ)
  | [], _ => []
  | node :: nodes, s =>
    let entered := Scope.enter s tier.location node
    (points entered).map (Point.inside tier) ++
      nodePoints tier inner points nodes (Scope.release (inner entered).final tier.location)

/-- The points of tiers in iteration order. -/
def points : List Tier → σ → List (Point σ)
  | [], s => [⟨[], [], s⟩]
  | tier :: inner, s =>
    match Scope.nodes s tier.location with
    | [] => [⟨[], tier :: inner, s⟩]
    | node :: nodes => nodePoints tier (expandTiers inner) (points inner) (node :: nodes) s

/-- The points of a block. -/
def Block.points (b : Block) (s : σ) : List (Point σ) := Group.points b.nesting.tiers s

/-! ## Rows and their points -/

/--
A row of tiers that is made at a point. At a point with all tiers standing, the row has the columns of
all tiers. Where a tier has no node, the row is a placeholder with the columns of the tiers above, then the
given cells of the vacant tier, and nothing of the tiers below it.
-/
inductive Row.MadeAt (vacant : σ → Tier → List RowCell) (tiers : List Tier) : Point σ → Row → Prop
  | full {s : σ} {cells : List RowCell} (hcols : cells.map RowCell.col = Tier.cols tiers) :
      MadeAt vacant tiers ⟨tiers, [], s⟩ ⟨cells, false⟩
  | placeholder {standing : List Tier} {tier : Tier} {waiting : List Tier} {s : σ}
      {front : List RowCell} (htiers : standing ++ tier :: waiting = tiers)
      (hnodes : Scope.nodes s tier.location = [])
      (hcols : front.map RowCell.col = Tier.cols standing) :
      MadeAt vacant tiers ⟨standing, tier :: waiting, s⟩ ⟨front ++ vacant s tier, true⟩

namespace Row.MadeAt

variable {vacant : σ → Tier → List RowCell} {tiers : List Tier} {p : Point σ} {r : Row}

/-- A placeholder ends in the cells of a vacant tier. -/
theorem exists_suffix (h : r.MadeAt vacant tiers p) (hplaceholder : r.placeholder = true) :
    ∃ tier ∈ tiers, vacant p.state tier <:+ r.cells := by
  cases h with
  | full => exact Bool.noConfusion hplaceholder
  | @placeholder _ tier _ _ front htiers =>
      exact ⟨tier, by simp [← htiers], List.suffix_append front _⟩

/-- The cells of a vacant tier matter only where there is no node. -/
theorem mono {vacant' : σ → Tier → List RowCell}
    (heq : ∀ (s : σ) (tier : Tier), Scope.nodes s tier.location = [] → vacant s tier = vacant' s tier)
    (h : r.MadeAt vacant tiers p) : r.MadeAt vacant' tiers p := by
  cases h with
  | full hcols => exact .full hcols
  | placeholder htiers hnodes hcols =>
      rw [heq _ _ hnodes]
      exact .placeholder htiers hnodes hcols

/-- Cells of a tier above are put before the row. -/
theorem behind (h : r.MadeAt vacant tiers p) {tier : Tier} {cells : List RowCell}
    (hcells : cells.map RowCell.col = tier.cells.map (·.position.col)) :
    (r.behind cells).MadeAt vacant (tier :: tiers) (p.inside tier) := by
  cases h with
  | full hcols => exact .full (by rw [List.map_append, hcells, hcols, Tier.cols_cons])
  | placeholder htiers hnodes hcols =>
      rw [Row.behind, ← List.append_assoc]
      refine .placeholder (by rw [← htiers, List.cons_append]) hnodes ?_
      rw [List.map_append, hcells, hcols, Tier.cols_cons]

end Row.MadeAt

/-- What holds of the rows of the inner tiers at their points holds of them behind the outer cells. -/
theorem forall₂_rowsBehind {vacant : σ → Tier → List RowCell} {tier : Tier} {inner : List Tier}
    {ps : List (Point σ)} {rows : List Row} (h : List.Forall₂ (Row.MadeAt vacant inner) ps rows)
    {cells : List RowCell} (hcells : cells.map RowCell.col = tier.cells.map (·.position.col)) :
    List.Forall₂ (Row.MadeAt vacant (tier :: inner)) (ps.map (Point.inside tier))
      (rowsBehind cells rows) := by
  have hblanks : (blanks cells).map RowCell.col = tier.cells.map (·.position.col) := by
    rw [← hcells, blanks, List.map_map]
    rfl
  cases h with
  | nil => exact .nil
  | cons hfirst hlater =>
      refine .cons (hfirst.behind hcells) ?_
      rw [List.forall₂_map_left_iff, List.forall₂_map_right_iff]
      exact hlater.imp fun _ _ hrow => hrow.behind hblanks

/-- The cells of a tier without nodes, as an expansion evaluates them. -/
def vacantCells (s : σ) (tier : Tier) : List RowCell :=
  tier.evaluateBare (Scope.hideBelow s tier.location)

/-- An expansion makes one row at each of its points, in their order. -/
theorem forall₂_points (tiers : List Tier) (s : σ) :
    List.Forall₂ (Row.MadeAt vacantCells tiers) (points tiers s) (expandTiers tiers s).rows := by
  induction tiers generalizing s with
  | nil => exact .cons (.full rfl) .nil
  | cons tier inner ih =>
      have hnodeRows (nodes : List ν) (s : σ) :
          List.Forall₂ (Row.MadeAt vacantCells (tier :: inner))
            (nodePoints tier (expandTiers inner) (points inner) nodes s)
            (expandNodes tier (expandTiers inner) nodes s).rows := by
        induction nodes generalizing s with
        | nil => exact .nil
        | cons node nodes ihn =>
            exact List.rel_append (forall₂_rowsBehind (ih _) (tier.col_evaluate _)) (ihn _)
      cases hnodes : Scope.nodes s tier.location with
      | nil =>
          have hrow : Row.MadeAt vacantCells (tier :: inner) ⟨[], tier :: inner, s⟩
              ⟨[] ++ vacantCells s tier, true⟩ := .placeholder rfl hnodes rfl
          simp only [points, expandTiers_of_nil hnodes, hnodes]
          exact .cons hrow .nil
      | cons node nodes =>
          simpa only [points, expandTiers_of_cons hnodes, hnodes] using hnodeRows (node :: nodes) s

/-- The columns of an expanded row are those of the first cells of the group's row. -/
theorem cols_prefix_of_mem_expandTiers (tiers : List Tier) (s : σ) {r : Row}
    (h : r ∈ (expandTiers tiers s).rows) : r.cols <+: Tier.cols tiers := by
  obtain ⟨p, hrow⟩ : ∃ p, Row.MadeAt vacantCells tiers p r := by
    obtain ⟨k, hk, rfl⟩ := List.getElem_of_mem h
    have hpoints := forall₂_points tiers s
    have hlength := hpoints.length_eq
    exact ⟨_, hpoints.get (hlength ▸ hk) hk⟩
  cases hrow with
  | full hcols => exact hcols ▸ List.prefix_rfl
  | @placeholder standing tier waiting state front htiers _ hcols =>
      have hown : (vacantCells state tier).map RowCell.col = tier.cells.map (·.position.col) :=
        tier.col_evaluateBare _
      rw [Row.cols, List.map_append, hcols, hown, ← htiers, Tier.cols_append, Tier.cols_cons,
        ← List.append_assoc]
      exact List.prefix_append _ _

end SheetFill.Group

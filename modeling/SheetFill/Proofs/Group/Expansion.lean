import SheetFill.Group.Walk
import SheetFill.Proofs.Cell.Reading

/-!
# The walk through a group is a recursion over its tiers

`Walk` produces the rows of a group one at a time, from a stack of half-consumed frames. The rows can be
said more plainly by recursion: without a tier there is one empty row; a tier without nodes gives one
placeholder; otherwise each node of the tier is bound, the inner tiers are expanded, the tier's cells are
put before the first row that comes out of them, and the node is released.

The two agree in every scope, and not in their rows alone. `Recorded` is a scope that keeps a record of
the changes made to it, so that the changes are compared as well, in their order. A look-up changes
nothing, and its answer shows after which changes it was made.

## Main definitions

* `Change`, `Recorded` — what is done to a scope, and a scope that remembers it.
* `expandTiers`, `Block.expand` — rows, changes and final state by recursion.

## Main results

* `Walk.showRows_eq` — from a descent on, a walk yields the rows of the waiting tiers, each one behind the
  cells of the frames above, and goes on as if the waiting tiers had not been entered.
* `Block.rows_eq_expand` — walk and recursion agree, and a walk that is asked often enough is over.
-/

namespace SheetFill

/-! ## Scopes that remember -/

/-- A change of a scope. -/
inductive Change (ν : Type) where
  | bind (path : String) (node : ν)
  | hideBelow (path : String)
  | release (path : String)
  deriving DecidableEq, Repr

/-- A scope together with the changes that were made to it, the first change first. -/
structure Recorded (σ ν : Type) where
  state : σ
  changes : List (Change ν)

/-- The scope before any change. -/
def Recorded.start {σ ν : Type} (s : σ) : Recorded σ ν := ⟨s, []⟩

instance {σ ν : Type} [Scope σ ν] : Scope (Recorded σ ν) ν where
  nodes r path := Scope.nodes r.state path
  text r location key search := Scope.text r.state location key search
  bind r path node := ⟨Scope.bind r.state path node, r.changes ++ [.bind path node]⟩
  hideBelow r path := ⟨Scope.hideBelow r.state path, r.changes ++ [.hideBelow path]⟩
  release r path := ⟨Scope.release r.state path, r.changes ++ [.release path]⟩

/-- The record is not seen by any cell. -/
theorem Recorded.sameTexts {σ ν : Type} [Scope σ ν] (r : Recorded σ ν) : SameTexts r r.state :=
  fun _ _ _ => rfl

namespace Group

variable {σ ν : Type} [Scope σ ν]

/-! ## The recursion -/

/-- What comes of expanding tiers in a scope. -/
structure Expansion (σ ν : Type) where
  rows : List Row
  changes : List (Change ν)
  final : σ

/-- A row with cells of an outer tier put before its own. -/
def Row.behind (cells : List RowCell) (r : Row) : Row := { r with cells := cells ++ r.cells }

/-- Cells in the same columns, with empty values and without filters. -/
def blanks (cells : List RowCell) : List RowCell :=
  cells.map fun c => { col := c.col, value := "", filters := [] }

/-- Rows behind the cells of an outer tier, which have content in the first row only. -/
def rowsBehind (cells : List RowCell) : List Row → List Row
  | [] => []
  | first :: later => first.behind cells :: later.map (Row.behind (blanks cells))

/-- One node of a tier after the other, each with its own expansion of the inner tiers. -/
def expandNodes (tier : Tier) (inner : σ → Expansion σ ν) : List ν → σ → Expansion σ ν
  | [], s => ⟨[], [], s⟩
  | node :: nodes, s =>
    let entered := Scope.enter s tier.location node
    let e := inner entered
    let rest := expandNodes tier inner nodes (Scope.release e.final tier.location)
    let cells := tier.cells.map fun c =>
      let (value, filters) := c.formula.resolve entered false
      { col := c.position.col, value, filters }
    { rows := rowsBehind cells e.rows ++ rest.rows
      changes := .bind tier.location node :: .hideBelow tier.location ::
        (e.changes ++ .release tier.location :: rest.changes)
      final := rest.final }

/-- Rows, changes and final state of tiers in iteration order. -/
def expandTiers : List Tier → σ → Expansion σ ν
  | [], s => ⟨[⟨[], false⟩], [], s⟩
  | tier :: inner, s =>
    match Scope.nodes s tier.location with
    | [] =>
      let s := Scope.hideBelow s tier.location
      let cells := tier.cells.map fun c =>
        { col := c.position.col, value := c.formula.body.value s false, filters := [] }
      ⟨[⟨cells, true⟩], [.hideBelow tier.location], s⟩
    | node :: nodes => expandNodes tier (expandTiers inner) (node :: nodes) s

/-- Rows, changes and final state of a block. -/
def Block.expand (b : Block) (s : σ) : Expansion σ ν := expandTiers b.nesting.tiers s

theorem expandNodes_cons (tier : Tier) (inner : σ → Expansion σ ν) (node : ν) (nodes : List ν) (s : σ) :
    let entered := Scope.enter s tier.location node
    let e := inner entered
    let rest := expandNodes tier inner nodes (Scope.release e.final tier.location)
    expandNodes tier inner (node :: nodes) s =
      { rows := rowsBehind (tier.evaluate entered) e.rows ++ rest.rows
        changes := .bind tier.location node :: .hideBelow tier.location ::
          (e.changes ++ .release tier.location :: rest.changes)
        final := rest.final } := rfl

theorem expandTiers_of_nil {tier : Tier} {s : σ} (h : Scope.nodes s tier.location = []) (inner : List Tier) :
    let hidden := Scope.hideBelow s tier.location
    expandTiers (tier :: inner) s =
      ⟨[⟨tier.evaluateBare hidden, true⟩], [.hideBelow tier.location], hidden⟩ := by
  simp only [expandTiers, h, Tier.evaluateBare]

theorem expandTiers_of_cons {tier : Tier} {s : σ} {node : ν} {nodes : List ν}
    (h : Scope.nodes s tier.location = node :: nodes) (inner : List Tier) :
    expandTiers (tier :: inner) s = expandNodes tier (expandTiers inner) (node :: nodes) s := by
  simp only [expandTiers, h]

/-! ## Rows behind cells -/

/-- The walk clears cells to blanks. -/
theorem map_cleared (cells : List RowCell) : cells.map RowCell.cleared = blanks cells := rfl

@[simp] theorem blanks_append (outer cells : List RowCell) :
    blanks (outer ++ cells) = blanks outer ++ blanks cells := List.map_append

/-- Cells without content stay as they are. -/
@[simp] theorem blanks_blanks (cells : List RowCell) : blanks (blanks cells) = blanks cells := by
  rw [blanks, blanks, List.map_map]
  rfl

theorem rowsBehind_nil (rows : List Row) : rowsBehind [] rows = rows := by
  cases rows with
  | nil => rfl
  | cons first later =>
      have hid : Row.behind (blanks []) = id := by
        funext r
        rfl
      rw [rowsBehind, hid, List.map_id]
      rfl

/-- Putting cells before rows that have cells put before them is putting both before the rows. -/
theorem rowsBehind_rowsBehind (outer cells : List RowCell) (rows : List Row) :
    rowsBehind outer (rowsBehind cells rows) = rowsBehind (outer ++ cells) rows := by
  cases rows with
  | nil => rfl
  | cons first later => simp [rowsBehind, Row.behind]

/-- Of rows behind cells, those after the first stretch see the cells without content. -/
theorem rowsBehind_append (cells : List RowCell) {rows : List Row} (h : rows ≠ [])
    (later : List Row) :
    rowsBehind cells (rows ++ later) =
      rowsBehind cells rows ++ rowsBehind (blanks cells) later := by
  cases rows with
  | nil => exact absurd rfl h
  | cons first rows =>
      cases later with
      | nil => simp [rowsBehind]
      | cons next later => simp [rowsBehind]

theorem rowsBehind_ne_nil {rows : List Row} (h : rows ≠ []) (cells : List RowCell) :
    rowsBehind cells rows ≠ [] := by
  cases rows with
  | nil => exact absurd rfl h
  | cons first later => simp [rowsBehind]

/-- Every expansion has a row, so the cells of an outer tier are shown. -/
theorem expandTiers_rows_ne_nil (tiers : List Tier) (s : σ) : (expandTiers tiers s).rows ≠ [] := by
  induction tiers generalizing s with
  | nil => simp [expandTiers]
  | cons tier inner ih =>
      cases hnodes : Scope.nodes s tier.location with
      | nil => simp [expandTiers_of_nil hnodes]
      | cons node nodes =>
          have hrows := rowsBehind_ne_nil (ih (Scope.enter s tier.location node))
            (tier.evaluate (Scope.enter s tier.location node))
          simp [expandTiers_of_cons hnodes, expandNodes_cons, hrows]

/-! ## The rows from a descent on -/

namespace Frame

/-- The frame after its cells were shown. -/
def seen (f : Frame ν) : Frame ν := { f with emitted := true }

@[simp] theorem seen_comp_seen : (seen ∘ seen : Frame ν → Frame ν) = seen := rfl

theorem shown_seen (f : Frame ν) : f.seen.shown = blanks f.shown := by
  by_cases h : f.emitted = true
  · simp [shown, seen, h, map_cleared]
  · simp [shown, seen, h, map_cleared]

end Frame

namespace Walk

/-- The cells of frames in the next row, the outermost frame first. -/
def shownCells (entered : List (Frame ν)) : List RowCell := entered.reverse.flatMap Frame.shown

theorem shownCells_cons (f : Frame ν) (entered : List (Frame ν)) :
    shownCells (f :: entered) = shownCells entered ++ f.shown := by
  simp [shownCells]

theorem shownCells_seen (entered : List (Frame ν)) :
    shownCells (entered.map Frame.seen) = blanks (shownCells entered) := by
  induction entered with
  | nil => rfl
  | cons f entered ih =>
      rw [List.map_cons, shownCells_cons, shownCells_cons, ih, Frame.shown_seen, blanks_append]

/-- A walk whose frames were all shown. -/
def between (entered : List (Frame ν)) (waiting : List Tier) : Walk ν :=
  ⟨⟨entered.map Frame.seen, waiting⟩, .running⟩

/-- All rows of a walk that is about to descend. -/
def showRows (entered : List (Frame ν)) (waiting : List Tier) (s : σ) : List Row × σ :=
  let (frames, s) := descend entered waiting s
  let (rows, s) := drain (between frames.entered frames.waiting) s
  (currentRow frames.entered :: rows, s)

theorem drain_of_next_none {w w' : Walk ν} {s s' : σ} (h : next w s = (none, w', s')) :
    drain w s = ([], s') := by
  rw [drain]
  split
  · next heq =>
      rw [h] at heq
      simp only [Prod.mk.injEq] at heq
      rw [heq.2.2]
  · next heq =>
      rw [h] at heq
      simp at heq

theorem drain_of_next_some {w w' : Walk ν} {s s' : σ} {row : Row}
    (h : next w s = (some row, w', s')) :
    drain w s = (row :: (drain w' s').1, (drain w' s').2) := by
  rw [drain]
  split
  · next heq =>
      rw [h] at heq
      simp at heq
  · next heq =>
      rw [h] at heq
      simp only [Prod.mk.injEq, Option.some.injEq] at heq
      obtain ⟨rfl, rfl, rfl⟩ := heq
      rfl

/-- A walk says that there is no row only when it is over. -/
theorem phase_of_next_none {w w' : Walk ν} {s s' : σ} (h : next w s = (none, w', s')) :
    w'.phase = .done := by
  unfold next at h
  split at h
  · next hdone =>
      simp only [Prod.mk.injEq, true_and] at h
      rw [← h.1, hdone]
  · split at h <;> simp at h
  · dsimp only at h
    split at h
    · simp only [Prod.mk.injEq, true_and] at h
      rw [← h.1]
    · simp at h

/-- Between two rows, what a walk does depends on where its frames are moved to. -/
theorem drain_between (entered : List (Frame ν)) (waiting : List Tier) (s : σ) :
    drain (between entered waiting) s =
      match advance (entered.map Frame.seen) waiting s with
      | (⟨[], _⟩, s) => ([], s)
      | (⟨f :: outer, waiting⟩, s) => showRows (f :: outer) waiting s := by
  cases hadv : advance (entered.map Frame.seen) waiting s with
  | mk frames s' =>
      obtain ⟨moved, waiting'⟩ := frames
      cases moved with
      | nil =>
          have hnext : next (between entered waiting) s = (none, ⟨⟨[], waiting'⟩, .done⟩, s') := by
            simp [next, between, hadv]
          rw [drain_of_next_none hnext]
      | cons f outer =>
          have hnext : next (between entered waiting) s =
              (some (currentRow (descend (f :: outer) waiting' s').1.entered),
                between (descend (f :: outer) waiting' s').1.entered
                  (descend (f :: outer) waiting' s').1.waiting,
                (descend (f :: outer) waiting' s').2) := by
            simp only [next, between, hadv]
            rfl
          rw [drain_of_next_some hnext]
          rfl

/-- A frame without a node and without nodes to come is left. -/
theorem drain_between_vacant (tier : Tier) (t : σ) (outer : List (Frame ν)) (waiting : List Tier)
    (s : σ) :
    drain (between (Frame.vacant tier t :: outer) waiting) s =
      drain (between outer (tier :: waiting)) s := by
  rw [drain_between, drain_between]
  rfl

/-- A frame at its last node is left after the node was released. -/
theorem drain_between_last (tier : Tier) (t : σ) (outer : List (Frame ν)) (waiting : List Tier)
    (s : σ) :
    drain (between (Frame.standing tier [] t :: outer) waiting) s =
      drain (between outer (tier :: waiting)) (Scope.release s tier.location) := by
  rw [drain_between, drain_between]
  rfl

/-- A frame with nodes to come releases its node and moves to the next one. -/
theorem drain_between_sibling (tier : Tier) (node : ν) (nodes : List ν) (t : σ)
    (outer : List (Frame ν)) (waiting : List Tier) (s : σ) :
    drain (between (Frame.standing tier (node :: nodes) t :: outer) waiting) s =
      let entered := Scope.enter (Scope.release s tier.location) tier.location node
      showRows (Frame.standing tier nodes entered :: outer.map Frame.seen) waiting entered := by
  rw [drain_between]
  rfl

theorem between_seen (entered : List (Frame ν)) (waiting : List Tier) :
    between (entered.map Frame.seen) waiting = between entered waiting := by
  simp [between]

/--
A frame that stands at a node whose rows are out yields the rows of its other nodes, behind the cells of
the frames above it, and is left.
-/
theorem drain_between_standing (tier : Tier) (waiting : List Tier)
    (ih : ∀ (entered : List (Frame ν)) (s : σ), (∀ f ∈ entered.head?, f.bound = true) →
      showRows entered waiting s =
        (rowsBehind (shownCells entered) (expandTiers waiting s).rows ++
            (drain (between entered waiting) (expandTiers waiting s).final).1,
          (drain (between entered waiting) (expandTiers waiting s).final).2))
    (nodes : List ν) (t : σ) (outer : List (Frame ν)) (s : σ) :
    drain (between (Frame.standing tier nodes t :: outer) waiting) s =
      let e := expandNodes tier (expandTiers waiting) nodes (Scope.release s tier.location)
      let rest := drain (between outer (tier :: waiting)) e.final
      (rowsBehind (blanks (shownCells outer)) e.rows ++ rest.1, rest.2) := by
  induction nodes generalizing t s with
  | nil => exact drain_between_last tier t outer waiting s
  | cons node nodes ihn =>
      rw [drain_between_sibling]
      dsimp only
      generalize hs : Scope.enter (Scope.release s tier.location) tier.location node = entered
      have hne := rowsBehind_ne_nil (expandTiers_rows_ne_nil waiting entered)
        (tier.evaluate entered)
      have hbound : ∀ f ∈ (Frame.standing tier nodes entered :: outer.map Frame.seen).head?,
          f.bound = true := by
        simp [Frame.standing]
      rw [ih _ _ hbound, ← between_seen, List.map_cons, List.map_map, Frame.seen_comp_seen,
        ← List.map_cons, between_seen, ihn]
      simp only [expandNodes_cons, hs]
      rw [rowsBehind_append _ hne, rowsBehind_rowsBehind, shownCells_cons, shownCells_seen,
        blanks_blanks, List.append_assoc]
      rfl

/--
From a descent on, a walk yields the rows of the waiting tiers behind the cells of its frames. What it
does then, it would also do had it not entered the waiting tiers at all.
-/
theorem showRows_eq (waiting : List Tier) (entered : List (Frame ν)) (s : σ)
    (hbound : ∀ f ∈ entered.head?, f.bound = true) :
    showRows entered waiting s =
      (rowsBehind (shownCells entered) (expandTiers waiting s).rows ++
          (drain (between entered waiting) (expandTiers waiting s).final).1,
        (drain (between entered waiting) (expandTiers waiting s).final).2) := by
  induction waiting generalizing entered s with
  | nil =>
      have hrow : currentRow entered = ⟨shownCells entered, false⟩ := by
        cases entered with
        | nil => rfl
        | cons f outer =>
            have hf : f.bound = true := hbound f rfl
            simp [currentRow, shownCells, hf]
      simp [showRows, descend, expandTiers, rowsBehind, Row.behind, Row.empty, hrow]
  | cons tier waiting ih =>
      cases hnodes : Scope.nodes s tier.location with
      | nil =>
          simp only [showRows, descend, expandTiers_of_nil hnodes, hnodes]
          rw [drain_between_vacant]
          simp [currentRow, rowsBehind, Row.behind, Frame.vacant, Frame.shown, shownCells]
      | cons node nodes =>
          have hdescend : showRows entered (tier :: waiting) s =
              showRows (Frame.standing tier nodes (Scope.enter s tier.location node) :: entered)
                waiting (Scope.enter s tier.location node) := by
            simp only [showRows, descend, hnodes]
          have hne := rowsBehind_ne_nil
            (expandTiers_rows_ne_nil waiting (Scope.enter s tier.location node))
            (tier.evaluate (Scope.enter s tier.location node))
          rw [hdescend, ih _ _ (by simp [Frame.standing]), drain_between_standing tier waiting ih]
          simp only [expandTiers_of_cons hnodes, expandNodes_cons]
          rw [rowsBehind_append _ hne, rowsBehind_rowsBehind, shownCells_cons, List.append_assoc]
          rfl

/-- All rows of a walk are those of the recursion, and so is the state they leave. -/
theorem drain_ofTiers (tiers : List Tier) (s : σ) :
    drain (ofTiers tiers) s = ((expandTiers tiers s).rows, (expandTiers tiers s).final) := by
  cases tiers with
  | nil =>
      have hfirst : next (ofTiers []) s = (some Row.empty, (⟨⟨[], []⟩, .done⟩ : Walk ν), s) := rfl
      have hsecond : next (⟨⟨[], []⟩, .done⟩ : Walk ν) s = (none, ⟨⟨[], []⟩, .done⟩, s) := rfl
      rw [drain_of_next_some hfirst, drain_of_next_none hsecond]
      rfl
  | cons tier tiers =>
      have hstart : drain (ofTiers (tier :: tiers)) s = showRows [] (tier :: tiers) s := by
        have hnext : next (ofTiers (tier :: tiers)) s =
            (some (currentRow (descend [] (tier :: tiers) s).1.entered),
              between (descend [] (tier :: tiers) s).1.entered
                (descend [] (tier :: tiers) s).1.waiting,
              (descend [] (tier :: tiers) s).2) := rfl
        rw [drain_of_next_some hnext]
        rfl
      have hover (t : σ) : drain (between ([] : List (Frame ν)) (tier :: tiers)) t = ([], t) := by
        rw [drain_between]
        rfl
      rw [hstart, showRows_eq _ _ _ (by simp), hover]
      simp only [shownCells, List.reverse_nil, List.flatMap_nil, rowsBehind_nil, List.append_nil]

/-- A walk that is asked for more rows than it has is over, and has given all of them. -/
theorem take_of_length_lt (w : Walk ν) (s : σ) (n : Nat) (h : (drain w s).1.length < n) :
    ∃ w' : Walk ν, w'.phase = .done ∧ take n w s = ((drain w s).1, w', (drain w s).2) := by
  induction n generalizing w s with
  | zero => exact absurd h (Nat.not_lt_zero _)
  | succ n ih =>
      match hnext : next w s with
      | (none, w', s') =>
          refine ⟨w', phase_of_next_none hnext, ?_⟩
          rw [drain_of_next_none hnext]
          simp [take, hnext]
      | (some row, w', s') =>
          rw [drain_of_next_some hnext] at h ⊢
          obtain ⟨last, hlast, htake⟩ := ih w' s' (by simpa using h)
          refine ⟨last, hlast, ?_⟩
          simp [take, hnext, htake]

end Walk

/-! ## Recording the changes -/

/-- Recording does not disturb an expansion of nodes, and records its changes. -/
theorem expandNodes_recorded (tier : Tier) (inner : List Tier)
    (ih : ∀ (s : σ) (before : List (Change ν)),
      expandTiers inner (⟨s, before⟩ : Recorded σ ν) =
        ⟨(expandTiers inner s).rows, (expandTiers inner s).changes,
          (expandTiers inner s).final, before ++ (expandTiers inner s).changes⟩)
    (nodes : List ν) (s : σ) (before : List (Change ν)) :
    expandNodes tier (expandTiers inner) nodes (⟨s, before⟩ : Recorded σ ν) =
      let e := expandNodes tier (expandTiers inner) nodes s
      ⟨e.rows, e.changes, e.final, before ++ e.changes⟩ := by
  induction nodes generalizing s before with
  | nil => simp [expandNodes]
  | cons node nodes ihn =>
      have henter : Scope.enter (⟨s, before⟩ : Recorded σ ν) tier.location node =
          ⟨Scope.enter s tier.location node,
            before ++ [.bind tier.location node] ++ [.hideBelow tier.location]⟩ := rfl
      have hrelease (t : σ) (changes : List (Change ν)) :
          Scope.release (⟨t, changes⟩ : Recorded σ ν) tier.location =
            ⟨Scope.release t tier.location, changes ++ [.release tier.location]⟩ := rfl
      have heval (t : σ) (changes : List (Change ν)) :
          tier.evaluate (⟨t, changes⟩ : Recorded σ ν) = tier.evaluate t :=
        Tier.evaluate_congr ((Recorded.sameTexts ⟨t, changes⟩).on tier.locations)
      simp only [expandNodes_cons, henter, ih, hrelease, heval, ihn]
      simp

/-- Recording does not disturb an expansion, and records its changes. -/
theorem expandTiers_recorded (tiers : List Tier) (s : σ) (before : List (Change ν)) :
    expandTiers tiers (⟨s, before⟩ : Recorded σ ν) =
      ⟨(expandTiers tiers s).rows, (expandTiers tiers s).changes,
        (expandTiers tiers s).final, before ++ (expandTiers tiers s).changes⟩ := by
  induction tiers generalizing s before with
  | nil => simp [expandTiers]
  | cons tier inner ih =>
      have hnodes : Scope.nodes (⟨s, before⟩ : Recorded σ ν) tier.location =
          Scope.nodes s tier.location := rfl
      cases h : Scope.nodes s tier.location with
      | nil =>
          have hhide : Scope.hideBelow (⟨s, before⟩ : Recorded σ ν) tier.location =
              ⟨Scope.hideBelow s tier.location, before ++ [.hideBelow tier.location]⟩ := rfl
          have heval : tier.evaluateBare (⟨Scope.hideBelow s tier.location,
                before ++ [.hideBelow tier.location]⟩ : Recorded σ ν) =
              tier.evaluateBare (Scope.hideBelow s tier.location) :=
            Tier.evaluateBare_congr ((Recorded.sameTexts ⟨_, _⟩).on tier.locations)
          rw [expandTiers_of_nil (hnodes.trans h), expandTiers_of_nil h]
          simp only [hhide, heval]
      | cons node nodes =>
          rw [expandTiers_of_cons (hnodes.trans h), expandTiers_of_cons h]
          exact expandNodes_recorded tier inner ih (node :: nodes) s before

/-! ## The rows of a block -/

/--
The walk through a block yields the rows of the recursion, with the same changes of the scope in the same
order and the same final state; and it is over as soon as it was asked for one row too many.
-/
theorem Block.rows_eq_expand (b : Block) (s : σ) :
    b.rows s = ((b.expand s).rows, (b.expand s).final) ∧
      b.rows (Recorded.start s) =
        ((b.expand s).rows, ⟨(b.expand s).final, (b.expand s).changes⟩) ∧
      ∀ more : Nat, ∃ w : Walk ν, w.phase = .done ∧
        Walk.take ((b.expand s).rows.length + 1 + more) (Walk.ofTiers b.nesting.tiers) s =
          ((b.expand s).rows, w, (b.expand s).final) := by
  have hdrain : Walk.drain (Walk.ofTiers b.nesting.tiers) s =
      ((b.expand s).rows, (b.expand s).final) := Walk.drain_ofTiers b.nesting.tiers s
  refine ⟨hdrain, ?_, fun more => ?_⟩
  · rw [Block.rows, Walk.drain_ofTiers, Recorded.start, expandTiers_recorded]
    simp [Block.expand]
  · have htake := Walk.take_of_length_lt (Walk.ofTiers b.nesting.tiers) s
      ((b.expand s).rows.length + 1 + more) (by rw [hdrain]; dsimp only; omega)
    rwa [hdrain] at htake

end Group

end SheetFill

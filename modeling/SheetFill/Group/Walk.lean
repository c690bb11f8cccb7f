import SheetFill.Group.Block
import SheetFill.Group.CounterStack
import SheetFill.Group.Row

/-!
# Walking through a group

The rows of a group are produced one at a time. The walk keeps a *frame* for every tier that it has
entered, the innermost first, and the tiers that wait below. A step leaves the frames whose nodes are
used up, moves the innermost other one to its next node, enters the waiting tiers again and evaluates
the cells of every tier that it has moved.

A node is bound while its tier stands at it, and released before the next one is bound; a tier without
nodes ends the descent with a placeholder. A frame shows its cells in the first row after it was moved,
and leaves them empty in the rows below.

A walk may be abandoned at any point, which releases the nodes that are still bound.

## Main definitions

* `Walk.next` — the next row, if there is one.
* `Walk.take`, `Walk.drain` — at most `n` rows, and all rows; `Walk.abandon` ends a walk early.
* `Block.rows`, `Block.takeRows` — the rows of a block.

## Main results

* `Walk.before_of_next` — a step lowers the stack of counters of a walk, so a walk ends.
-/

namespace SheetFill.Group

open Cell

/-- A tier that the walk has entered. -/
structure Frame (ν : Type) where
  tier : Tier
  /-- The nodes that are still to come. -/
  pending : List ν
  /-- The evaluated cells. -/
  part : List RowCell
  /-- Were the cells shown in a row already? -/
  emitted : Bool
  /-- Is a node of the tier bound? -/
  bound : Bool

/-- The frames of the tiers entered, the innermost first, and the tiers below them. -/
structure Frames (ν : Type) where
  entered : List (Frame ν)
  waiting : List Tier

/-- Whether a walk has begun, goes on or is over. -/
inductive Phase where
  | start
  | running
  | done
  deriving DecidableEq, Repr

/-- A walk through the nodes of the tiers of a group. -/
structure Walk (ν : Type) where
  frames : Frames ν
  phase : Phase

namespace Frame

variable {ν : Type}

/-- The frame of a tier that stands at a node just bound. -/
def standing {σ : Type} [Scope σ ν] (tier : Tier) (pending : List ν) (s : σ) : Frame ν :=
  { tier, pending, part := tier.evaluate s, emitted := false, bound := true }

/-- The frame of a tier without nodes. -/
def vacant {σ : Type} [Scope σ ν] (tier : Tier) (s : σ) : Frame ν :=
  { tier, pending := [], part := tier.evaluateBare s, emitted := false, bound := false }

/-- The cells as they appear in the next row. -/
def shown (f : Frame ν) : List RowCell :=
  if f.emitted then f.part.map RowCell.cleared else f.part

end Frame

namespace Walk

variable {σ ν : Type} [Scope σ ν]

/-- The walk through the given tiers, before its first row. -/
def ofTiers (tiers : List Tier) : Walk ν := ⟨⟨[], tiers⟩, .start⟩

/-- Enters the waiting tiers, down to the innermost one or to one without nodes. -/
def descend (entered : List (Frame ν)) : List Tier → σ → Frames ν × σ
  | [], s => (⟨entered, []⟩, s)
  | tier :: waiting, s =>
    match Scope.nodes s tier.location with
    | [] =>
      let s := Scope.hideBelow s tier.location
      (⟨.vacant tier s :: entered, waiting⟩, s)
    | node :: pending =>
      let s := Scope.enter s tier.location node
      descend (.standing tier pending s :: entered) waiting s

/-- Releases the node of the innermost frame and moves it on; a frame without a next node is left. -/
def advance : List (Frame ν) → List Tier → σ → Frames ν × σ
  | [], waiting, s => (⟨[], waiting⟩, s)
  | f :: outer, waiting, s =>
    let s := if f.bound then Scope.release s f.tier.location else s
    match f.pending with
    | [] => advance outer (f.tier :: waiting) s
    | node :: pending =>
      let s := Scope.enter s f.tier.location node
      (⟨.standing f.tier pending s :: outer, waiting⟩, s)

/-- The row of the frames as they stand. -/
def currentRow (entered : List (Frame ν)) : Row :=
  { cells := entered.reverse.flatMap Frame.shown
    placeholder := match entered with
      | [] => false
      | f :: _ => !f.bound }

/-- Shows the current row; the frames take note that their cells were shown. -/
def emit (frames : Frames ν) : Row × Walk ν :=
  (currentRow frames.entered,
    ⟨⟨frames.entered.map fun f => { f with emitted := true }, frames.waiting⟩, .running⟩)

/-- The next row. Without tiers there is one row, and it is empty. -/
def next (w : Walk ν) (s : σ) : Option Row × Walk ν × σ :=
  match w.phase with
  | .done => (none, w, s)
  | .start =>
    match w.frames.waiting with
    | [] => (some .empty, { w with phase := .done }, s)
    | tier :: waiting =>
      let (frames, s) := descend w.frames.entered (tier :: waiting) s
      let (row, w) := emit frames
      (some row, w, s)
  | .running =>
    let (frames, s) := advance w.frames.entered w.frames.waiting s
    match frames.entered with
    | [] => (none, ⟨frames, .done⟩, s)
    | f :: outer =>
      let (frames, s) := descend (f :: outer) frames.waiting s
      let (row, w) := emit frames
      (some row, w, s)

/-- Releases what the walk has bound, the innermost node first. -/
def abandon (w : Walk ν) (s : σ) : σ :=
  w.frames.entered.foldl (fun s f => if f.bound then Scope.release s f.tier.location else s) s

/-- At most `n` rows, with the walk as it stands after them. -/
def take : Nat → Walk ν → σ → List Row × Walk ν × σ
  | 0, w, s => ([], w, s)
  | n + 1, w, s =>
    match next w s with
    | (none, w, s) => ([], w, s)
    | (some row, w, s) =>
      let (rows, w, s) := take n w s
      (row :: rows, w, s)

/-! ## Every walk ends -/

/-- The numbers of pending nodes, as a stack of counters. -/
def Frames.counters (frames : Frames ν) : CounterStack :=
  ⟨frames.entered.map (·.pending.length), frames.waiting.length⟩

/-- The later a phase, the lower its rank. -/
def Phase.rank : Phase → Nat
  | .start => 2
  | .running => 1
  | .done => 0

/-- `Before after before`: the phase has moved on, or the counters have made a step. -/
def Before (after before : Walk ν) : Prop :=
  Prod.Lex (· < ·) CounterStack.Step
    (Phase.rank after.phase, Frames.counters after.frames)
    (Phase.rank before.phase, Frames.counters before.frames)

theorem before_wf : WellFounded (Before (ν := ν)) :=
  InvImage.wf (fun w : Walk ν => (Phase.rank w.phase, Frames.counters w.frames))
    (Prod.lex ⟨_, Nat.lt_wfRel.wf⟩ ⟨_, CounterStack.step_wf⟩).wf

instance : WellFoundedRelation (Walk ν) := ⟨Before, before_wf⟩

theorem descend_counters (entered : List (Frame ν)) (waiting : List Tier) (s : σ) :
    ∃ new : List (Frame ν), (descend entered waiting s).1.entered = new ++ entered ∧
      new.length + (descend entered waiting s).1.waiting.length = waiting.length := by
  induction waiting generalizing entered s with
  | nil => exact ⟨[], rfl, rfl⟩
  | cons tier waiting ih =>
      simp only [descend]
      split
      · exact ⟨[_], rfl, by simp [Nat.add_comm]⟩
      · next node pending _ =>
          obtain ⟨new, hnew, hlen⟩ := ih
            (.standing tier pending (Scope.enter s tier.location node) :: entered)
            (Scope.enter s tier.location node)
          refine ⟨new ++ [.standing tier pending (Scope.enter s tier.location node)], ?_, ?_⟩
          · rw [hnew, List.append_assoc]
            rfl
          · simp only [List.length_append, List.length_cons, List.length_nil]
            omega

theorem advance_counters (entered : List (Frame ν)) (waiting : List Tier) (s : σ) {f : Frame ν}
    {outer : List (Frame ν)} (h : (advance entered waiting s).1.entered = f :: outer) :
    ∃ (left : List (Frame ν)) (g : Frame ν), entered = left ++ g :: outer ∧
      g.pending.length = f.pending.length + 1 ∧
      (advance entered waiting s).1.waiting.length = left.length + waiting.length := by
  induction entered generalizing waiting s with
  | nil => simp [advance] at h
  | cons g rest ih =>
      simp only [advance] at h ⊢
      split
      · next hp =>
          rw [hp] at h
          obtain ⟨left, g', hrest, hg, hlen⟩ := ih _ _ h
          refine ⟨g :: left, g', by simp [hrest], hg, ?_⟩
          simp only [List.length_cons] at hlen ⊢
          omega
      · next node pending hp =>
          rw [hp] at h
          obtain ⟨hf, hrest⟩ := List.cons.inj h
          refine ⟨[], g, by simp [hrest], ?_, by simp⟩
          rw [hp, ← hf]
          rfl

/-- A step that yields a row makes progress. -/
theorem before_of_next {w w' : Walk ν} {s s' : σ} {row : Row}
    (h : next w s = (some row, w', s')) : Before w' w := by
  unfold next at h
  unfold Before
  split at h
  · simp at h
  · next hw =>
      rw [hw]
      split at h
      · obtain ⟨-, rfl, -⟩ := h
        exact Prod.Lex.left _ _ (by simp [Phase.rank])
      · obtain ⟨-, rfl, -⟩ := h
        exact Prod.Lex.left _ _ (by simp [Phase.rank])
  · next hw =>
      rw [hw]
      dsimp only at h
      split at h
      · simp at h
      · next f outer hadv =>
          obtain ⟨-, rfl, -⟩ := h
          obtain ⟨left, g, hentered, hg, hwait⟩ := advance_counters _ _ _ hadv
          generalize advance w.frames.entered w.frames.waiting s = moved at hadv hwait
          obtain ⟨new, hnew, hlen⟩ := descend_counters (f :: outer) moved.1.waiting moved.2
          simp only [emit, Frames.counters, Phase.rank, List.map_map, Function.comp_def]
          refine Prod.Lex.right _ ?_
          rw [hnew, hentered]
          simp only [List.map_append, List.map_cons, hg]
          refine CounterStack.Step.mk _ _ _ _ _ _ ?_
          simp only [List.length_map]
          omega

/-- All rows. -/
def drain (w : Walk ν) (s : σ) : List Row × σ :=
  match _h : next w s with
  | (none, _, s) => ([], s)
  | (some row, w, s) =>
    let (rows, s) := drain w s
    (row :: rows, s)
termination_by w
decreasing_by exact before_of_next _h

end Walk

namespace Block

variable {σ ν : Type} [Scope σ ν]

/-- All rows of a block, and the scope after them. -/
def rows (b : Block) (s : σ) : List Row × σ := Walk.drain (Walk.ofTiers b.nesting.tiers) s

/-- At most `n` rows of a block, and the scope after the walk was abandoned. -/
def takeRows (b : Block) (n : Nat) (s : σ) : List Row × σ :=
  let (rows, w, s) := Walk.take n (Walk.ofTiers b.nesting.tiers) s
  (rows, w.abandon s)

end Block

end SheetFill.Group

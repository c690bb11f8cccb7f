import SheetFill.Proofs.Group.Expansion
import SheetFill.Proofs.Json.Bracket

/-!
# What a walk leaves behind

A walk may be given up after any number of rows, with any of its tiers bound. Releasing them from the
innermost one outwards gives back what was bound before, whatever that was and whatever the order of the
tiers, with one exception: a tier without nodes puts out of sight what is bound below its location, and as
nothing is bound to the location itself, nothing keeps it.

Such a tier may lie above a tier that the walk has bound. The layer of that tier is then gone before it is
released, and its release finds nothing to remove. What the layer was hiding is below the same empty tier,
so it is part of the exception.

## Main definitions

* `Walk.queries`, `Block.queries` — the locations that a walk asks for, with the nodes that it finds.
* `Document.Restored` — two documents have the same layers, but for those below some paths.
* `Standing` — the state of a document under the frames of a walk.

## Main results

* `Document.Restored.bracket` — a bracket restores what its body does.
* `Walk.standing_take`, `Standing.abandon` — any number of rows, and the end of a walk.
* `Block.takeRows_restores` — a walk that is given up restores the document, but for what is below tiers
  without nodes.
-/

namespace SheetFill

open Json Json.Layer Json.Document

/-! ## Documents restored in part -/

namespace Json.Document

variable {d e : Document} {emptied : List Path}

/-- A path that a document has no layers of. -/
def Absent (d : Document) (path : Path) : Prop := ∀ l ∈ d.layers, l.path ≠ path

/-- Two documents have the same layers of a path. -/
def SameAt (path : Path) (d e : Document) : Prop :=
  ∀ l : Layer, l.path = path → (l ∈ e.layers ↔ l ∈ d.layers)

theorem SameAt.absent {path : Path} (h : SameAt path d e) (hd : d.Absent path) : e.Absent path :=
  fun l hl hpath => hd l ((h l hpath).1 hl) hpath

/--
The second document is a later state of the first one with the same layers of each path, except that paths
below emptied ones may have lost theirs.
-/
structure Restored (emptied : List Path) (d e : Document) : Prop where
  wellFormed : e.WellFormed
  root : e.root = d.root
  clock : d.clock ≤ e.clock
  same : ∀ path, SameAt path d e ∨ Guarded emptied path ∧ e.Absent path

namespace Restored

theorem refl (h : d.WellFormed) (emptied : List Path) : Restored emptied d d :=
  ⟨h, rfl, Nat.le_refl _, fun _ => .inl fun _ _ => .rfl⟩

theorem trans {d' : Document} (h : Restored emptied d d') (h' : Restored emptied d' e) :
    Restored emptied d e := by
  refine ⟨h'.wellFormed, h'.root.trans h.root, Nat.le_trans h.clock h'.clock, fun path => ?_⟩
  rcases h'.same path with hsame' | hlost
  · rcases h.same path with hsame | ⟨hbelow, habsent⟩
    · exact .inl fun l hl => (hsame' l hl).trans (hsame l hl)
    · exact .inr ⟨hbelow, hsame'.absent habsent⟩
  · exact .inr hlost

/-- A path without layers does not get any. -/
theorem absent {path : Path} (h : Restored emptied d e) (hd : d.Absent path) : e.Absent path :=
  (h.same path).elim (fun hsame => hsame.absent hd) And.right

/-- Where no node is found, nothing is bound, and what is bound below is lost. -/
theorem hideBelow (h : d.WellFormed) {location : String} (hnodes : Scope.nodes d location = [])
    (hemptied : segments location ∈ emptied) : Restored emptied d (Scope.hideBelow d location) := by
  have hunbound : top? d.layers (segments location) = none := by
    cases htop : top? d.layers (segments location) with
    | none => rfl
    | some t =>
        have hstart : start? d.layers (segments location) = some (t.node, []) := by
          simp [start?, List.range_succ, htop]
        have hfound : Scope.nodes d location = [t.node] := by
          show d.resolve (segments location) true = [t.node]
          rw [resolve, hstart]
          rfl
        rw [hfound] at hnodes
        cases hnodes
  have hmem {l : Layer} : l ∈ (Scope.hideBelow d location).layers ↔
      l ∈ d.layers ∧ ¬ isBelow (segments location) l.path := mem_hideBelow_of_none hunbound
  refine ⟨h.hideBelow location, rfl, Nat.le_refl _, fun path => ?_⟩
  by_cases hbelow : isBelow (segments location) path
  · exact .inr ⟨⟨_, hemptied, hbelow⟩, fun l hl hpath => (hmem.1 hl).2 (hpath ▸ hbelow)⟩
  · exact .inl fun l hpath => hmem.trans ⟨And.left, fun hl => ⟨hl, hpath ▸ hbelow⟩⟩

/-- What a bracket finds when it is opened below its path. -/
theorem absent_enter (h : d.WellFormed) {location : String} (node : Pointer) {path : Path}
    (hbelow : isBelow (segments location) path) : (Scope.enter d location node).Absent path := by
  intro l hl hpath
  rcases h.mem_enter.1 hl with ⟨-, hnot⟩ | rfl
  · exact hnot (hpath ▸ hbelow)
  · rw [← hpath] at hbelow
    exact not_isBelow_self _ hbelow

/-- The release of a path without layers: its bracket was opened below an emptied path. -/
theorem bracket_of_absent (h : d.WellFormed) {location : String} {node : Pointer}
    (hbody : Restored emptied (Scope.enter d location node) e)
    (hbelow : Guarded emptied (segments location)) (habsent : e.Absent (segments location)) :
    Restored emptied d (Scope.release e location) := by
  have hunbound : top? e.layers (segments location) = none := top?_eq_none_iff.2 habsent
  have hlayers : (Scope.release e location).layers = e.layers := release_of_none hunbound
  refine ⟨hbody.wellFormed.release location, hbody.root, Nat.le_of_succ_le hbody.clock, fun path => ?_⟩
  simp only [SameAt, Absent, hlayers]
  by_cases hself : path = segments location
  · exact .inr ⟨hself ▸ hbelow, hself ▸ habsent⟩
  · by_cases hunder : isBelow (segments location) path
    · exact .inr ⟨hbelow.trans hunder, hbody.absent (absent_enter h node hunder)⟩
    · refine (hbody.same path).imp_left fun hsame l hl => (hsame l hl).trans ?_
      rw [h.mem_enter, hl]
      constructor
      · rintro (⟨hmem, -⟩ | rfl)
        · exact hmem
        · exact absurd hl.symm hself
      · exact fun hmem => .inl ⟨hmem, hunder⟩

/-- The release of the layer that was put on a path: what it was hiding comes back. -/
theorem bracket_of_same (h : d.WellFormed) {location : String} {node : Pointer}
    (hbody : Restored emptied (Scope.enter d location node) e)
    (hself : SameAt (segments location) (Scope.enter d location node) e) :
    Restored emptied d (Scope.release e location) := by
  have htop : top? e.layers (segments location) = some (entered d location node) := by
    rw [← h.top?_enter location node]
    exact hbody.wellFormed.ascending.top?_congr (h.enter location node).ascending hself
  have hunder : under (segments location) e.layers = [] := by
    refine List.eq_nil_iff_forall_not_mem.2 fun l hl => ?_
    obtain ⟨hmem, hbelow⟩ := mem_under.1 hl
    exact hbody.absent (absent_enter h node hbelow) l hmem rfl
  have hmem {l : Layer} : l ∈ (Scope.release e location).layers ↔
      (l ∈ e.layers ∧ ¬ isBelow (segments location) l.path ∧ l.stamp ≠ d.clock + 1) ∨
        l ∈ d.layers ∧ isBelow (segments location) l.path := by
    rw [release_eq, mem_release_of_top? hbody.wellFormed.ascending htop, hunder, keepOlder]
    simp [entered]
  have hold {l : Layer} (hl : l ∈ d.layers) : l.stamp ≠ d.clock + 1 := by
    have := h.bounded l (mem_allLayers_of_mem hl)
    omega
  refine ⟨hbody.wellFormed.release location, hbody.root, Nat.le_of_succ_le hbody.clock, fun path => ?_⟩
  by_cases hbelow : isBelow (segments location) path
  · exact .inl fun l hl => by simp [hmem, hl, hbelow]
  · rcases hbody.same path with hsame | ⟨hguarded, habsent⟩
    · refine .inl fun l hl => ?_
      rw [hmem, hsame l hl, h.mem_enter, hl]
      constructor
      · rintro (⟨⟨hl', -⟩ | rfl, -, hne⟩ | ⟨-, habove⟩)
        · exact hl'
        · exact absurd rfl hne
        · exact absurd habove hbelow
      · exact fun hl' => .inl ⟨.inl ⟨hl', hbelow⟩, hbelow, hold hl'⟩
    · refine .inr ⟨hguarded, fun l hl hpath => ?_⟩
      rcases hmem.1 hl with ⟨hl, -⟩ | ⟨-, habove⟩
      · exact habsent l hl hpath
      · exact hbelow (hpath ▸ habove)

/-- A bracket restores what its body does. -/
theorem bracket (h : d.WellFormed) {location : String} {node : Pointer}
    (hbody : Restored emptied (Scope.enter d location node) e) :
    Restored emptied d (Scope.release e location) := by
  rcases hbody.same (segments location) with hself | ⟨hbelow, habsent⟩
  · exact hbody.bracket_of_same h hself
  · exact hbody.bracket_of_absent h hbelow habsent

/-- Where every layer is kept that is not below an emptied path, the order of the layers is kept, too. -/
theorem sublist (hd : d.WellFormed) (h : Restored emptied d e) : e.layers.Sublist d.layers := by
  classical
  have hkept : e.layers = d.layers.filter fun l => SameAt l.path d e := by
    refine h.wellFormed.ascending.eq_of_mem_iff (hd.ascending.filter _) fun l => ?_
    simp only [List.mem_filter, decide_eq_true_eq]
    rcases h.same l.path with hsame | ⟨-, habsent⟩
    · simp [hsame, hsame l rfl]
    · refine ⟨fun hl => absurd rfl (habsent l hl), fun ⟨hl, hsame⟩ => (hsame l rfl).2 hl⟩
  rw [hkept]
  exact List.filter_sublist

/-- The stack of a path is as it was, or it is lost with all that is below an emptied path. -/
theorem stack (hd : d.WellFormed) (h : Restored emptied d e) (path : Path) :
    e.stack path = d.stack path ∨ Guarded emptied path ∧ e.stack path = [] := by
  refine (h.same path).imp (fun hsame => ?_) fun ⟨hbelow, habsent⟩ => ⟨hbelow, ?_⟩
  · refine Ascending.eq_of_mem_iff (h.wellFormed.ascending.filter _) (hd.ascending.filter _) fun l => ?_
    show l ∈ e.stack path ↔ l ∈ d.stack path
    rw [mem_stack, mem_stack]
    exact and_congr_left fun hpath => hsame l hpath
  · refine List.eq_nil_iff_forall_not_mem.2 fun l hl => ?_
    obtain ⟨hmem, hpath⟩ := mem_stack.1 hl
    exact habsent l hmem hpath

/-- Where nothing was emptied, nothing but the clock has changed. -/
theorem later (hd : d.WellFormed) (h : Restored [] d e) : Later d e := by
  refine ⟨h.root, h.wellFormed.ascending.eq_of_mem_iff hd.ascending fun l => ?_, h.clock⟩
  rcases h.same l.path with hsame | ⟨hbelow, -⟩
  · exact hsame l rfl
  · simp [Guarded] at hbelow

end Restored

end Json.Document

namespace Group

/-! ## What a walk asks for -/

section Queries

variable {σ ν : Type} [Scope σ ν]

namespace Walk

/-- The locations that a descent asks for, with the nodes that it finds. -/
def descendQueries : List Tier → σ → List (String × List ν)
  | [], _ => []
  | tier :: waiting, s =>
    match Scope.nodes s tier.location with
    | [] => [(tier.location, [])]
    | node :: pending =>
      (tier.location, node :: pending) ::
        descendQueries waiting (Scope.enter s tier.location node)

/-- The locations that the step to the next row asks for, with the nodes that it finds. -/
def nextQueries (w : Walk ν) (s : σ) : List (String × List ν) :=
  match w.phase with
  | .done => []
  | .start => descendQueries w.frames.waiting s
  | .running =>
    let (frames, s) := advance w.frames.entered w.frames.waiting s
    match frames.entered with
    | [] => []
    | _ :: _ => descendQueries frames.waiting s

/-- The locations that a walk asks for until it has given `n` rows, with the nodes that it finds. -/
def queries : Nat → Walk ν → σ → List (String × List ν)
  | 0, _, _ => []
  | n + 1, w, s =>
    nextQueries w s ++
      match next w s with
      | (none, _, _) => []
      | (some _, w, s) => queries n w s

end Walk

/-- The locations that at most `n` rows of a block ask for, with the nodes that are found. -/
def Block.queries (b : Block) (n : Nat) (s : σ) : List (String × List ν) :=
  Walk.queries n (Walk.ofTiers b.nesting.tiers) s

end Queries

/-! ## The state under the frames of a walk -/

/--
The state of a document under frames: for each frame that has bound a node, the document is restored up to
the bracket of that node, which is open.
-/
inductive Standing (emptied : List Path) (d : Document) : List (Frame Pointer) → Document → Prop where
  | outside {e : Document} (h : Restored emptied d e) : Standing emptied d [] e
  | bound {f : Frame Pointer} {outer : List (Frame Pointer)} {d' e : Document} {node : Pointer}
      (hbound : f.bound = true) (houter : Standing emptied d outer d')
      (hinside : Restored emptied (Scope.enter d' f.tier.location node) e) :
      Standing emptied d (f :: outer) e
  | vacant {f : Frame Pointer} {outer : List (Frame Pointer)} {e : Document}
      (hvacant : f.bound = false) (houter : Standing emptied d outer e) :
      Standing emptied d (f :: outer) e

namespace Standing

variable {emptied : List Path} {d e : Document} {entered : List (Frame Pointer)}

theorem wellFormed (h : Standing emptied d entered e) : e.WellFormed := by
  induction h with
  | outside h => exact h.wellFormed
  | bound _ _ hinside _ => exact hinside.wellFormed
  | vacant _ _ ih => exact ih

theorem trans {e' : Document} (h : Standing emptied d entered e) (h' : Restored emptied e e') :
    Standing emptied d entered e' := by
  induction h with
  | outside h => exact .outside (h.trans h')
  | bound hbound houter hinside _ => exact .bound hbound houter (hinside.trans h')
  | vacant hvacant _ ih => exact .vacant hvacant (ih h')

/-- Frames whose cells were shown bind what they bound before. -/
theorem seen (h : Standing emptied d entered e) : Standing emptied d (entered.map Frame.seen) e := by
  induction h with
  | outside h => exact .outside h
  | bound hbound _ hinside ih => exact .bound hbound ih hinside
  | vacant hvacant _ ih => exact .vacant hvacant ih

/-- The innermost frame is left: its node is released, if it has bound one. -/
theorem leave {f : Frame Pointer} {outer : List (Frame Pointer)}
    (h : Standing emptied d (f :: outer) e) :
    Standing emptied d outer (if f.bound then Scope.release e f.tier.location else e) := by
  cases h with
  | bound hbound houter hinside =>
      rw [if_pos hbound]
      exact houter.trans (hinside.bracket houter.wellFormed)
  | vacant hvacant houter => simpa [hvacant] using houter

/-- A further frame binds a node. -/
theorem enter (h : Standing emptied d entered e) (tier : Tier) (pending : List Pointer)
    (node : Pointer) :
    Standing emptied d
      (.standing tier pending (Scope.enter e tier.location node) :: entered)
      (Scope.enter e tier.location node) :=
  .bound rfl h (.refl (h.wellFormed.enter tier.location node) emptied)

/-- A walk that is given up leaves its frames, the innermost first. -/
theorem abandon {frames : Frames Pointer} {phase : Phase} (h : Standing emptied d frames.entered e) :
    Restored emptied d (Walk.abandon ⟨frames, phase⟩ e) := by
  obtain ⟨entered, waiting⟩ := frames
  induction entered generalizing e with
  | nil =>
      cases h with
      | outside h => exact h
  | cons f outer ih => exact ih h.leave

end Standing

namespace Walk

open Standing

variable {emptied : List Path} {d e : Document}

/-- Queries that find no node are made at emptied paths only. -/
def EmptyAt (emptied : List Path) (queries : List (String × List Pointer)) : Prop :=
  ∀ q ∈ queries, q.2 = [] → segments q.1 ∈ emptied

theorem standing_descend {entered : List (Frame Pointer)} {waiting : List Tier}
    (h : Standing emptied d entered e) (hqueries : EmptyAt emptied (descendQueries waiting e)) :
    Standing emptied d (descend entered waiting e).1.entered (descend entered waiting e).2 := by
  induction waiting generalizing entered e with
  | nil => exact h
  | cons tier waiting ih =>
      simp only [descend]
      simp only [descendQueries] at hqueries
      cases hnodes : Scope.nodes e tier.location with
      | nil =>
          simp only [hnodes] at hqueries ⊢
          have hemptied := hqueries _ List.mem_cons_self rfl
          exact .vacant rfl (h.trans (.hideBelow h.wellFormed hnodes hemptied))
      | cons node pending =>
          simp only [hnodes] at hqueries ⊢
          exact ih (h.enter tier pending node) fun q hq => hqueries q (List.mem_cons_of_mem _ hq)

theorem standing_advance {entered : List (Frame Pointer)} {waiting : List Tier}
    (h : Standing emptied d entered e) :
    Standing emptied d (advance entered waiting e).1.entered (advance entered waiting e).2 := by
  induction entered generalizing waiting e with
  | nil => exact h
  | cons f outer ih =>
      simp only [advance]
      cases f.pending with
      | nil => exact ih h.leave
      | cons node pending => exact h.leave.enter f.tier pending node

/-- A step to the next row keeps the state under the frames. -/
theorem standing_next {w : Walk Pointer} (h : Standing emptied d w.frames.entered e)
    (hqueries : EmptyAt emptied (nextQueries w e)) :
    Standing emptied d (next w e).2.1.frames.entered (next w e).2.2 := by
  obtain ⟨⟨entered, waiting⟩, phase⟩ := w
  cases phase with
  | done => exact h
  | start =>
      cases waiting with
      | nil => exact h
      | cons tier waiting => exact (standing_descend h hqueries).seen
  | running =>
      have hadvanced : Standing emptied d (advance entered waiting e).1.entered
          (advance entered waiting e).2 := standing_advance h
      simp only [nextQueries] at hqueries
      simp only [next]
      cases hentered : (advance entered waiting e).1.entered with
      | nil =>
          simp only [hentered] at hadvanced ⊢
          exact hadvanced
      | cons f outer =>
          simp only [hentered] at hadvanced hqueries ⊢
          exact (standing_descend hadvanced hqueries).seen

/-- Any number of rows keeps the state under the frames. -/
theorem standing_take (n : Nat) {w : Walk Pointer} (h : Standing emptied d w.frames.entered e)
    (hqueries : EmptyAt emptied (queries n w e)) :
    Standing emptied d (take n w e).2.1.frames.entered (take n w e).2.2 := by
  induction n generalizing w e with
  | zero => exact h
  | succ n ih =>
      simp only [queries] at hqueries
      have hstep := standing_next h fun q hq => hqueries q (List.mem_append_left _ hq)
      match hnext : next w e with
      | (none, w', e') =>
          rw [hnext] at hstep
          simp only [take, hnext]
          exact hstep
      | (some row, w', e') =>
          rw [hnext] at hstep hqueries
          simp only [take, hnext]
          exact ih hstep fun q hq => hqueries q (List.mem_append_right _ hq)

end Walk

/-- A walk that is given up restores a document, but for what is below emptied paths. -/
theorem Block.restored_takeRows {d : Document} (h : d.WellFormed) (b : Block) (n : Nat)
    {emptied : List Path} (hqueries : Walk.EmptyAt emptied (b.queries n d)) :
    Restored emptied d (b.takeRows n d).2 :=
  (Walk.standing_take n (w := Walk.ofTiers b.nesting.tiers) (.outside (.refl h emptied))
    hqueries).abandon

/--
A walk that is given up after at most `n` rows leaves nothing behind, whatever was bound before it. The
stack of each path is what it was, unless the path is below the location of a tier for which no node was
found; then it may be lost as a whole. The layers that are left keep their order, and if nodes were found
whenever they were asked for, nothing but the clock has changed.
-/
theorem Block.takeRows_restores {d : Document} (h : d.Reachable) (b : Block) (n : Nat) :
    let e := (b.takeRows n d).2
    e.root = d.root ∧ e.layers.Sublist d.layers ∧
      (∀ path, e.stack path = d.stack path ∨ e.stack path = [] ∧
        ∃ location, (location, []) ∈ b.queries n d ∧ isBelow (segments location) path) ∧
      ((∀ q ∈ b.queries n d, q.2 ≠ []) → e = { d with clock := e.clock }) := by
  intro e
  have hd := h.wellFormed
  let emptied := ((b.queries n d).filter fun q => q.2.isEmpty).map fun q => segments q.1
  have hemptied : Walk.EmptyAt emptied (b.queries n d) := fun q hq hnil =>
    List.mem_map.2 ⟨q, List.mem_filter.2 ⟨hq, by simp [hnil]⟩, rfl⟩
  have hrestored : Restored emptied d e := b.restored_takeRows hd n hemptied
  refine ⟨hrestored.root, hrestored.sublist hd, fun path => ?_, fun hfound => ?_⟩
  · refine (hrestored.stack hd path).imp_right fun ⟨⟨top, htop, hbelow⟩, hlost⟩ => ⟨hlost, ?_⟩
    obtain ⟨⟨location, nodes⟩, hq, rfl⟩ := List.mem_map.1 htop
    obtain ⟨hq, hnil⟩ := List.mem_filter.1 hq
    obtain rfl : nodes = [] := by simpa using hnil
    exact ⟨location, hq, hbelow⟩
  · have hall : Restored [] d e :=
      b.restored_takeRows hd n fun q hq hnil => absurd hnil (hfound q hq)
    exact (hall.later hd).eq

/-- The layers of `a/b` are lost, those of the caller too, since nothing is found at `a`; those of `z` stay. -/
theorem Block.takeRows_restores_vacant :
    let d := Scope.bind (Scope.bind (ofValue .null) "a/b" .root) "z" .root
    let b : Block := ⟨0, 1, 0, .grow, none, ⟨[⟨"a/b", []⟩, ⟨"a", []⟩]⟩⟩
    let e := (b.takeRows 1 d).2
    d.Reachable ∧ b.queries 1 d = [("a/b", [.root]), ("a", [])] ∧ e.stack ["a", "b"] = [] ∧
      e.stack ["z"] = d.stack ["z"] := by
  intro d b e
  have hd : d.Reachable := ((Reachable.ofValue .null).bind "a/b" .root).bind "z" .root
  have hqueries : b.queries 1 d = [("a/b", [.root]), ("a", [])] := by decide +kernel
  have hlost : e.stack ["a", "b"] = [] := List.length_eq_zero_iff.1 (by decide +kernel)
  refine ⟨hd, hqueries, hlost, ((Block.takeRows_restores hd b 1).2.2.1 ["z"]).resolve_right ?_⟩
  rintro ⟨-, location, hlocation, hbelow⟩
  rw [hqueries] at hlocation
  simp only [List.mem_cons, Prod.mk.injEq, List.not_mem_nil, or_false] at hlocation
  rcases hlocation with ⟨-, habsurd⟩ | ⟨rfl, -⟩
  · cases habsurd
  · revert hbelow
    decide +kernel

end Group

end SheetFill

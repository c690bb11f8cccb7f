import SheetFill.Proofs.Json.Layering

/-!
# Brackets restore a document

A computation that runs with a node bound to a path may bind, hide and release on its own account, as
long as it does so strictly below the path, and it may open further brackets wherever it likes: on the
path itself, above it, below it, or apart from it. When the node is released, the layers are the ones
that were there before.

Two facts about a computation between its brackets carry the proof. Layers that are not strictly below an
open path are left alone. And if all that is below an open path was bound after some moment, hidden
layers included, this stays so; what the computation leaves behind there is then discarded together with
the node. The second fact is about open paths that are not below other open paths. Whatever happens at
the others happens below a path whose own bracket is to clean it up.

## Main definitions

* `Script` — a sequence of look-ups, changes and brackets.
* `Script.Confined` — changes outside of brackets of their own stay below an open path.
* `Document.FreshBelow` — all that is below a path is from a moment on.
* `Document.Preserves` — what a confined script keeps to.
* `Document.Later` — the same document at a later time.

## Main results

* `Document.WellFormed.mem_enter` — the visible layers when a bracket has been opened.
* `Document.Preserves.bracket` — every bracket preserves the layers outside of the open paths.
* `Script.run_preserves` — and so does every confined script.
* `Document.within_restores` — a bracket around a confined script restores the document.
-/

namespace SheetFill.Json

open Layer

namespace Document

variable {d e : Document}

/-! ## Opening a bracket -/

theorem mem_bind {path : String} {node : Pointer} {l : Layer} :
    l ∈ (Scope.bind d path node).layers ↔
      l ∈ d.layers ∨ l = ⟨segments path, node, d.clock + 1, []⟩ := by
  simp [bind_eq, Layer.bind]

/-- The layer that a bracket puts on a path. -/
def entered (d : Document) (path : String) (node : Pointer) : Layer :=
  ⟨segments path, node, d.clock + 1, byStamp (under (segments path) d.layers)⟩

theorem WellFormed.enter (h : d.WellFormed) (path : String) (node : Pointer) :
    (Scope.enter d path node).WellFormed :=
  (h.bind path node).hideBelow path

/-- A bracket hides what is below its path in a layer on top of the path. -/
theorem WellFormed.mem_enter (h : d.WellFormed) {path : String} {node : Pointer} {l : Layer} :
    l ∈ (Scope.enter d path node).layers ↔
      (l ∈ d.layers ∧ ¬ isBelow (segments path) l.path) ∨ l = entered d path node := by
  have hold {m : Layer} (hm : m ∈ d.layers) : m.stamp < d.clock + 1 :=
    Nat.lt_succ_of_le (h.bounded m (mem_allLayers_of_mem hm))
  have hbound := h.bind path node
  let new : Layer := ⟨segments path, node, d.clock + 1, []⟩
  have htop : top? (Scope.bind d path node).layers (segments path) = some new := by
    refine hbound.ascending.top?_eq_some_iff.2 ⟨mem_bind.2 (.inr rfl), rfl, fun m hm _ => ?_⟩
    rcases mem_bind.1 hm with hm | rfl
    · exact Nat.le_of_lt (hold hm)
    · exact Nat.le_refl _
  have hunder : under (segments path) (Scope.bind d path node).layers =
      under (segments path) d.layers := by
    simp [bind_eq, Layer.bind, under, not_isBelow_self]
  have hkept : new.covering (keepOlder new.stamp (under (segments path)
      (Scope.bind d path node).layers)) = entered d path node := by
    rw [hunder, keepOlder_eq_self fun m hm => hold (mem_under.1 hm).1]
    rfl
  rw [Scope.enter, hideBelow_eq, mem_hideBelow_of_top? hbound.ascending htop, hkept, mem_bind]
  constructor
  · intro hcase
    rcases hcase with ⟨hl | rfl, hbelow, hne⟩ | heq
    · exact .inl ⟨hl, hbelow⟩
    · exact absurd rfl hne
    · exact .inr heq
  · intro hcase
    rcases hcase with ⟨hl, hbelow⟩ | heq
    · exact .inl ⟨.inl hl, hbelow, Nat.ne_of_lt (hold hl)⟩
    · exact .inr heq

theorem WellFormed.top?_enter (h : d.WellFormed) (path : String) (node : Pointer) :
    top? (Scope.enter d path node).layers (segments path) = some (entered d path node) := by
  refine (h.enter path node).ascending.top?_eq_some_iff.2 ⟨h.mem_enter.2 (.inr rfl), rfl, ?_⟩
  intro l hl _
  rcases h.mem_enter.1 hl with ⟨hl, -⟩ | rfl
  · exact Nat.le_succ_of_le (h.bounded l (mem_allLayers_of_mem hl))
  · exact Nat.le_refl _

/-! ## Layers away from a change -/

/-- Hiding leaves the layers alone that are neither at the path nor below it. -/
theorem WellFormed.mem_hideBelow (h : d.WellFormed) {path : String} {l : Layer}
    (hne : l.path ≠ segments path) (hnot : ¬ isBelow (segments path) l.path) :
    l ∈ (Scope.hideBelow d path).layers ↔ l ∈ d.layers := by
  cases htop? : top? d.layers (segments path) with
  | none =>
      rw [hideBelow_eq, mem_hideBelow_of_none htop?]
      exact ⟨And.left, fun hl => ⟨hl, hnot⟩⟩
  | some t =>
      obtain ⟨ht, htpath, -⟩ := h.ascending.top?_eq_some_iff.1 htop?
      rw [hideBelow_eq, mem_hideBelow_of_top? h.ascending htop?]
      constructor
      · intro hcase
        rcases hcase with ⟨hl, -⟩ | rfl
        · exact hl
        · exact absurd htpath hne
      · intro hl
        refine .inl ⟨hl, hnot, fun hstamp => hne ?_⟩
        rw [h.ascending.eq_of_stamp_eq hl ht hstamp, htpath]

/-- Removing a layer leaves the layers alone that are neither at the path nor below it. -/
theorem WellFormed.mem_release (h : d.WellFormed) {path : String} {l : Layer}
    (hne : l.path ≠ segments path) (hnot : ¬ isBelow (segments path) l.path) :
    l ∈ (Scope.release d path).layers ↔ l ∈ d.layers := by
  cases htop? : top? d.layers (segments path) with
  | none => rw [release_eq, release_of_none htop?]
  | some t =>
      obtain ⟨ht, htpath, -⟩ := h.ascending.top?_eq_some_iff.1 htop?
      rw [release_eq, mem_release_of_top? h.ascending htop?]
      constructor
      · intro hcase
        rcases hcase with ⟨hl, -⟩ | hl | hl
        · exact hl
        · exact absurd (Layer.WellFormed.isBelow_of_mem_keepOlder h hl) hnot
        · have hbelow := (h.nested t (mem_allLayers_of_mem ht) l hl).2
          rw [htpath] at hbelow
          exact absurd hbelow hnot
      · intro hl
        refine .inl ⟨hl, hnot, fun hstamp => hne ?_⟩
        rw [h.ascending.eq_of_stamp_eq hl ht hstamp, htpath]

/-! ## What is new below a path -/

/-- All that is below a path, hidden layers included, is from a moment on. -/
def FreshBelow (top : Path) (stamp : Nat) (d : Document) : Prop :=
  ∀ m ∈ allLayers (under top d.layers), stamp ≤ m.stamp

namespace FreshBelow

variable {top : Path} {stamp : Nat}

theorem of_forall (h : ∀ l ∈ d.layers, isBelow top l.path → ∀ m ∈ l.withHidden, stamp ≤ m.stamp) :
    FreshBelow top stamp d := by
  intro m hm
  obtain ⟨l, hl, hml⟩ := mem_allLayers.1 hm
  obtain ⟨hl, hbelow⟩ := mem_under.1 hl
  exact h l hl hbelow m hml

theorem le (h : FreshBelow top stamp d) {l m : Layer} (hl : l ∈ d.layers)
    (hbelow : isBelow top l.path) (hm : m ∈ l.withHidden) : stamp ≤ m.stamp :=
  h m (mem_allLayers.2 ⟨l, mem_under.2 ⟨hl, hbelow⟩, hm⟩)

/-- What is left of the layers below a lower path is new, too. -/
theorem le_of_mem_keepOlder (h : FreshBelow top stamp d) {path : Path} (habove : isBelow top path)
    {moment : Nat} {m : Layer} (hm : m ∈ allLayers (keepOlder moment (under path d.layers))) :
    stamp ≤ m.stamp := by
  obtain ⟨l, hl, hml⟩ := mem_allLayers.1 ((allLayers_keepOlder_sublist _ _).subset hm)
  obtain ⟨hl, hbelow⟩ := mem_under.1 hl
  exact h.le hl (isBelow_trans habove hbelow) hml

theorem bind (h : FreshBelow top stamp d) (hstamp : stamp ≤ d.clock + 1) (path : String)
    (node : Pointer) : FreshBelow top stamp (Scope.bind d path node) := by
  apply FreshBelow.of_forall
  intro l hl hbelow m hm
  rcases mem_bind.1 hl with hl | rfl
  · exact h.le hl hbelow hm
  · rw [withHidden_eq, allLayers_nil, List.mem_singleton] at hm
    rw [hm]
    exact hstamp

theorem hideBelow (h : FreshBelow top stamp d) (hd : d.WellFormed) (path : String) :
    FreshBelow top stamp (Scope.hideBelow d path) := by
  apply FreshBelow.of_forall
  intro l hl hbelow m hm
  cases htop? : top? d.layers (segments path) with
  | none =>
      rw [hideBelow_eq, mem_hideBelow_of_none htop?] at hl
      exact h.le hl.1 hbelow hm
  | some t =>
      obtain ⟨ht, htpath, -⟩ := hd.ascending.top?_eq_some_iff.1 htop?
      rw [hideBelow_eq, mem_hideBelow_of_top? hd.ascending htop?] at hl
      rcases hl with ⟨hl, -⟩ | rfl
      · exact h.le hl hbelow hm
      · -- what the layer hides from now on was below its path, and so below `top`, before
        have htbelow : isBelow top t.path := hbelow
        have hself : stamp ≤ t.stamp := h.le ht htbelow (mem_withHidden_self t)
        rw [withHidden_eq, List.mem_cons, mem_allLayers_covering] at hm
        rcases hm with rfl | hm | hm
        · exact hself
        · exact h.le ht htbelow (mem_withHidden_of_hidden hm)
        · rw [htpath] at htbelow
          exact h.le_of_mem_keepOlder htbelow hm

/-- A bracket hides all that is below its path. -/
theorem enter_self (hd : d.WellFormed) (path : String) (node : Pointer) (stamp : Nat) :
    FreshBelow (segments path) stamp (Scope.enter d path node) := by
  apply FreshBelow.of_forall
  intro l hl hbelow
  rcases hd.mem_enter.1 hl with ⟨-, hnot⟩ | rfl
  · exact absurd hbelow hnot
  · exact absurd hbelow (not_isBelow_self _)

theorem enter (h : FreshBelow top stamp d) (hd : d.WellFormed) {path : String}
    (hpath : ¬ isBelow top (segments path)) (node : Pointer) :
    FreshBelow top stamp (Scope.enter d path node) := by
  apply FreshBelow.of_forall
  intro l hl hbelow m hm
  rcases hd.mem_enter.1 hl with ⟨hl, -⟩ | rfl
  · exact h.le hl hbelow hm
  · exact absurd hbelow hpath

/-- A layer that is removed from a path that is not above `top` brings nothing old to light there. -/
theorem release (h : FreshBelow top stamp d) (hd : d.WellFormed) {path : String}
    (hne : segments path ≠ top) (hnot : ¬ isBelow (segments path) top) :
    FreshBelow top stamp (Scope.release d path) := by
  apply FreshBelow.of_forall
  intro l hl hbelow m hm
  cases htop? : top? d.layers (segments path) with
  | none =>
      rw [release_eq, release_of_none htop?] at hl
      exact h.le hl hbelow hm
  | some t =>
      obtain ⟨ht, htpath, -⟩ := hd.ascending.top?_eq_some_iff.1 htop?
      -- layers that come back are below the path, and `top` is above them as well
      have habove (hl : isBelow (segments path) l.path) : isBelow top (segments path) := by
        rcases isBelow_or_of_isBelow hbelow hl with heq | habove | habove
        · exact absurd heq.symm hne
        · exact habove
        · exact absurd habove hnot
      rw [release_eq, mem_release_of_top? hd.ascending htop?] at hl
      rcases hl with ⟨hl, -⟩ | hl | hl
      · exact h.le hl hbelow hm
      · have htbelow := habove (Layer.WellFormed.isBelow_of_mem_keepOlder hd hl)
        exact h.le_of_mem_keepOlder htbelow (mem_allLayers.2 ⟨l, hl, hm⟩)
      · have hlbelow := (hd.nested t (mem_allLayers_of_mem ht) l hl).2
        rw [htpath] at hlbelow
        have htbelow := habove hlbelow
        rw [← htpath] at htbelow
        exact h.le ht htbelow (mem_withHidden_of_hidden (mem_allLayers.2 ⟨l, hl, hm⟩))

end FreshBelow

/-! ## What is kept between brackets -/

/-- A path strictly below one of the open paths. -/
def Guarded (opened : List Path) (path : Path) : Prop := ∃ top ∈ opened, isBelow top path

theorem Guarded.trans {opened : List Path} {path lower : Path} (h : Guarded opened path)
    (hbelow : isBelow path lower) : Guarded opened lower := by
  obtain ⟨top, htop, habove⟩ := h
  exact ⟨top, htop, isBelow_trans habove hbelow⟩

theorem guarded_cons {opened : List Path} {top path : Path} :
    Guarded (top :: opened) path ↔ isBelow top path ∨ Guarded opened path := by
  simp [Guarded]

/--
The second document is a later state of the first one, in which only layers strictly below the open paths
have changed, and nothing has come to light there that is older than what there was.
-/
structure Preserves (opened : List Path) (d e : Document) : Prop where
  wellFormed : e.WellFormed
  root : e.root = d.root
  clock : d.clock ≤ e.clock
  outside : ∀ l : Layer, ¬ Guarded opened l.path → (l ∈ e.layers ↔ l ∈ d.layers)
  fresh : ∀ top ∈ opened, ¬ Guarded opened top → ∀ stamp ≤ d.clock + 1,
    FreshBelow top stamp d → FreshBelow top stamp e

namespace Preserves

variable {opened : List Path}

theorem refl (h : d.WellFormed) (opened : List Path) : Preserves opened d d where
  wellFormed := h
  root := rfl
  clock := Nat.le_refl _
  outside _ _ := .rfl
  fresh _ _ _ _ _ hfresh := hfresh

theorem trans {d' : Document} (h : Preserves opened d d') (h' : Preserves opened d' e) :
    Preserves opened d e where
  wellFormed := h'.wellFormed
  root := h'.root.trans h.root
  clock := Nat.le_trans h.clock h'.clock
  outside l hl := (h'.outside l hl).trans (h.outside l hl)
  fresh top htop hopen stamp hstamp hfresh := by
    have hclock := h.clock
    exact h'.fresh top htop hopen stamp (by omega) (h.fresh top htop hopen stamp hstamp hfresh)

/-- An open path below other open paths adds nothing to what may change. -/
theorem of_cons {path : Path} (h : Preserves (path :: opened) d e) (hpath : Guarded opened path) :
    Preserves opened d e := by
  have hguarded {lower : Path} : Guarded (path :: opened) lower ↔ Guarded opened lower := by
    rw [guarded_cons]
    exact ⟨fun hlower => hlower.elim hpath.trans id, .inr⟩
  refine { h with outside := fun l hl => ?_, fresh := fun top htop hopen => ?_ }
  · exact h.outside l (mt hguarded.1 hl)
  · exact h.fresh top (List.mem_cons_of_mem _ htop) (mt hguarded.1 hopen)

/-! ## Changes below open paths -/

section Guarded

variable {path : String} (hpath : Guarded opened (segments path))

include hpath

theorem ne_of_not_guarded {other : Path} (h : ¬ Guarded opened other) : other ≠ segments path := by
  intro heq
  rw [heq] at h
  exact h hpath

theorem not_isBelow_of_not_guarded {other : Path} (h : ¬ Guarded opened other) :
    ¬ isBelow (segments path) other :=
  fun hbelow => h (hpath.trans hbelow)

theorem bind (h : d.WellFormed) (node : Pointer) : Preserves opened d (Scope.bind d path node) where
  wellFormed := h.bind path node
  root := rfl
  clock := Nat.le_succ _
  outside l hl := by
    have hne := ne_of_not_guarded hpath hl
    rw [mem_bind]
    refine ⟨fun hl' => hl'.resolve_right fun heq => hne ?_, .inl⟩
    rw [heq]
  fresh _ _ _ _ hstamp hfresh := hfresh.bind hstamp path node

theorem hideBelow (h : d.WellFormed) : Preserves opened d (Scope.hideBelow d path) where
  wellFormed := h.hideBelow path
  root := rfl
  clock := Nat.le_refl _
  outside _ hl := h.mem_hideBelow (ne_of_not_guarded hpath hl) (not_isBelow_of_not_guarded hpath hl)
  fresh _ _ _ _ _ hfresh := hfresh.hideBelow h path

theorem release (h : d.WellFormed) : Preserves opened d (Scope.release d path) where
  wellFormed := h.release path
  root := rfl
  clock := Nat.le_refl _
  outside _ hl := h.mem_release (ne_of_not_guarded hpath hl) (not_isBelow_of_not_guarded hpath hl)
  fresh _ _ hopen _ _ hfresh := hfresh.release h (ne_of_not_guarded hpath hopen).symm
    (not_isBelow_of_not_guarded hpath hopen)

end Guarded

/-! ## Brackets -/

/--
The bracket of a path that is not below an open path gives back all layers below its path, whatever has
become of them meanwhile.
-/
theorem mem_bracket (h : d.WellFormed) {path : String} {node : Pointer}
    (hopen : ¬ Guarded opened (segments path))
    (hbody : Preserves (segments path :: opened) (Scope.enter d path node) e) {l : Layer} :
    l ∈ (Scope.release e path).layers ↔ (l ∈ d.layers ∧ isBelow (segments path) l.path) ∨
      (l ∈ e.layers ∧ ¬ isBelow (segments path) l.path ∧ l.stamp ≠ d.clock + 1) := by
  have hopen' : ¬ Guarded (segments path :: opened) (segments path) := by
    rw [guarded_cons]
    exact fun hguarded => hguarded.elim (not_isBelow_self _) hopen
  have htop : top? e.layers (segments path) = some (entered d path node) := by
    rw [← h.top?_enter path node]
    apply hbody.wellFormed.ascending.top?_congr (h.enter path node).ascending
    intro l hl
    exact hbody.outside l (by rw [hl]; exact hopen')
  have hfresh : FreshBelow (segments path) (d.clock + 1) e :=
    hbody.fresh _ List.mem_cons_self hopen' _ (Nat.le_succ _) (.enter_self h path node _)
  rw [release_eq, mem_release_of_top? hbody.wellFormed.ascending htop, entered,
    keepOlder_eq_nil hfresh, mem_byStamp, mem_under]
  simp only [List.not_mem_nil, false_or]
  exact Or.comm

/-- The bracket of a path that is not below an open path preserves the layers. -/
theorem bracket_of_not_guarded (h : d.WellFormed) {path : String} {node : Pointer}
    (hopen : ¬ Guarded opened (segments path))
    (hbody : Preserves (segments path :: opened) (Scope.enter d path node) e) :
    Preserves opened d (Scope.release e path) := by
  have hmem {l : Layer} := hbody.mem_bracket h hopen (l := l)
  refine
    { wellFormed := hbody.wellFormed.release path
      root := hbody.root
      clock := Nat.le_of_succ_le hbody.clock
      outside := fun l hl => ?_
      fresh := fun top htopmem hopen' stamp hstamp hfresh => .of_forall fun l hl hbelow m hm => ?_ }
  · rw [hmem]
    by_cases hbelow : isBelow (segments path) l.path
    · simp [hbelow]
    · have hkept : l ∈ e.layers ↔ l ∈ (Scope.enter d path node).layers := by
        apply hbody.outside l
        rw [guarded_cons]
        exact fun hguarded => hguarded.elim hbelow hl
      rw [hkept, h.mem_enter]
      constructor
      · intro hcase
        rcases hcase with ⟨-, habove⟩ | ⟨⟨hl', -⟩ | rfl, -, hne⟩
        · exact absurd habove hbelow
        · exact hl'
        · exact absurd rfl hne
      · intro hl'
        have hstamp := h.bounded l (mem_allLayers_of_mem hl')
        exact .inr ⟨.inl ⟨hl', hbelow⟩, hbelow, by omega⟩
  · rcases hmem.1 hl with ⟨hl', -⟩ | ⟨hl', hnot, -⟩
    · exact hfresh.le hl' hbelow hm
    · -- the layer was not below the bracket, so `top` is not below it, and stays fresh in it
      have htop : ¬ Guarded (segments path :: opened) top := by
        rw [guarded_cons]
        intro hguarded
        rcases hguarded with habove | hguarded
        · exact hnot (isBelow_trans habove hbelow)
        · exact hopen' hguarded
      have hentered : FreshBelow top stamp (Scope.enter d path node) :=
        hfresh.enter h (fun habove => hopen ⟨top, htopmem, habove⟩) node
      have hafter : FreshBelow top stamp e :=
        hbody.fresh top (List.mem_cons_of_mem _ htopmem) htop stamp (Nat.le_succ_of_le hstamp) hentered
      exact hafter.le hl' hbelow hm

/-- Every bracket preserves the layers outside of the open paths. -/
theorem bracket (h : d.WellFormed) {path : String} {node : Pointer}
    (hbody : Preserves (segments path :: opened) (Scope.enter d path node) e) :
    Preserves opened d (Scope.release e path) := by
  by_cases hpath : Guarded opened (segments path)
  · have henter : Preserves opened d (Scope.enter d path node) :=
      (bind hpath h node).trans (hideBelow hpath (h.bind path node))
    exact (henter.trans (hbody.of_cons hpath)).trans (release hpath hbody.wellFormed)
  · exact hbody.bracket_of_not_guarded h hpath

end Preserves

end Document

/-! ## Scripts -/

/-- What runs on a document: look-ups, the three changes, and brackets. -/
inductive Script where
  /-- The end of a script. -/
  | done
  /-- Goes on in a way that depends on what is looked up. -/
  | look (next : Document → Script)
  | bind (path : String) (node : Pointer) (next : Script)
  | hideBelow (path : String) (next : Script)
  | release (path : String) (next : Script)
  /-- Runs a script with a node bound to a path, and goes on when the node is released. -/
  | within (path : String) (node : Pointer) (body next : Script)

namespace Script

open Document

/-- The document when a script has run. -/
def run : Script → Document → Document
  | done, d => d
  | look next, d => (next d).run d
  | bind path node next, d => next.run (Scope.bind d path node)
  | hideBelow path next, d => next.run (Scope.hideBelow d path)
  | release path next, d => next.run (Scope.release d path)
  | within path node body next, d =>
    next.run (Scope.within d path node fun e => ((), body.run e)).2

/-- Every change outside of a bracket of its own is made strictly below an open path. -/
def Confined : Script → List Path → Prop
  | done, _ => True
  | look next, opened => ∀ d, (next d).Confined opened
  | bind path _ next, opened => Guarded opened (segments path) ∧ next.Confined opened
  | hideBelow path next, opened => Guarded opened (segments path) ∧ next.Confined opened
  | release path next, opened => Guarded opened (segments path) ∧ next.Confined opened
  | within path _ body next, opened =>
    body.Confined (segments path :: opened) ∧ next.Confined opened

/-- A confined script preserves the layers outside of the open paths. -/
theorem run_preserves (script : Script) {opened : List Path} (hscript : script.Confined opened)
    {d : Document} (h : d.WellFormed) : Preserves opened d (script.run d) := by
  induction script generalizing opened d with
  | done => exact .refl h opened
  | look next ih => exact ih d (hscript d) h
  | bind path node next ih =>
      have hstep := Preserves.bind hscript.1 h node
      exact hstep.trans (ih hscript.2 hstep.wellFormed)
  | hideBelow path next ih =>
      have hstep := Preserves.hideBelow hscript.1 h
      exact hstep.trans (ih hscript.2 hstep.wellFormed)
  | release path next ih =>
      have hstep := Preserves.release hscript.1 h
      exact hstep.trans (ih hscript.2 hstep.wellFormed)
  | within path node body next ihBody ih =>
      have hbody := ihBody hscript.1 (h.enter path node)
      have hstep := hbody.bracket h
      exact hstep.trans (ih hscript.2 hstep.wellFormed)

end Script

namespace Document

/-! ## Documents that differ in their clocks -/

/-- The second document is the first one at a later time. -/
structure Later (d e : Document) : Prop where
  root : e.root = d.root
  layers : e.layers = d.layers
  clock : d.clock ≤ e.clock

/-- What changes below no open path at all changes nothing but the clock. -/
theorem Preserves.later {d e : Document} (hd : d.WellFormed) (h : Preserves [] d e) : Later d e where
  root := h.root
  layers := h.wellFormed.ascending.eq_of_mem_iff hd.ascending fun l => h.outside l (by simp [Guarded])
  clock := h.clock

namespace Later

variable {d e : Document}

theorem refl (d : Document) : Later d d := ⟨rfl, rfl, Nat.le_refl _⟩

theorem trans {d' : Document} (h : Later d d') (h' : Later d' e) : Later d e :=
  ⟨h'.root.trans h.root, h'.layers.trans h.layers, Nat.le_trans h.clock h'.clock⟩

theorem eq (h : Later d e) : e = { d with clock := e.clock } := by
  obtain ⟨root, layers, clock⟩ := e
  obtain rfl : root = d.root := h.root
  obtain rfl : layers = d.layers := h.layers
  rfl

theorem wellFormed (h : Later d e) (hd : d.WellFormed) : e.WellFormed := by
  rw [h.eq]
  exact hd.mono h.clock

theorem preserves (h : Later d e) (hd : d.WellFormed) (opened : List Path) : Preserves opened d e where
  wellFormed := h.wellFormed hd
  root := h.root
  clock := h.clock
  outside l _ := by rw [h.layers]
  fresh _ _ _ _ _ hfresh := by rwa [FreshBelow, h.layers]

/-- A bracket in which nothing but time has passed is one itself. -/
theorem release {path : String} {node : Pointer} (h : Later (Scope.enter d path node) e)
    (hd : d.WellFormed) : Later d (Scope.release e path) :=
  ((h.preserves (hd.enter path node) [segments path]).bracket hd).later hd

end Later

/--
A bracket around a computation restores a document, if the computation changes what is strictly below the
path, and the rest in brackets of its own only.
-/
theorem within_restores {α : Type} {d : Document} (h : Reachable d) (path : String) (node : Pointer)
    {body : Script} (hbody : body.Confined [segments path]) {f : Document → α × Document}
    (hf : (f (Scope.enter d path node)).2 = body.run (Scope.enter d path node)) :
    (Scope.within d path node f).2 =
      { d with clock := (body.run (Scope.enter d path node)).clock } := by
  have hrun := body.run_preserves hbody (h.wellFormed.enter path node)
  have hrestored := ((hrun.bracket h.wellFormed).later h.wellFormed).eq
  calc
    (Scope.within d path node f).2 = Scope.release (f (Scope.enter d path node)).2 path := rfl
    _ = Scope.release (body.run (Scope.enter d path node)) path := by rw [hf]
    _ = { d with clock := (body.run (Scope.enter d path node)).clock } := hrestored

/-- What was hidden, released and left over does not matter. -/
theorem within_restores_leftovers :
    let d := Scope.bind (Scope.bind (ofValue .null) "a/b" .root) "a" .root
    let body := Script.within "" .root (.bind "a" .root .done)
      (.release "a/b" (.bind "a/c" .root .done))
    d.Reachable ∧ body.Confined [segments "a"] ∧
      (Scope.within d "a" .root fun e => ((), body.run e)).2 = { d with clock := 6 } := by
  intro d body
  have hd : d.Reachable := ((Reachable.ofValue .null).bind "a/b" .root).bind "a" .root
  have hbody : body.Confined [segments "a"] :=
    ⟨⟨⟨_, .head _, by decide⟩, trivial⟩, ⟨_, .head _, by decide⟩, ⟨_, .head _, by decide⟩, trivial⟩
  exact ⟨hd, hbody, within_restores hd "a" .root hbody rfl⟩

end Document

end SheetFill.Json

import SheetFill.Proofs.Json.Layers

/-!
# What the layers of a document keep to

The layers of a document are changed in three ways: a node is bound, layers are put out of sight, and a
layer is removed. Whatever the order of these changes, and whether or not every node that was bound is
released, the layers stay *well formed*: no stamp occurs twice among all layers, visible or hidden at any
depth; the visible ones are in the order of their stamps; and what a layer hides is older than itself and
lies below its path.

## Main definitions

* `Layer.WellFormed` — the invariant.
* `Document.stack` — the layers of a path.
* `Document.Reachable` — documents that come from a new one by changes in any order.

## Main results

* `WellFormed.bind`, `WellFormed.hideBelow`, `WellFormed.release` — every change keeps the invariant.
* `Document.Reachable.wellFormed` — every reachable document is well formed.
-/

namespace SheetFill.Json

namespace Layer

/-! ## Stamps after a change -/

theorem count_stamps_under_apart (path : Path) (ls : List Layer) (n : Nat) :
    (stamps ls).count n = (stamps (under path ls)).count n + (stamps (apart path ls)).count n := by
  rw [← List.count_append, ← stamps_append]
  exact (count_stamps_perm (under_apart_perm path ls) n).symm

/-- Hiding layers multiplies no stamp. -/
theorem Ascending.count_stamps_hideBelow_le {ls : List Layer} (h : Ascending ls) (path : Path)
    (n : Nat) : (stamps (hideBelow ls path)).count n ≤ (stamps ls).count n := by
  have hsplit := count_stamps_under_apart path ls n
  cases htop : top? ls path with
  | none =>
      rw [hideBelow_of_none htop]
      omega
  | some t =>
      obtain ⟨ht, hpath, -⟩ := h.top?_eq_some_iff.1 htop
      have htop' : t ∈ Layer.apart path ls := by
        rw [mem_apart, hpath]
        exact ⟨ht, not_isBelow_self path⟩
      have hmap := count_stamps_perm ((h.apart path).map_hideUnder_perm htop'
        (keepOlder t.stamp (under path ls))) n
      have hapart := count_stamps_perm ((h.apart path).perm_cons_others htop') n
      have hcover := count_stamps_perm
        (perm_byStamp (t.hidden ++ keepOlder t.stamp (under path ls))) n
      have hkept := count_stamps_keepOlder_le t.stamp (under path ls) n
      rw [hideBelow_of_top? htop, hmap]
      simp only [stamps_cons, stamps_append, List.count_cons, List.count_append, covering]
        at hapart hcover ⊢
      omega

/-- Removing a layer multiplies no stamp. -/
theorem Ascending.count_stamps_release_le {ls : List Layer} (h : Ascending ls) (path : Path)
    (n : Nat) : (stamps (release ls path)).count n ≤ (stamps ls).count n := by
  cases htop : top? ls path with
  | none => exact Nat.le_of_eq (by rw [release_of_none htop])
  | some t =>
      obtain ⟨ht, -, -⟩ := h.top?_eq_some_iff.1 htop
      have hothers := count_stamps_perm (h.perm_cons_others ht) n
      have hsplit := count_stamps_under_apart path (others t ls) n
      have hkept := count_stamps_keepOlder_le t.stamp (under path (others t ls)) n
      rw [release_of_top? htop, count_stamps_perm (perm_byStamp _) n]
      simp only [stamps_cons, stamps_append, List.count_cons, List.count_append] at hothers ⊢
      omega

/-! ## Well-formed layers -/

/--
Visible layers are in the order of their stamps; no stamp occurs twice among all layers, and none is
larger than the clock; a layer hides older layers below its own path.
-/
structure WellFormed (clock : Nat) (ls : List Layer) : Prop where
  ascending : Ascending ls
  distinct : (stamps ls).Nodup
  bounded : ∀ l ∈ allLayers ls, l.stamp ≤ clock
  nested : ∀ l ∈ allLayers ls, ∀ h ∈ l.hidden, h.stamp < l.stamp ∧ isBelow l.path h.path

theorem wellFormed_nil (clock : Nat) : WellFormed clock [] where
  ascending := .nil
  distinct := .nil
  bounded := by simp
  nested := by simp

namespace WellFormed

variable {clock : Nat} {ls : List Layer}

theorem mono (h : WellFormed clock ls) {clock' : Nat} (hle : clock ≤ clock') :
    WellFormed clock' ls :=
  { h with bounded := fun l hl => Nat.le_trans (h.bounded l hl) hle }

/-- Whatever a layer hides, at any depth, is older than the layer and lies below its path. -/
theorem nested_all (h : WellFormed clock ls) {l m : Layer} (hl : l ∈ allLayers ls)
    (hm : m ∈ allLayers l.hidden) : m.stamp < l.stamp ∧ isBelow l.path m.path := by
  refine forall_mem_allLayers (P := fun a => a.stamp < l.stamp ∧ isBelow l.path a.path)
    (h.nested l hl) (fun a ha hpart b hb => ?_) m hm
  obtain ⟨hstamp, hbelow⟩ := h.nested a (allLayers_hidden_subset hl ha) b hb
  exact ⟨Nat.lt_trans hstamp hpart.1, isBelow_trans hpart.2 hbelow⟩

/-- All that is below a path, and all that is hidden there, lies below the path. -/
theorem isBelow_of_mem_under (h : WellFormed clock ls) {path : Path} {m : Layer}
    (hm : m ∈ allLayers (under path ls)) : isBelow path m.path := by
  have hsubset : allLayers (under path ls) ⊆ allLayers ls := allLayers_subset (under_subset path ls)
  refine forall_mem_allLayers (P := fun a => isBelow path a.path) (fun l hl => (mem_under.1 hl).2)
    (fun a ha hbelow b hb => ?_) m hm
  exact isBelow_trans hbelow (h.nested a (hsubset ha) b hb).2

/-- What is left below a path when new layers are discarded lies below the path. -/
theorem isBelow_of_mem_keepOlder (h : WellFormed clock ls) {path : Path} {stamp : Nat} {m : Layer}
    (hm : m ∈ keepOlder stamp (under path ls)) : isBelow path m.path :=
  h.isBelow_of_mem_under ((allLayers_keepOlder_sublist stamp _).subset (mem_allLayers_of_mem hm))

theorem bind (h : WellFormed clock ls) (path : Path) (node : Pointer) :
    WellFormed (clock + 1) (Layer.bind ls path node (clock + 1)) := by
  have hall : allLayers (Layer.bind ls path node (clock + 1)) =
      allLayers ls ++ [⟨path, node, clock + 1, []⟩] := by
    simp [Layer.bind]
  have hnew {l : Layer} (hl : l ∈ allLayers ls) : l.stamp < clock + 1 :=
    Nat.lt_succ_of_le (h.bounded l hl)
  refine
    { ascending := ?_
      distinct := ?_
      bounded := ?_
      nested := ?_ }
  · refine List.pairwise_append.2 ⟨h.ascending, by simp, fun l hl m hm => ?_⟩
    rw [List.mem_singleton.1 hm]
    exact hnew (mem_allLayers_of_mem hl)
  · rw [stamps, hall, List.map_append]
    refine List.nodup_append.2 ⟨h.distinct, by simp, fun a ha b hb => ?_⟩
    obtain ⟨l, hl, rfl⟩ := List.mem_map.1 ha
    have hlt := hnew hl
    simp only [List.map_cons, List.map_nil, List.mem_singleton] at hb
    omega
  · intro l hl
    rw [hall, List.mem_append, List.mem_singleton] at hl
    rcases hl with hl | rfl
    · exact Nat.le_of_lt (hnew hl)
    · exact Nat.le_refl _
  · intro l hl m hm
    rw [hall, List.mem_append, List.mem_singleton] at hl
    rcases hl with hl | rfl
    · exact h.nested l hl m hm
    · simp at hm

/-- Hiding layers adds none but the one that hides more. -/
theorem mem_allLayers_hideBelow (h : WellFormed clock ls) {path : Path} {m : Layer}
    (hm : m ∈ allLayers (Layer.hideBelow ls path)) :
    m ∈ allLayers ls ∨ ∃ t ∈ ls, t.path = path ∧
      m = t.covering (keepOlder t.stamp (under path ls)) := by
  obtain ⟨l, hl, hml⟩ := mem_allLayers.1 hm
  cases htop : top? ls path with
  | none =>
      rw [mem_hideBelow_of_none htop] at hl
      exact .inl (mem_allLayers.2 ⟨l, hl.1, hml⟩)
  | some t =>
      obtain ⟨ht, hpath, -⟩ := h.ascending.top?_eq_some_iff.1 htop
      rcases (mem_hideBelow_of_top? h.ascending htop).1 hl with ⟨hl, -, -⟩ | rfl
      · exact .inl (mem_allLayers.2 ⟨l, hl, hml⟩)
      · rw [withHidden_eq, List.mem_cons] at hml
        rcases hml with rfl | hml
        · exact .inr ⟨t, ht, hpath, rfl⟩
        · left
          rcases mem_allLayers_covering.1 hml with hml | hml
          · exact allLayers_hidden_subset (mem_allLayers_of_mem ht) hml
          · exact allLayers_subset (under_subset path ls)
              ((allLayers_keepOlder_sublist _ _).subset hml)

theorem hideBelow (h : WellFormed clock ls) (path : Path) :
    WellFormed clock (Layer.hideBelow ls path) := by
  refine
    { ascending := ?_
      distinct := ?_
      bounded := ?_
      nested := ?_ }
  · cases htop : top? ls path with
    | none =>
        rw [hideBelow_of_none htop]
        exact h.ascending.apart path
    | some t =>
        rw [hideBelow_of_top? htop]
        exact List.pairwise_map.2 ((h.ascending.apart path).imp fun {a b} hab => by simpa using hab)
  · apply List.nodup_iff_count.2
    intro n
    exact Nat.le_trans (h.ascending.count_stamps_hideBelow_le path n)
      (List.nodup_iff_count.1 h.distinct n)
  · intro m hm
    rcases h.mem_allLayers_hideBelow hm with hm | ⟨t, ht, -, rfl⟩
    · exact h.bounded m hm
    · exact h.bounded t (mem_allLayers_of_mem ht)
  · intro m hm l hl
    rcases h.mem_allLayers_hideBelow hm with hm | ⟨t, ht, rfl, rfl⟩
    · exact h.nested m hm l hl
    · rw [covering, mem_byStamp, List.mem_append] at hl
      rcases hl with hl | hl
      · exact h.nested t (mem_allLayers_of_mem ht) l hl
      · exact ⟨stamp_lt_of_mem_keepOlder hl, h.isBelow_of_mem_keepOlder hl⟩

/-- Removing a layer adds none. -/
theorem allLayers_release_subset (h : WellFormed clock ls) (path : Path) :
    allLayers (Layer.release ls path) ⊆ allLayers ls := by
  intro m hm
  obtain ⟨l, hl, hml⟩ := mem_allLayers.1 hm
  cases htop : top? ls path with
  | none =>
      rw [release_of_none htop] at hl
      exact mem_allLayers.2 ⟨l, hl, hml⟩
  | some t =>
      obtain ⟨ht, -, -⟩ := h.ascending.top?_eq_some_iff.1 htop
      rcases (mem_release_of_top? h.ascending htop).1 hl with ⟨hl, -, -⟩ | hl | hl
      · exact mem_allLayers.2 ⟨l, hl, hml⟩
      · exact allLayers_subset (under_subset path ls)
          ((allLayers_keepOlder_sublist _ _).subset (mem_allLayers.2 ⟨l, hl, hml⟩))
      · exact allLayers_hidden_subset (mem_allLayers_of_mem ht) (mem_allLayers.2 ⟨l, hl, hml⟩)

theorem release (h : WellFormed clock ls) (path : Path) :
    WellFormed clock (Layer.release ls path) := by
  have hdistinct : (stamps (Layer.release ls path)).Nodup := by
    apply List.nodup_iff_count.2
    intro n
    exact Nat.le_trans (h.ascending.count_stamps_release_le path n)
      (List.nodup_iff_count.1 h.distinct n)
  refine
    { ascending := ?_
      distinct := hdistinct
      bounded := fun m hm => h.bounded m (h.allLayers_release_subset path hm)
      nested := fun m hm => h.nested m (h.allLayers_release_subset path hm) }
  cases htop : top? ls path with
  | none =>
      rw [release_of_none htop]
      exact h.ascending
  | some t =>
      rw [release_of_top? htop]
      rw [release_of_top? htop] at hdistinct
      refine ascending_byStamp ?_
      refine ((perm_byStamp _).map Layer.stamp).nodup_iff.1 ?_
      exact hdistinct.sublist (map_stamp_sublist _)

end WellFormed

end Layer

/-! ## Documents -/

namespace Document

theorem bind_eq (d : Document) (path : String) (node : Pointer) :
    Scope.bind d path node =
      ⟨d.root, Layer.bind d.layers (segments path) node (d.clock + 1), d.clock + 1⟩ := rfl

theorem hideBelow_eq (d : Document) (path : String) :
    Scope.hideBelow d path = ⟨d.root, Layer.hideBelow d.layers (segments path), d.clock⟩ := rfl

theorem release_eq (d : Document) (path : String) :
    Scope.release d path = ⟨d.root, Layer.release d.layers (segments path), d.clock⟩ := rfl

/-- The layers of a path, the oldest first. -/
def stack (d : Document) (path : Path) : List Layer := d.layers.filter fun l => l.path == path

theorem mem_stack {d : Document} {path : Path} {l : Layer} :
    l ∈ d.stack path ↔ l ∈ d.layers ∧ l.path = path := by
  simp [stack]

/-- The layers of a document are well formed, and no stamp is ahead of its clock. -/
def WellFormed (d : Document) : Prop := Layer.WellFormed d.clock d.layers

/-- Documents that come from a new one by binding, hiding and releasing in any order. -/
inductive Reachable : Document → Prop where
  | ofValue (root : Value) : Reachable (ofValue root)
  | bind {d : Document} (h : Reachable d) (path : String) (node : Pointer) :
      Reachable (Scope.bind d path node)
  | hideBelow {d : Document} (h : Reachable d) (path : String) : Reachable (Scope.hideBelow d path)
  | release {d : Document} (h : Reachable d) (path : String) : Reachable (Scope.release d path)

theorem wellFormed_ofValue (root : Value) : (ofValue root).WellFormed := Layer.wellFormed_nil 0

theorem WellFormed.bind {d : Document} (h : d.WellFormed) (path : String) (node : Pointer) :
    (Scope.bind d path node).WellFormed :=
  Layer.WellFormed.bind h (segments path) node

theorem WellFormed.hideBelow {d : Document} (h : d.WellFormed) (path : String) :
    (Scope.hideBelow d path).WellFormed :=
  Layer.WellFormed.hideBelow h (segments path)

theorem WellFormed.release {d : Document} (h : d.WellFormed) (path : String) :
    (Scope.release d path).WellFormed :=
  Layer.WellFormed.release h (segments path)

/-- Every reachable document is well formed. -/
theorem Reachable.wellFormed {d : Document} (h : Reachable d) : d.WellFormed := by
  induction h with
  | ofValue root => exact wellFormed_ofValue root
  | bind _ path node ih => exact ih.bind path node
  | hideBelow _ path ih => exact ih.hideBelow path
  | release _ path ih => exact ih.release path

end Document

end SheetFill.Json

import Mathlib.Data.List.Nodup
import SheetFill.Proofs.Json.Layering

/-!
# What a removed layer takes with it

When the newest layer of a path is removed, what was bound below the path since then goes with it, wherever it
is, and nothing else does: layers that are older than the removed one are kept, even those that were hidden
deep inside of discarded ones, and those on top of them come back into sight.

That layers are lost in no other way follows from how they are discarded: of every discarded layer, the older
ones that it was hiding are kept. That new layers below the path are not kept somewhere else needs more. A
layer that lies above the path, or under the removed one on its stack, might be hiding some of them. It does
not, because a layer that hides anything was the newest one of its path when it did, and it then hid all that
was older than itself below its path. What has stayed in sight there since is newer than all that it hides.

## Main definitions

* `Layer.HidesAll` — whoever hides a layer hides all older ones below its path.
* `Layer.Discarded` — the layers that go with the newest one of a path.

## Main results

* `Layer.exists_mem_keepOlder` — nothing old is lost when new layers are discarded.
* `Layer.HidesAll.bind`, `Layer.HidesAll.hideBelow`, `Layer.HidesAll.release` — every change keeps to it.
* `Layer.mem_allLayers_release_iff`, `Layer.mem_release_iff_hider` — the layers, and those in sight, after a
  removal.
* `Document.Reachable.hidesAll` — whatever was bound, hidden and released, whoever hides a layer hides all.
-/

namespace SheetFill.Json

namespace Layer

variable {clock : Nat} {ls : List Layer} {path : Path} {t : Layer}

/-! ## Layers as of a moment -/

theorem keepOlder_eq_flatMap (stamp : Nat) (ls : List Layer) :
    keepOlder stamp ls = ls.flatMap (older stamp) := by
  induction ls with
  | nil => rw [keepOlder, List.flatMap_nil]
  | cons l ls ih => rw [keepOlder, ih, List.flatMap_cons]

theorem mem_keepOlder {stamp : Nat} {m : Layer} :
    m ∈ keepOlder stamp ls ↔ ∃ l ∈ ls, m ∈ older stamp l := by
  rw [keepOlder_eq_flatMap, List.mem_flatMap]

theorem keepOlder_append (stamp : Nat) (ls ms : List Layer) :
    keepOlder stamp (ls ++ ms) = keepOlder stamp ls ++ keepOlder stamp ms := by
  simp only [keepOlder_eq_flatMap, List.flatMap_append]

theorem keepOlder_perm {stamp : Nat} {ms : List Layer} (h : ls.Perm ms) :
    (keepOlder stamp ls).Perm (keepOlder stamp ms) := by
  rw [keepOlder_eq_flatMap, keepOlder_eq_flatMap]
  exact h.flatMap_right _

theorem keepOlder_subset {ms : List Layer} (h : ls ⊆ ms) (stamp : Nat) :
    keepOlder stamp ls ⊆ keepOlder stamp ms := by
  intro m hm
  obtain ⟨l, hl, hm⟩ := mem_keepOlder.1 hm
  exact mem_keepOlder.2 ⟨l, h hl, hm⟩

theorem mem_keepOlder_of_lt {stamp : Nat} {l : Layer} (hl : l ∈ ls) (h : l.stamp < stamp) :
    l ∈ keepOlder stamp ls :=
  mem_keepOlder.2 ⟨l, hl, by rw [older_of_lt h]; exact List.mem_singleton_self l⟩

theorem older_cases {stamp : Nat} {l m : Layer} (h : m ∈ older stamp l) :
    m = l ∧ l.stamp < stamp ∨ stamp ≤ l.stamp ∧ m ∈ keepOlder stamp l.hidden := by
  by_cases hstamp : l.stamp < stamp
  · rw [older_of_lt hstamp, List.mem_singleton] at h
    exact .inl ⟨h, hstamp⟩
  · have hle := Nat.le_of_not_lt hstamp
    rw [older_of_le hle] at h
    exact .inr ⟨hle, h⟩

mutual

theorem exists_mem_older {stamp : Nat} {l m : Layer} (hm : m ∈ l.withHidden) (h : m.stamp < stamp) :
    ∃ w ∈ older stamp l, m ∈ w.withHidden := by
  match l with
  | ⟨path, node, s, hidden⟩ =>
      by_cases hs : s < stamp
      · rw [older_of_lt hs]
        exact ⟨_, List.mem_singleton_self _, hm⟩
      · have hle := Nat.le_of_not_lt hs
        rw [withHidden_eq, List.mem_cons] at hm
        rw [older_of_le hle]
        rcases hm with rfl | hm
        · exact absurd h hs
        · exact exists_mem_keepOlder hm h

/-- Nothing that is older than a moment is lost when everything from then on is discarded. -/
theorem exists_mem_keepOlder {stamp : Nat} {ls : List Layer} {m : Layer} (hm : m ∈ allLayers ls)
    (h : m.stamp < stamp) : ∃ w ∈ keepOlder stamp ls, m ∈ w.withHidden := by
  match ls with
  | [] => simp at hm
  | l :: rest =>
      rw [allLayers, List.mem_append] at hm
      rw [keepOlder]
      rcases hm with hm | hm
      · obtain ⟨w, hw, hmw⟩ := exists_mem_older hm h
        exact ⟨w, List.mem_append_left _ hw, hmw⟩
      · obtain ⟨w, hw, hmw⟩ := exists_mem_keepOlder hm h
        exact ⟨w, List.mem_append_right _ hw, hmw⟩

end

mutual

theorem keepOlder_older {early late : Nat} (h : early ≤ late) (l : Layer) :
    keepOlder early (older late l) = older early l := by
  match l with
  | ⟨path, node, s, hidden⟩ =>
      by_cases hs : s < late
      · rw [older_of_lt hs, keepOlder, keepOlder, List.append_nil]
      · have hle := Nat.le_of_not_lt hs
        rw [older_of_le hle, older_of_le (Nat.le_trans h hle)]
        exact keepOlder_keepOlder h hidden

/-- What is as of an early moment is so as of a later one before. -/
theorem keepOlder_keepOlder {early late : Nat} (h : early ≤ late) (ls : List Layer) :
    keepOlder early (keepOlder late ls) = keepOlder early ls := by
  match ls with
  | [] => rfl
  | l :: rest =>
      rw [keepOlder, keepOlder_append, keepOlder_older h l, keepOlder_keepOlder h rest, keepOlder]

end

mutual

theorem hider_of_mem_older {stamp : Nat} {l m : Layer} (h : m ∈ older stamp l) :
    m = l ∨ ∃ r ∈ l.withHidden, stamp ≤ r.stamp ∧ m ∈ r.hidden := by
  match l with
  | ⟨path, node, s, hidden⟩ =>
      rcases older_cases h with ⟨rfl, -⟩ | ⟨hle, h⟩
      · exact .inl rfl
      · rcases hider_of_mem_keepOlder h with h | ⟨r, hr, hrest⟩
        · exact .inr ⟨_, mem_withHidden_self _, hle, h⟩
        · exact .inr ⟨r, mem_withHidden_of_hidden hr, hrest⟩

/-- What is left when new layers are discarded was in sight, or a discarded layer was hiding it. -/
theorem hider_of_mem_keepOlder {stamp : Nat} {ls : List Layer} {m : Layer} (h : m ∈ keepOlder stamp ls) :
    m ∈ ls ∨ ∃ r ∈ allLayers ls, stamp ≤ r.stamp ∧ m ∈ r.hidden := by
  match ls with
  | [] => simp [keepOlder] at h
  | l :: rest =>
      rw [keepOlder, List.mem_append] at h
      rw [allLayers]
      rcases h with h | h
      · rcases hider_of_mem_older h with rfl | ⟨r, hr, hrest⟩
        · exact .inl List.mem_cons_self
        · exact .inr ⟨r, List.mem_append_left _ hr, hrest⟩
      · rcases hider_of_mem_keepOlder h with h | ⟨r, hr, hrest⟩
        · exact .inl (List.mem_cons_of_mem _ h)
        · exact .inr ⟨r, List.mem_append_right _ hr, hrest⟩

end

/-- What a discarded layer was hiding is left, as far as it is old. -/
theorem keepOlder_hidden_subset (hnested : ∀ l ∈ allLayers ls, ∀ m ∈ l.hidden, m.stamp < l.stamp)
    {r : Layer} (hr : r ∈ allLayers ls) {stamp : Nat} (hstamp : stamp ≤ r.stamp) :
    keepOlder stamp r.hidden ⊆ keepOlder stamp ls := by
  refine forall_mem_allLayers (P := fun a => stamp ≤ a.stamp →
    keepOlder stamp a.hidden ⊆ keepOlder stamp ls) (fun a ha hle m hm => ?_)
    (fun a ha hsub b hb hle m hm => ?_) r hr hstamp
  · exact mem_keepOlder.2 ⟨a, ha, by rwa [older_of_le hle]⟩
  · have hlt := hnested a ha b hb
    exact hsub (by omega) (mem_keepOlder.2 ⟨b, hb, by rwa [older_of_le hle]⟩)

/-! ## Layers that come back -/

/-- The layers that come back into sight when the newest layer of a path is removed. -/
def returning (path : Path) (t : Layer) (ls : List Layer) : List Layer :=
  t.hidden ++ keepOlder t.stamp (under path ls)

theorem mem_returning {m : Layer} :
    m ∈ returning path t ls ↔ m ∈ t.hidden ∨ m ∈ keepOlder t.stamp (under path ls) := List.mem_append

theorem mem_allLayers_returning {m : Layer} (hm : m ∈ allLayers (returning path t ls)) :
    m ∈ t.withHidden ∨ m ∈ allLayers (under path ls) := by
  rw [returning, allLayers_append, List.mem_append] at hm
  rcases hm with hm | hm
  · exact .inl (mem_withHidden_of_hidden hm)
  · exact .inr ((allLayers_keepOlder_sublist _ _).subset hm)

/-- What is hidden by a layer, or is below its path, comes back if it is older than the layer. -/
theorem mem_allLayers_returning_of_lt {m : Layer}
    (hm : m ∈ allLayers t.hidden ∨ m ∈ allLayers (under path ls)) (hlt : m.stamp < t.stamp) :
    m ∈ allLayers (returning path t ls) := by
  rw [returning, allLayers_append, List.mem_append]
  exact hm.imp_right fun hunder => mem_allLayers.2 (exists_mem_keepOlder hunder hlt)

/-- A layer is a given one in sight, or it belongs to another one, is hidden by it, or belongs below a path. -/
theorem Ascending.mem_allLayers_cases (h : Ascending ls) (path : Path) (ht : t ∈ ls) {m : Layer}
    (hm : m ∈ allLayers ls) :
    m = t ∨ (∃ l ∈ ls, ¬ isBelow path l.path ∧ l.stamp ≠ t.stamp ∧ m ∈ l.withHidden) ∨
      m ∈ allLayers t.hidden ∨ m ∈ allLayers (under path ls) := by
  obtain ⟨l, hl, hml⟩ := mem_allLayers.1 hm
  by_cases hbelow : isBelow path l.path
  · exact .inr (.inr (.inr (mem_allLayers.2 ⟨l, mem_under.2 ⟨hl, hbelow⟩, hml⟩)))
  · by_cases heq : l.stamp = t.stamp
    · obtain rfl := h.eq_of_stamp_eq hl ht heq
      rw [withHidden_eq, List.mem_cons] at hml
      exact hml.imp_right fun hhidden => .inr (.inl hhidden)
    · exact .inr (.inl ⟨l, hl, hbelow, heq, hml⟩)

/-- As of a moment before the newest layer of a path was bound, the layers that come back were in sight. -/
theorem keepOlder_returning_subset (ht : t ∈ ls) {stamp : Nat} (hstamp : stamp ≤ t.stamp) :
    keepOlder stamp (returning path t ls) ⊆ keepOlder stamp ls := by
  intro m hm
  rw [returning, keepOlder_append, keepOlder_keepOlder hstamp, List.mem_append] at hm
  rcases hm with hm | hm
  · exact mem_keepOlder.2 ⟨t, ht, by rwa [older_of_le hstamp]⟩
  · exact keepOlder_subset (under_subset path ls) stamp hm

theorem WellFormed.of_mem_returning (h : WellFormed clock ls) (ht : top? ls path = some t) {m : Layer}
    (hm : m ∈ returning path t ls) : m.stamp < t.stamp ∧ isBelow path m.path := by
  obtain ⟨hmem, htpath, -⟩ := h.ascending.top?_eq_some_iff.1 ht
  rcases mem_returning.1 hm with hm | hm
  · obtain ⟨hlt, hbelow⟩ := h.nested t (mem_allLayers_of_mem hmem) m hm
    exact ⟨hlt, htpath ▸ hbelow⟩
  · exact ⟨stamp_lt_of_mem_keepOlder hm, h.isBelow_of_mem_keepOlder hm⟩

/-- The newest layer of a path hides the layers that would come back if it were removed. -/
theorem Ascending.mem_hideBelow_iff (h : Ascending ls) (ht : top? ls path = some t) {l : Layer} :
    l ∈ hideBelow ls path ↔ (l ∈ ls ∧ ¬ isBelow path l.path ∧ l.stamp ≠ t.stamp) ∨
      l = { t with hidden := byStamp (returning path t ls) } :=
  mem_hideBelow_of_top? h ht

theorem Ascending.mem_release_iff (h : Ascending ls) (ht : top? ls path = some t) {l : Layer} :
    l ∈ release ls path ↔ (l ∈ ls ∧ ¬ isBelow path l.path ∧ l.stamp ≠ t.stamp) ∨
      l ∈ returning path t ls := by
  rw [mem_release_of_top? h ht, mem_returning, or_comm (a := l ∈ t.hidden)]

/-! ## Whoever hides, hides all -/

/-- A layer is over those at paths below its own, and over the newer ones of its own path. -/
def Over (x y : Layer) : Prop := x.path <+: y.path ∧ (y.path = x.path → x.stamp < y.stamp)

/--
Of the layers as of any moment, a layer that hides anything is over none that is older than itself and below
its path, nor over one that hides such a layer.
-/
def HidesAll (ls : List Layer) : Prop :=
  ∀ stamp, ∀ x ∈ keepOlder stamp ls, ∀ y ∈ keepOlder stamp ls, Over x y →
    ∀ m ∈ y.withHidden, isBelow x.path m.path → m.stamp < x.stamp → x.hidden = []

theorem over_of_isBelow {x y : Layer} (h : isBelow x.path y.path) : Over x y := by
  refine ⟨(isBelow_iff_longer.1 h).1, fun heq => ?_⟩
  rw [heq] at h
  exact absurd h (not_isBelow_self _)

theorem hidesAll_nil : HidesAll [] := by
  intro stamp x hx
  simp [keepOlder] at hx

theorem HidesAll.of_subset {ms : List Layer} (h : HidesAll ls)
    (hsub : ∀ stamp, keepOlder stamp ms ⊆ keepOlder stamp ls) : HidesAll ms :=
  fun stamp x hx y hy => h stamp x (hsub stamp hx) y (hsub stamp hy)

/-- Among the visible layers, a layer that hides anything has no older one below its path. -/
theorem HidesAll.hidden_eq_nil (hall : HidesAll ls) (h : WellFormed clock ls) {x y : Layer} (hx : x ∈ ls)
    (hy : y ∈ ls) (hbelow : isBelow x.path y.path) (hlt : y.stamp < x.stamp) : x.hidden = [] := by
  have hnow : keepOlder (clock + 1) ls = ls :=
    keepOlder_eq_self fun l hl => Nat.lt_succ_of_le (h.bounded l (mem_allLayers_of_mem hl))
  exact hall (clock + 1) x (by rwa [hnow]) y (by rwa [hnow]) (over_of_isBelow hbelow) y
    (mem_withHidden_self y) hbelow hlt

/-- A layer as of a moment that is neither below a path nor at it, but for what is under the newest layer there. -/
structure Aside (path : Path) (t : Layer) (ls : List Layer) (stamp : Nat) (m : Layer) : Prop where
  mem : m ∈ keepOlder stamp ls
  apart : ¬ isBelow path m.path
  older : m.path = path → m.stamp < t.stamp

/-- A layer aside that is over something at the path or below it lies above the path or at it. -/
theorem Aside.prefix_of_over {stamp : Nat} {x y : Layer} (hx : Aside path t ls stamp x) (hover : Over x y)
    (hy : path <+: y.path) : x.path <+: path := by
  rcases List.prefix_or_prefix_of_prefix hover.1 hy with hpre | hpre
  · exact hpre
  · by_cases heq : path = x.path
    · exact heq ▸ List.prefix_refl _
    · exact absurd (isBelow_of_prefix_ne hpre heq) hx.apart

section Top

variable (hall : HidesAll ls) (h : WellFormed clock ls) (ht : top? ls path = some t)

include hall h ht

/-- A layer apart from a path that hides something at or below it is older than the newest layer there. -/
theorem stamp_lt_of_hides {l m : Layer} (hl : l ∈ ls) (hapart : ¬ isBelow path l.path)
    (hne : l.stamp ≠ t.stamp) (hm : m ∈ allLayers l.hidden) (hpath : path <+: m.path) :
    l.stamp < t.stamp := by
  obtain ⟨hmem, htpath, hnewest⟩ := h.ascending.top?_eq_some_iff.1 ht
  obtain ⟨-, hbelow⟩ := h.nested_all (mem_allLayers_of_mem hl) hm
  by_cases heq : l.path = path
  · have hle := hnewest l hl heq
    omega
  · have habove : isBelow l.path path := by
      rcases List.prefix_or_prefix_of_prefix (isBelow_iff_longer.1 hbelow).1 hpath with hpre | hpre
      · exact isBelow_of_prefix_ne hpre heq
      · exact absurd (isBelow_of_prefix_ne hpre fun heq' => heq heq'.symm) hapart
    refine Nat.lt_of_not_le fun hle => ?_
    have hempty := hall.hidden_eq_nil h hl hmem (htpath ▸ habove) (by omega)
    rw [hempty] at hm
    simp at hm

/-- Layers apart from a path stay so as of any moment after the newest one there was bound. -/
theorem aside_of_mem_older {l m : Layer} (hl : l ∈ ls) (hapart : ¬ isBelow path l.path)
    (hne : l.stamp ≠ t.stamp) {stamp : Nat} (hstamp : t.stamp < stamp) (hm : m ∈ older stamp l) :
    Aside path t ls stamp m := by
  obtain ⟨-, -, hnewest⟩ := h.ascending.top?_eq_some_iff.1 ht
  have hmem : m ∈ keepOlder stamp ls := mem_keepOlder.2 ⟨l, hl, hm⟩
  rcases older_cases hm with ⟨rfl, -⟩ | ⟨hle, hm⟩
  · refine ⟨hmem, hapart, fun hpath => ?_⟩
    have hold := hnewest m hl hpath
    omega
  · have hhidden := (allLayers_keepOlder_sublist stamp l.hidden).subset (mem_allLayers_of_mem hm)
    have hnot : ¬ path <+: m.path := fun hpath => by
      have hlt := stamp_lt_of_hides hall h ht hl hapart hne hhidden hpath
      omega
    exact ⟨hmem, fun hbelow => hnot (isBelow_iff_longer.1 hbelow).1,
      fun heq => absurd (heq ▸ List.prefix_refl _) hnot⟩

/-- What is new below a path is in sight there, or hidden there. -/
theorem mem_under_of_lt {m : Layer} (hm : m ∈ allLayers ls) (hbelow : isBelow path m.path)
    (hlt : t.stamp < m.stamp) : m ∈ allLayers (under path ls) := by
  obtain ⟨l, hl, hml⟩ := mem_allLayers.1 hm
  by_cases hapart : isBelow path l.path
  · exact mem_allLayers.2 ⟨l, mem_under.2 ⟨hl, hapart⟩, hml⟩
  · rw [withHidden_eq, List.mem_cons] at hml
    rcases hml with rfl | hml
    · exact absurd hbelow hapart
    · have hold := (h.nested_all (mem_allLayers_of_mem hl) hml).1
      have hne : l.stamp ≠ t.stamp := by omega
      have hlt' := stamp_lt_of_hides hall h ht hl hapart hne hml (isBelow_iff_longer.1 hbelow).1
      omega

/-- A layer aside that is over layers that come back hides nothing, if one of them is older and below it. -/
theorem Aside.hidden_eq_nil {stamp : Nat} (hstamp : t.stamp < stamp) {x m : Layer}
    (hx : Aside path t ls stamp x) (hpre : x.path <+: path)
    (hm : m ∈ t.withHidden ∨ m ∈ allLayers (under path ls)) (hbelow : isBelow x.path m.path)
    (hlt : m.stamp < x.stamp) : x.hidden = [] := by
  obtain ⟨hmem, htpath, -⟩ := h.ascending.top?_eq_some_iff.1 ht
  rcases hm with hm | hm
  · have hover : Over x t := ⟨htpath ▸ hpre, fun heq => hx.older (heq ▸ htpath)⟩
    exact hall stamp x hx.mem t (mem_keepOlder_of_lt hmem hstamp) hover m hm hbelow hlt
  · have hold := stamp_lt_of_mem_keepOlder hx.mem
    obtain ⟨w, hw, hmw⟩ := exists_mem_keepOlder hm (Nat.lt_trans hlt hold)
    have hover : Over x w :=
      over_of_isBelow (isBelow_of_prefix_of_isBelow hpre (h.isBelow_of_mem_keepOlder hw))
    exact hall stamp x hx.mem w (keepOlder_subset (under_subset path ls) stamp hw) hover m hmw hbelow hlt

end Top

/-! ### Changes -/

theorem HidesAll.bind (hall : HidesAll ls) (h : WellFormed clock ls) (path : Path) (node : Pointer) :
    HidesAll (Layer.bind ls path node (clock + 1)) := by
  let new : Layer := ⟨path, node, clock + 1, []⟩
  have hcases {stamp : Nat} {m : Layer} (hm : m ∈ keepOlder stamp (Layer.bind ls path node (clock + 1))) :
      m ∈ keepOlder stamp ls ∨ m = new := by
    rw [Layer.bind, keepOlder_append, List.mem_append] at hm
    refine hm.imp_right fun hm => ?_
    obtain ⟨l, hl, hm⟩ := mem_keepOlder.1 hm
    obtain rfl := List.mem_singleton.1 hl
    rcases older_cases hm with ⟨heq, -⟩ | ⟨-, hm⟩
    · exact heq
    · simp [keepOlder] at hm
  intro stamp x hx y hy hover m hm hbelow hlt
  rcases hcases hx with hx | rfl
  · rcases hcases hy with hy | rfl
    · exact hall stamp x hx y hy hover m hm hbelow hlt
    · -- the new layer is older than no other
      rw [withHidden_eq, allLayers_nil, List.mem_singleton] at hm
      have hnew : m.stamp = clock + 1 := congrArg Layer.stamp hm
      have hold := h.bounded x ((allLayers_keepOlder_sublist stamp ls).subset (mem_allLayers_of_mem hx))
      omega
  · rfl

/-- As of a moment after the newest layer of a path was bound, the others stay where they were, and it hides more. -/
theorem HidesAll.mem_keepOlder_hideBelow (hall : HidesAll ls) (h : WellFormed clock ls)
    (ht : top? ls path = some t) {stamp : Nat} (hstamp : t.stamp < stamp) {m : Layer}
    (hm : m ∈ keepOlder stamp (Layer.hideBelow ls path)) :
    Aside path t ls stamp m ∨ m = { t with hidden := byStamp (returning path t ls) } := by
  obtain ⟨l, hl, hm⟩ := mem_keepOlder.1 hm
  rcases (h.ascending.mem_hideBelow_iff ht).1 hl with ⟨hl, hapart, hne⟩ | rfl
  · exact .inl (aside_of_mem_older hall h ht hl hapart hne hstamp hm)
  · rcases older_cases hm with ⟨heq, -⟩ | ⟨hle, -⟩
    · exact .inr heq
    · exact absurd hstamp (Nat.not_lt.2 hle)

/-- As of a moment before, nothing comes into sight. -/
theorem WellFormed.keepOlder_hideBelow_subset (h : WellFormed clock ls) (ht : top? ls path = some t)
    {stamp : Nat} (hstamp : stamp ≤ t.stamp) :
    keepOlder stamp (Layer.hideBelow ls path) ⊆ keepOlder stamp ls := by
  obtain ⟨hmem, -, -⟩ := h.ascending.top?_eq_some_iff.1 ht
  intro m hm
  obtain ⟨l, hl, hm⟩ := mem_keepOlder.1 hm
  rcases (h.ascending.mem_hideBelow_iff ht).1 hl with ⟨hl, -⟩ | rfl
  · exact mem_keepOlder.2 ⟨l, hl, hm⟩
  · rcases older_cases hm with ⟨-, hlt⟩ | ⟨-, hm⟩
    · exact absurd hlt (Nat.not_lt.2 hstamp)
    · have hback : m ∈ keepOlder stamp (returning path t ls) :=
        keepOlder_subset (fun l hl => mem_byStamp.1 hl) stamp hm
      exact keepOlder_returning_subset hmem hstamp hback

theorem HidesAll.hideBelow (hall : HidesAll ls) (h : WellFormed clock ls) (path : Path) :
    HidesAll (Layer.hideBelow ls path) := by
  cases ht : top? ls path with
  | none =>
      rw [hideBelow_of_none ht]
      exact hall.of_subset fun stamp => keepOlder_subset (fun l hl => (mem_apart.1 hl).1) stamp
  | some t =>
      obtain ⟨-, htpath, -⟩ := h.ascending.top?_eq_some_iff.1 ht
      intro stamp x hx y hy hover m hm hbelow hlt
      by_cases hstamp : t.stamp < stamp
      · rcases hall.mem_keepOlder_hideBelow h ht hstamp hx with hx | rfl
        · rcases hall.mem_keepOlder_hideBelow h ht hstamp hy with hy | rfl
          · exact hall stamp x hx.mem y hy.mem hover m hm hbelow hlt
          · have hpre : x.path <+: path := htpath ▸ hover.1
            rw [withHidden_eq, List.mem_cons, (allLayers_perm (perm_byStamp _)).mem_iff] at hm
            rcases hm with rfl | hm
            · exact hx.hidden_eq_nil hall h ht hstamp hpre (.inl (mem_withHidden_self t)) hbelow hlt
            · exact hx.hidden_eq_nil hall h ht hstamp hpre (mem_allLayers_returning hm) hbelow hlt
        · -- the newest layer of the path is over none of the others, now that all below it is hidden
          rcases hall.mem_keepOlder_hideBelow h ht hstamp hy with hy | rfl
          · have hpre : path <+: y.path := htpath ▸ hover.1
            by_cases heq : y.path = path
            · have hnew : t.stamp < y.stamp := hover.2 (heq.trans htpath.symm)
              exact absurd (hy.older heq) (Nat.lt_asymm hnew)
            · exact absurd (isBelow_of_prefix_ne hpre fun heq' => heq heq'.symm) hy.apart
          · exact absurd (hover.2 rfl) (Nat.lt_irrefl _)
      · have hsub := h.keepOlder_hideBelow_subset ht (Nat.le_of_not_lt hstamp)
        exact hall stamp x (hsub hx) y (hsub hy) hover m hm hbelow hlt

/-- As of a moment after the newest layer of a path was bound, the others stay where they were, or come back. -/
theorem HidesAll.mem_keepOlder_release (hall : HidesAll ls) (h : WellFormed clock ls)
    (ht : top? ls path = some t) {stamp : Nat} (hstamp : t.stamp < stamp) {m : Layer}
    (hm : m ∈ keepOlder stamp (Layer.release ls path)) :
    Aside path t ls stamp m ∨ m ∈ returning path t ls := by
  obtain ⟨l, hl, hm⟩ := mem_keepOlder.1 hm
  rcases (h.ascending.mem_release_iff ht).1 hl with ⟨hl, hapart, hne⟩ | hl
  · exact .inl (aside_of_mem_older hall h ht hl hapart hne hstamp hm)
  · rw [older_of_lt (Nat.lt_trans (h.of_mem_returning ht hl).1 hstamp), List.mem_singleton] at hm
    exact .inr (hm ▸ hl)

/-- As of a moment before, nothing comes into sight. -/
theorem WellFormed.keepOlder_release_subset (h : WellFormed clock ls) (ht : top? ls path = some t)
    {stamp : Nat} (hstamp : stamp ≤ t.stamp) :
    keepOlder stamp (Layer.release ls path) ⊆ keepOlder stamp ls := by
  obtain ⟨hmem, -, -⟩ := h.ascending.top?_eq_some_iff.1 ht
  intro m hm
  obtain ⟨l, hl, hm⟩ := mem_keepOlder.1 hm
  rcases (h.ascending.mem_release_iff ht).1 hl with ⟨hl, -⟩ | hl
  · exact mem_keepOlder.2 ⟨l, hl, hm⟩
  · exact keepOlder_returning_subset hmem hstamp (mem_keepOlder.2 ⟨l, hl, hm⟩)

theorem HidesAll.release (hall : HidesAll ls) (h : WellFormed clock ls) (path : Path) :
    HidesAll (Layer.release ls path) := by
  cases ht : top? ls path with
  | none => rwa [release_of_none ht]
  | some t =>
      obtain ⟨hmem, -, -⟩ := h.ascending.top?_eq_some_iff.1 ht
      intro stamp x hx y hy hover m hm hbelow hlt
      by_cases hstamp : t.stamp < stamp
      · rcases hall.mem_keepOlder_release h ht hstamp hx with hx | hx
        · rcases hall.mem_keepOlder_release h ht hstamp hy with hy | hy
          · exact hall stamp x hx.mem y hy.mem hover m hm hbelow hlt
          · have hpre := hx.prefix_of_over hover (isBelow_iff_longer.1 (h.of_mem_returning ht hy).2).1
            exact hx.hidden_eq_nil hall h ht hstamp hpre
              (mem_allLayers_returning (mem_allLayers.2 ⟨y, hy, hm⟩)) hbelow hlt
        · have hxbelow := isBelow_iff_longer.1 (h.of_mem_returning ht hx).2
          rcases hall.mem_keepOlder_release h ht hstamp hy with hy | hy
          · refine absurd (isBelow_iff_longer.2 ⟨hxbelow.1.trans hover.1, ?_⟩) hy.apart
            exact Nat.lt_of_lt_of_le hxbelow.2 hover.1.length_le
          · -- layers that come back were in sight together when the removed one was bound
            have hback {a : Layer} (ha : a ∈ returning path t ls) : a ∈ keepOlder t.stamp ls :=
              keepOlder_returning_subset hmem (Nat.le_refl _)
                (mem_keepOlder_of_lt ha (h.of_mem_returning ht ha).1)
            exact hall t.stamp x (hback hx) y (hback hy) hover m hm hbelow hlt
      · have hsub := h.keepOlder_release_subset ht (Nat.le_of_not_lt hstamp)
        exact hall stamp x (hsub hx) y (hsub hy) hover m hm hbelow hlt

/-! ## What a removal takes along -/

/-- The newest layer of a path, and what is newer than it below the path. -/
def Discarded (path : Path) (t m : Layer) : Prop := m = t ∨ isBelow path m.path ∧ t.stamp < m.stamp

theorem not_discarded_of_lt {m : Layer} (h : m.stamp < t.stamp) : ¬ Discarded path t m := by
  rintro (rfl | ⟨-, hlt⟩)
  · exact Nat.lt_irrefl _ h
  · exact Nat.lt_asymm h hlt

theorem WellFormed.eq_of_stamp_eq (h : WellFormed clock ls) {l m : Layer} (hl : l ∈ allLayers ls)
    (hm : m ∈ allLayers ls) (heq : l.stamp = m.stamp) : l = m :=
  List.inj_on_of_nodup_map h.distinct hl hm heq

section Removal

variable (hall : HidesAll ls) (h : WellFormed clock ls) (ht : top? ls path = some t)

/-- Below a path, what does not go with the newest layer there is older than that layer. -/
theorem stamp_lt_of_not_discarded {m : Layer} (h : WellFormed clock ls) (ht : t ∈ ls) (hm : m ∈ allLayers ls)
    (hbelow : isBelow path m.path) (hkept : ¬ Discarded path t m) : m.stamp < t.stamp := by
  have hnot : ¬ t.stamp < m.stamp := fun hlt => hkept (.inr ⟨hbelow, hlt⟩)
  have hne : m.stamp ≠ t.stamp := fun heq => hkept (.inl (h.eq_of_stamp_eq hm (mem_allLayers_of_mem ht) heq))
  omega

include hall h ht

/-- Nothing that goes with the newest layer of a path stays hidden anywhere. -/
theorem not_discarded_of_mem_release {m : Layer} (hm : m ∈ allLayers (release ls path)) :
    ¬ Discarded path t m := by
  obtain ⟨hmem, htpath, -⟩ := h.ascending.top?_eq_some_iff.1 ht
  obtain ⟨l, hl, hml⟩ := mem_allLayers.1 hm
  intro hdiscarded
  have hnew : t.stamp ≤ m.stamp := by
    rcases hdiscarded with rfl | ⟨-, hlt⟩
    · exact Nat.le_refl _
    · exact Nat.le_of_lt hlt
  have hpath : path <+: m.path := by
    rcases hdiscarded with rfl | ⟨hbelow, -⟩
    · exact htpath ▸ List.prefix_refl _
    · exact (isBelow_iff_longer.1 hbelow).1
  have hall' := h.allLayers_release_subset path (mem_allLayers_of_mem hl)
  rw [withHidden_eq, List.mem_cons] at hml
  rcases (h.ascending.mem_release_iff ht).1 hl with ⟨hl, hapart, hne⟩ | hl
  · rcases hml with rfl | hml
    · rcases hdiscarded with rfl | ⟨hbelow, -⟩
      · exact hne rfl
      · exact hapart hbelow
    · have hlt := stamp_lt_of_hides hall h ht hl hapart hne hml hpath
      have hlt' := (h.nested_all hall' hml).1
      omega
  · have hold := (h.of_mem_returning ht hl).1
    rcases hml with rfl | hml
    · omega
    · have hlt := (h.nested_all hall' hml).1
      omega

/-- A removal takes the newest layer of the path along, what is newer below the path, and nothing else. -/
theorem mem_allLayers_release_iff {m : Layer} :
    m ∈ allLayers (release ls path) ↔ m ∈ allLayers ls ∧ ¬ Discarded path t m := by
  obtain ⟨hmem, -, -⟩ := h.ascending.top?_eq_some_iff.1 ht
  constructor
  · exact fun hm => ⟨h.allLayers_release_subset path hm, not_discarded_of_mem_release hall h ht hm⟩
  · rintro ⟨hm, hkept⟩
    rcases h.ascending.mem_allLayers_cases path hmem hm with rfl | ⟨l, hl, hapart, hne, hml⟩ | hcovered
    · exact absurd (.inl rfl) hkept
    · exact mem_allLayers.2 ⟨l, (h.ascending.mem_release_iff ht).2 (.inl ⟨hl, hapart, hne⟩), hml⟩
    · have hlt : m.stamp < t.stamp := by
        rcases hcovered with hhidden | hunder
        · exact (h.nested_all (mem_allLayers_of_mem hmem) hhidden).1
        · exact stamp_lt_of_not_discarded h hmem hm (h.isBelow_of_mem_under hunder) hkept
      have hback : returning path t ls ⊆ release ls path :=
        fun a ha => (h.ascending.mem_release_iff ht).2 (.inr ha)
      exact allLayers_subset hback (mem_allLayers_returning_of_lt hcovered hlt)

/-- What a removal takes along was in sight, or hidden in something that was in sight below the path. -/
theorem mem_under_of_discarded {m : Layer} (hm : m ∈ allLayers ls) (hdiscarded : Discarded path t m) :
    m = t ∨ m ∈ allLayers (under path ls) :=
  hdiscarded.imp_right fun ⟨hbelow, hlt⟩ => mem_under_of_lt hall h ht hm hbelow hlt

/-- In sight after a removal is what was in sight before, or what one of the layers removed was hiding. -/
theorem mem_release_iff_hider {m : Layer} :
    m ∈ release ls path ↔ ¬ Discarded path t m ∧
      (m ∈ ls ∨ ∃ l ∈ allLayers ls, Discarded path t l ∧ m ∈ l.hidden) := by
  obtain ⟨hmem, htpath, -⟩ := h.ascending.top?_eq_some_iff.1 ht
  have hsub : allLayers (under path ls) ⊆ allLayers ls := allLayers_subset (under_subset path ls)
  rw [h.ascending.mem_release_iff ht, mem_returning]
  constructor
  · intro hm
    refine ⟨not_discarded_of_mem_release hall h ht (mem_allLayers_of_mem
      ((h.ascending.mem_release_iff ht).2 (by rwa [mem_returning]))), ?_⟩
    rcases hm with ⟨hm, -⟩ | hm | hm
    · exact .inl hm
    · exact .inr ⟨t, mem_allLayers_of_mem hmem, .inl rfl, hm⟩
    · rcases hider_of_mem_keepOlder hm with hm | ⟨r, hr, hle, hm⟩
      · exact .inl (under_subset path ls hm)
      · have hbelow := h.isBelow_of_mem_under hr
        have hne : t.stamp ≠ r.stamp := fun heq => by
          obtain rfl := h.eq_of_stamp_eq (mem_allLayers_of_mem hmem) (hsub hr) heq
          exact not_isBelow_self _ (htpath ▸ hbelow)
        exact .inr ⟨r, hsub hr, .inr ⟨hbelow, by omega⟩, hm⟩
  · rintro ⟨hkept, hm | ⟨l, hl, rfl | ⟨hbelow, hlt⟩, hm⟩⟩
    · by_cases hbelow : isBelow path m.path
      · have hlt := stamp_lt_of_not_discarded h hmem (mem_allLayers_of_mem hm) hbelow hkept
        exact .inr (.inr (mem_keepOlder_of_lt (mem_under.2 ⟨hm, hbelow⟩) hlt))
      · refine .inl ⟨hm, hbelow, fun heq => hkept (.inl ?_)⟩
        exact h.ascending.eq_of_stamp_eq hm hmem heq
    · exact .inr (.inl hm)
    · have hunder := mem_under_of_lt hall h ht hl hbelow hlt
      have hmbelow := isBelow_trans hbelow (h.nested l hl m hm).2
      have hold := stamp_lt_of_not_discarded h hmem
        (allLayers_hidden_subset hl (mem_allLayers_of_mem hm)) hmbelow hkept
      refine .inr (.inr (keepOlder_hidden_subset (fun a ha b hb => (h.nested a (hsub ha) b hb).1) hunder
        (Nat.le_of_lt hlt) (mem_keepOlder_of_lt hm hold)))

omit hall

/-- Hiding what is below a path keeps all that is older than the newest layer there. -/
theorem mem_allLayers_hideBelow_of_lt {m : Layer} (hm : m ∈ allLayers ls) (hlt : m.stamp < t.stamp) :
    m ∈ allLayers (hideBelow ls path) := by
  obtain ⟨hmem, -, -⟩ := h.ascending.top?_eq_some_iff.1 ht
  rcases h.ascending.mem_allLayers_cases path hmem hm with rfl | ⟨l, hl, hapart, hne, hml⟩ | hcovered
  · exact absurd hlt (Nat.lt_irrefl _)
  · exact mem_allLayers.2 ⟨l, (h.ascending.mem_hideBelow_iff ht).2 (.inl ⟨hl, hapart, hne⟩), hml⟩
  · refine mem_allLayers.2 ⟨_, (h.ascending.mem_hideBelow_iff ht).2 (.inr rfl), mem_withHidden_of_hidden ?_⟩
    exact (allLayers_perm (perm_byStamp _)).mem_iff.2 (mem_allLayers_returning_of_lt hcovered hlt)

end Removal

/-- The layers that hide under a layer have different stamps. -/
theorem WellFormed.nodup_hidden (h : WellFormed clock ls) {l : Layer} (hl : l ∈ allLayers ls) :
    (l.hidden.map Layer.stamp).Nodup := by
  have hsub : (stamps l.hidden).Sublist (stamps ls) :=
    ((List.sublist_cons_self l _).trans (withHidden_eq l ▸ withHidden_sublist hl)).map Layer.stamp
  exact h.distinct.sublist ((map_stamp_sublist l.hidden).trans hsub)

end Layer

/-! ## Documents -/

namespace Document

/-- The paths with a visible node, which `boundCount` counts. -/
def boundPaths (d : Document) : List Path := (d.layers.map (·.path)).eraseDups

theorem top?_eq_getLast?_stack (d : Document) (path : Path) :
    Layer.top? d.layers path = (d.stack path).getLast? := by
  rw [stack, List.getLast?_eq_head?_reverse, ← List.filter_reverse, List.head?_filter, Layer.top?]

/-- In a reachable document, whoever hides a layer hides all older ones below its path. -/
theorem Reachable.hidesAll {d : Document} (h : Reachable d) : Layer.HidesAll d.layers := by
  induction h with
  | ofValue root => exact Layer.hidesAll_nil
  | bind h path node ih => exact ih.bind h.wellFormed (segments path) node
  | hideBelow h path ih => exact ih.hideBelow h.wellFormed (segments path)
  | release h path ih => exact ih.release h.wellFormed (segments path)

end Document

end SheetFill.Json

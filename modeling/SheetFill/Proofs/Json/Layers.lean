import SheetFill.Json.Document

/-!
# Layers, visible and hidden

A list of visible layers holds further layers that are hidden in them, at any depth. This module says
which layers there are in all, which of them are left when everything from a stamp on is discarded, and
how the visible ones change when a path is covered or its newest layer is removed.

Visible layers stand in the order of distinct stamps. Such layers are determined by their members, so the
changes can be described by membership.

## Main definitions

* `Layer.withHidden`, `Layer.allLayers` — layers together with those hidden in them at any depth.
* `Layer.Ascending` — the order of the visible layers.
* `Layer.under`, `Layer.apart` — the layers below a path, and the others.

## Main results

* `Ascending.eq_of_mem_iff` — ascending layers with the same members are the same.
* `Ascending.top?_eq_some_iff` — the newest layer of a path has the largest stamp.
* `mem_hideBelow_of_top?`, `mem_release_of_top?` — the visible layers after a change.
-/

namespace SheetFill.Json

namespace Layer

/-! ## Paths below paths -/

theorem isBelow_iff {top path : Path} :
    isBelow top path ↔ ∃ segment rest, path = top ++ segment :: rest := by
  simp only [isBelow, Bool.and_eq_true, List.isPrefixOf_iff_prefix, decide_eq_true_eq]
  constructor
  · rintro ⟨⟨rest, rfl⟩, hlen⟩
    cases rest with
    | nil => simp at hlen
    | cons segment rest => exact ⟨segment, rest, rfl⟩
  · rintro ⟨segment, rest, rfl⟩
    exact ⟨List.prefix_append _ _, by simp⟩

theorem isBelow_iff_longer {top path : Path} :
    isBelow top path ↔ top <+: path ∧ top.length < path.length := by
  simp [isBelow]

theorem isBelow_of_prefix_ne {top path : Path} (h : top <+: path) (hne : top ≠ path) : isBelow top path := by
  refine isBelow_iff_longer.2 ⟨h, Nat.lt_of_le_of_ne h.length_le fun hlength => ?_⟩
  exact hne (h.eq_of_length hlength)

theorem not_isBelow_self (path : Path) : ¬ isBelow path path := by
  simp [isBelow]

theorem isBelow_trans {a b c : Path} (hab : isBelow a b) (hbc : isBelow b c) : isBelow a c := by
  obtain ⟨s, rest, rfl⟩ := isBelow_iff.1 hab
  obtain ⟨s', rest', rfl⟩ := isBelow_iff.1 hbc
  exact isBelow_iff.2 ⟨s, rest ++ s' :: rest', by simp⟩

theorem isBelow_of_prefix_of_isBelow {a b c : Path} (hab : a <+: b) (hbc : isBelow b c) : isBelow a c := by
  by_cases heq : a = b
  · rwa [heq]
  · exact isBelow_trans (isBelow_of_prefix_ne hab heq) hbc

/-- Two paths above a third one lie on one line. -/
theorem isBelow_or_of_isBelow {a b c : Path} (ha : isBelow a c) (hb : isBelow b c) :
    a = b ∨ isBelow a b ∨ isBelow b a := by
  obtain ⟨s, rest, rfl⟩ := isBelow_iff.1 ha
  obtain ⟨s', rest', heq⟩ := isBelow_iff.1 hb
  rcases List.append_eq_append_iff.1 heq with ⟨tail, rfl, -⟩ | ⟨tail, rfl, -⟩
  · cases tail with
    | nil => exact .inl (by simp)
    | cons s tail => exact .inr (.inl (isBelow_iff.2 ⟨s, tail, rfl⟩))
  · cases tail with
    | nil => exact .inl (by simp)
    | cons s tail => exact .inr (.inr (isBelow_iff.2 ⟨s, tail, rfl⟩))

/-! ## Layers and what is hidden in them -/

mutual

/-- A layer and the layers hidden in it, at any depth. -/
def withHidden : Layer → List Layer
  | ⟨path, node, stamp, hidden⟩ => ⟨path, node, stamp, hidden⟩ :: allLayers hidden

/-- All layers of a list, visible and hidden. -/
def allLayers : List Layer → List Layer
  | [] => []
  | l :: ls => withHidden l ++ allLayers ls

end

/-- The stamps of all layers of a list. -/
def stamps (ls : List Layer) : List Nat := (allLayers ls).map Layer.stamp

theorem withHidden_eq (l : Layer) : l.withHidden = l :: allLayers l.hidden := by
  cases l
  rw [withHidden]

theorem allLayers_eq_flatMap (ls : List Layer) : allLayers ls = ls.flatMap withHidden := by
  induction ls with
  | nil => rw [allLayers, List.flatMap_nil]
  | cons l ls ih => rw [allLayers, ih, List.flatMap_cons]

@[simp] theorem allLayers_nil : allLayers [] = [] := by rw [allLayers]

@[simp] theorem allLayers_cons (l : Layer) (ls : List Layer) :
    allLayers (l :: ls) = l :: (allLayers l.hidden ++ allLayers ls) := by
  rw [allLayers, withHidden_eq, List.cons_append]

@[simp] theorem allLayers_append (ls ms : List Layer) :
    allLayers (ls ++ ms) = allLayers ls ++ allLayers ms := by
  simp only [allLayers_eq_flatMap, List.flatMap_append]

theorem mem_allLayers {m : Layer} {ls : List Layer} :
    m ∈ allLayers ls ↔ ∃ l ∈ ls, m ∈ l.withHidden := by
  rw [allLayers_eq_flatMap, List.mem_flatMap]

theorem mem_withHidden_self (l : Layer) : l ∈ l.withHidden := by
  rw [withHidden_eq]
  exact List.mem_cons_self

theorem mem_allLayers_of_mem {l : Layer} {ls : List Layer} (h : l ∈ ls) : l ∈ allLayers ls :=
  mem_allLayers.2 ⟨l, h, mem_withHidden_self l⟩

theorem allLayers_subset {ls ms : List Layer} (h : ls ⊆ ms) : allLayers ls ⊆ allLayers ms := by
  intro m hm
  obtain ⟨l, hl, hml⟩ := mem_allLayers.1 hm
  exact mem_allLayers.2 ⟨l, h hl, hml⟩

theorem withHidden_sublist_of_mem {l : Layer} {ls : List Layer} (h : l ∈ ls) :
    l.withHidden.Sublist (allLayers ls) := by
  rw [allLayers_eq_flatMap, List.flatMap]
  exact List.sublist_flatten_of_mem (List.mem_map_of_mem h)

theorem mem_withHidden_of_hidden {l m : Layer} (h : m ∈ allLayers l.hidden) : m ∈ l.withHidden := by
  rw [withHidden_eq]
  exact List.mem_cons_of_mem _ h

mutual

theorem forall_mem_withHidden {P : Layer → Prop} {l : Layer} (hl : P l)
    (hdown : ∀ a ∈ l.withHidden, P a → ∀ h ∈ a.hidden, P h) : ∀ m ∈ l.withHidden, P m := by
  match l with
  | ⟨path, node, stamp, hidden⟩ =>
      intro m hm
      rw [withHidden_eq, List.mem_cons] at hm
      rcases hm with rfl | hm
      · exact hl
      · exact forall_mem_allLayers (hdown _ (mem_withHidden_self _) hl)
          (fun a ha => hdown a (mem_withHidden_of_hidden ha)) m hm

/-- What the visible layers have, and every layer hands down to those it hides, all layers have. -/
theorem forall_mem_allLayers {P : Layer → Prop} {ls : List Layer} (hls : ∀ l ∈ ls, P l)
    (hdown : ∀ a ∈ allLayers ls, P a → ∀ h ∈ a.hidden, P h) : ∀ m ∈ allLayers ls, P m := by
  match ls with
  | [] => simp
  | l :: rest =>
      intro m hm
      obtain ⟨hl, hrest⟩ := List.forall_mem_cons.1 hls
      rw [allLayers] at hm hdown
      rcases List.mem_append.1 hm with hm | hm
      · exact forall_mem_withHidden hl (fun a ha => hdown a (List.mem_append_left _ ha)) m hm
      · exact forall_mem_allLayers hrest (fun a ha => hdown a (List.mem_append_right _ ha)) m hm

end

/-- Every layer stands among all layers together with what is hidden in it. -/
theorem withHidden_sublist {l : Layer} {ls : List Layer} (h : l ∈ allLayers ls) :
    l.withHidden.Sublist (allLayers ls) := by
  refine forall_mem_allLayers (P := fun a => a.withHidden.Sublist (allLayers ls)) (fun a ha => ?_)
    (fun a _ hsub b hb => ?_) l h
  · exact withHidden_sublist_of_mem ha
  · rw [withHidden_eq a] at hsub
    exact (withHidden_sublist_of_mem hb).trans ((List.sublist_cons_self a _).trans hsub)

theorem allLayers_hidden_subset {l : Layer} {ls : List Layer} (h : l ∈ allLayers ls) :
    allLayers l.hidden ⊆ allLayers ls :=
  fun _ hm => (withHidden_sublist h).subset (mem_withHidden_of_hidden hm)

theorem allLayers_perm {ls ms : List Layer} (h : ls.Perm ms) :
    (allLayers ls).Perm (allLayers ms) := by
  simp only [allLayers_eq_flatMap]
  exact h.flatMap_right _

@[simp] theorem stamps_append (ls ms : List Layer) : stamps (ls ++ ms) = stamps ls ++ stamps ms := by
  simp [stamps]

@[simp] theorem stamps_cons (l : Layer) (ls : List Layer) :
    stamps (l :: ls) = l.stamp :: (stamps l.hidden ++ stamps ls) := by
  simp [stamps]

theorem count_stamps_perm {ls ms : List Layer} (h : ls.Perm ms) (n : Nat) :
    (stamps ls).count n = (stamps ms).count n :=
  ((allLayers_perm h).map _).count_eq n

theorem map_stamp_sublist (ls : List Layer) : (ls.map Layer.stamp).Sublist (stamps ls) := by
  induction ls with
  | nil => exact .refl _
  | cons l ls ih =>
      rw [List.map_cons, stamps_cons]
      exact (ih.trans (List.sublist_append_right _ _)).cons_cons _

/-! ## What is left when new layers are discarded -/

theorem older_of_lt {l : Layer} {stamp : Nat} (h : l.stamp < stamp) : older stamp l = [l] := by
  cases l
  rw [older, if_pos h]

theorem older_of_le {l : Layer} {stamp : Nat} (h : stamp ≤ l.stamp) :
    older stamp l = keepOlder stamp l.hidden := by
  cases l
  rw [older, if_neg (Nat.not_lt.2 h)]

mutual

theorem allLayers_older_sublist (stamp : Nat) (l : Layer) :
    (allLayers (older stamp l)).Sublist l.withHidden := by
  match l with
  | ⟨path, node, s, hidden⟩ =>
      by_cases h : s < stamp
      · have hself : allLayers (older stamp ⟨path, node, s, hidden⟩) =
            withHidden ⟨path, node, s, hidden⟩ := by
          rw [older_of_lt h, allLayers, allLayers_nil, List.append_nil]
        exact hself ▸ .refl _
      · rw [older_of_le (Nat.le_of_not_lt h), withHidden_eq]
        exact (allLayers_keepOlder_sublist stamp hidden).trans (List.sublist_cons_self _ _)

/-- Discarding layers adds none. -/
theorem allLayers_keepOlder_sublist (stamp : Nat) (ls : List Layer) :
    (allLayers (keepOlder stamp ls)).Sublist (allLayers ls) := by
  match ls with
  | [] => exact .refl _
  | l :: ls =>
      rw [keepOlder, allLayers_append, allLayers]
      exact (allLayers_older_sublist stamp l).append (allLayers_keepOlder_sublist stamp ls)

end

mutual

theorem stamp_lt_of_mem_older {m l : Layer} {stamp : Nat} (h : m ∈ older stamp l) :
    m.stamp < stamp := by
  match l with
  | ⟨path, node, s, hidden⟩ =>
      by_cases hs : s < stamp
      · rw [older_of_lt hs, List.mem_singleton] at h
        rw [h]
        exact hs
      · rw [older_of_le (Nat.le_of_not_lt hs)] at h
        exact stamp_lt_of_mem_keepOlder h

theorem stamp_lt_of_mem_keepOlder {m : Layer} {stamp : Nat} {ls : List Layer}
    (h : m ∈ keepOlder stamp ls) : m.stamp < stamp := by
  match ls with
  | [] => simp [keepOlder] at h
  | l :: ls =>
      rw [keepOlder, List.mem_append] at h
      rcases h with h | h
      · exact stamp_lt_of_mem_older h
      · exact stamp_lt_of_mem_keepOlder h

end

theorem count_stamps_keepOlder_le (stamp : Nat) (ls : List Layer) (n : Nat) :
    (stamps (keepOlder stamp ls)).count n ≤ (stamps ls).count n :=
  ((allLayers_keepOlder_sublist stamp ls).map _).count_le n

/-- Nothing is discarded of layers that are all older. -/
theorem keepOlder_eq_self {stamp : Nat} {ls : List Layer} (h : ∀ l ∈ ls, l.stamp < stamp) :
    keepOlder stamp ls = ls := by
  induction ls with
  | nil => rw [keepOlder]
  | cons l ls ih =>
      rw [keepOlder, older_of_lt (h l List.mem_cons_self),
        ih fun m hm => h m (List.mem_cons_of_mem _ hm), List.singleton_append]

/-- Nothing is left of layers that are all new, and hide new ones only. -/
theorem keepOlder_eq_nil {stamp : Nat} {ls : List Layer} (h : ∀ m ∈ allLayers ls, stamp ≤ m.stamp) :
    keepOlder stamp ls = [] := by
  apply List.eq_nil_iff_forall_not_mem.2
  intro m hm
  have hle := h m ((allLayers_keepOlder_sublist stamp ls).subset (mem_allLayers_of_mem hm))
  have hlt := stamp_lt_of_mem_keepOlder hm
  omega

/-! ## Visible layers in the order of their stamps -/

/-- The stamps go up. -/
def Ascending (ls : List Layer) : Prop := ls.Pairwise fun a b => a.stamp < b.stamp

/-- Ascending layers are told apart by their stamps. -/
theorem Ascending.eq_of_stamp_eq {ls : List Layer} (h : Ascending ls) {l m : Layer} (hl : l ∈ ls)
    (hm : m ∈ ls) (heq : l.stamp = m.stamp) : l = m := by
  induction ls with
  | nil => simp at hl
  | cons a ls ih =>
      obtain ⟨ha, hls⟩ := List.pairwise_cons.1 h
      rcases List.mem_cons.1 hl with hla | hl'
      · rcases List.mem_cons.1 hm with hma | hm'
        · rw [hla, hma]
        · have hlt := ha m hm'
          rw [← hla] at hlt
          omega
      · rcases List.mem_cons.1 hm with hma | hm'
        · have hlt := ha l hl'
          rw [← hma] at hlt
          omega
        · exact ih hls hl' hm'

/-- Ascending layers with the same members are the same. -/
theorem Ascending.eq_of_mem_iff {ls ms : List Layer} (hls : Ascending ls) (hms : Ascending ms)
    (h : ∀ l, l ∈ ls ↔ l ∈ ms) : ls = ms :=
  Order.eq_of_pairwise_lt hls hms h

/-- Ascending layers are older than a member before it, and newer after it. -/
theorem Ascending.split {ls : List Layer} (h : Ascending ls) {t : Layer} (ht : t ∈ ls) :
    ∃ front back, ls = front ++ t :: back ∧ (∀ l ∈ front, l.stamp < t.stamp) ∧
      ∀ l ∈ back, t.stamp < l.stamp := by
  obtain ⟨front, back, rfl⟩ := List.append_of_mem ht
  obtain ⟨-, hback, hfront⟩ := List.pairwise_append.1 h
  exact ⟨front, back, rfl, fun l hl => hfront l hl t List.mem_cons_self,
    (List.pairwise_cons.1 hback).1⟩

theorem perm_byStamp (ls : List Layer) : (byStamp ls).Perm ls := Order.perm_inOrder _ _

@[simp] theorem mem_byStamp {l : Layer} {ls : List Layer} : l ∈ byStamp ls ↔ l ∈ ls :=
  (perm_byStamp ls).mem_iff

/-- Layers of different stamps can be brought into the order of their stamps. -/
theorem ascending_byStamp {ls : List Layer} (h : (ls.map Layer.stamp).Nodup) :
    Ascending (byStamp ls) :=
  Order.pairwise_lt_inOrder (List.pairwise_map.1 h)

theorem Ascending.nodup_stamps {ls : List Layer} (h : Ascending ls) : (ls.map Layer.stamp).Nodup :=
  List.pairwise_map.2 (h.imp fun hlt => Nat.ne_of_lt hlt)

/-- The order of the stamps settles where layers stand. -/
theorem byStamp_eq_of_perm {ls ms : List Layer} (h : ls.Perm ms) (hms : Ascending ms) : byStamp ls = ms := by
  refine (ascending_byStamp ?_).eq_of_mem_iff hms fun l => by rw [mem_byStamp, h.mem_iff]
  exact (h.map Layer.stamp).nodup_iff.2 hms.nodup_stamps

theorem byStamp_congr {ls ms : List Layer} (h : ls.Perm ms) (hms : (ms.map Layer.stamp).Nodup) :
    byStamp ls = byStamp ms :=
  byStamp_eq_of_perm (h.trans (perm_byStamp ms).symm) (ascending_byStamp hms)

theorem top?_eq_none_iff {ls : List Layer} {path : Path} :
    top? ls path = none ↔ ∀ l ∈ ls, l.path ≠ path := by
  simp [top?]

/-- The newest layer of a path is the one with the largest stamp. -/
theorem Ascending.top?_eq_some_iff {ls : List Layer} (h : Ascending ls) {path : Path} {t : Layer} :
    top? ls path = some t ↔
      t ∈ ls ∧ t.path = path ∧ ∀ l ∈ ls, l.path = path → l.stamp ≤ t.stamp := by
  have hnewest {t : Layer} (ht : top? ls path = some t) :
      t ∈ ls ∧ t.path = path ∧ ∀ l ∈ ls, l.path = path → l.stamp ≤ t.stamp := by
    obtain ⟨hpath, front, back, hsplit, hfront⟩ := List.find?_eq_some_iff_append.1 ht
    have hls : ls = back.reverse ++ t :: front.reverse := by
      rw [← List.reverse_reverse ls, hsplit]
      simp
    rw [Ascending, hls] at h
    obtain ⟨-, -, hback⟩ := List.pairwise_append.1 h
    refine ⟨by simp [hls], by simpa using hpath, fun l hl hlpath => ?_⟩
    rw [hls, List.mem_append, List.mem_cons, List.mem_reverse, List.mem_reverse] at hl
    rcases hl with hl | rfl | hl
    · exact Nat.le_of_lt (hback l (List.mem_reverse.2 hl) t List.mem_cons_self)
    · exact Nat.le_refl _
    · have hne := hfront l hl
      simp [hlpath] at hne
  refine ⟨hnewest, fun ⟨ht, hpath, hmax⟩ => ?_⟩
  cases htop : top? ls path with
  | none => exact absurd hpath (top?_eq_none_iff.1 htop t ht)
  | some t' =>
      obtain ⟨ht', hpath', hmax'⟩ := hnewest htop
      have heq : t'.stamp = t.stamp := Nat.le_antisymm (hmax t' ht' hpath') (hmax' t ht hpath)
      rw [h.eq_of_stamp_eq ht' ht heq]

/-- The newest layer of a path depends on the layers of the path alone. -/
theorem Ascending.top?_congr {ls ms : List Layer} (hls : Ascending ls) (hms : Ascending ms)
    {path : Path} (h : ∀ l : Layer, l.path = path → (l ∈ ls ↔ l ∈ ms)) :
    top? ls path = top? ms path := by
  apply Option.ext
  intro t
  rw [hls.top?_eq_some_iff, hms.top?_eq_some_iff]
  constructor
  · intro h
    rcases h with ⟨ht, hpath, hmax⟩
    exact ⟨(h t hpath).1 ht, hpath, fun l hl hlpath => hmax l ((h l hlpath).2 hl) hlpath⟩
  · intro h
    rcases h with ⟨ht, hpath, hmax⟩
    exact ⟨(h t hpath).2 ht, hpath, fun l hl hlpath => hmax l ((h l hlpath).1 hl) hlpath⟩

/-! ## The visible layers after a change -/

/-- The layers below a path. -/
def under (path : Path) (ls : List Layer) : List Layer := ls.filter fun l => isBelow path l.path

/-- The layers that are not below a path. -/
def apart (path : Path) (ls : List Layer) : List Layer :=
  ls.filter fun l => !isBelow path l.path

/-- Taking the layers below a path away leaves the newest layer of every other path. -/
theorem top?_apart (path other : Path) (ls : List Layer) :
    top? (apart path ls) other = if isBelow path other then none else top? ls other := by
  simp only [top?, apart, ← List.filter_reverse, List.find?_filter]
  by_cases hbelow : isBelow path other
  · rw [if_pos hbelow, List.find?_eq_none]
    rintro l - hl
    obtain ⟨habove, hpath⟩ : isBelow path l.path = false ∧ l.path = other := by simpa using hl
    rw [hpath, hbelow] at habove
    exact Bool.noConfusion habove
  · rw [if_neg hbelow]
    congr 1
    funext l
    by_cases hpath : l.path = other
    · simp [hpath, hbelow]
    · simp [hpath]

/-- The layers of other stamps. -/
def others (t : Layer) (ls : List Layer) : List Layer := ls.filter fun l => l.stamp != t.stamp

/-- A layer that hides more layers. -/
def covering (l : Layer) (hidden : List Layer) : Layer :=
  { l with hidden := byStamp (l.hidden ++ hidden) }

@[simp] theorem mem_under {path : Path} {ls : List Layer} {l : Layer} :
    l ∈ under path ls ↔ l ∈ ls ∧ isBelow path l.path := by
  simp [under]

@[simp] theorem mem_apart {path : Path} {ls : List Layer} {l : Layer} :
    l ∈ apart path ls ↔ l ∈ ls ∧ ¬ isBelow path l.path := by
  simp [apart]

theorem under_subset (path : Path) (ls : List Layer) : under path ls ⊆ ls :=
  fun _ hl => (mem_under.1 hl).1

theorem under_apart_perm (path : Path) (ls : List Layer) :
    (under path ls ++ apart path ls).Perm ls :=
  List.filter_append_perm _ ls

theorem Ascending.apart {ls : List Layer} (h : Ascending ls) (path : Path) :
    Ascending (apart path ls) :=
  List.Pairwise.filter _ h

theorem mem_others {t l : Layer} {ls : List Layer} : l ∈ others t ls ↔ l ∈ ls ∧ l.stamp ≠ t.stamp := by
  simp [others]

theorem hideBelow_of_none {ls : List Layer} {path : Path} (h : top? ls path = none) :
    hideBelow ls path = apart path ls := by
  rw [hideBelow, h]
  rfl

theorem hideBelow_of_top? {ls : List Layer} {path : Path} {t : Layer} (h : top? ls path = some t) :
    hideBelow ls path =
      (apart path ls).map (hideUnder t.stamp (keepOlder t.stamp (under path ls))) := by
  rw [hideBelow, h]
  rfl

theorem release_of_none {ls : List Layer} {path : Path} (h : top? ls path = none) :
    release ls path = ls := by
  rw [release, h]

theorem release_of_top? {ls : List Layer} {path : Path} {t : Layer} (h : top? ls path = some t) :
    release ls path =
      byStamp (apart path (others t ls) ++
        (keepOlder t.stamp (under path (others t ls)) ++ t.hidden)) := by
  rw [release, h]
  rfl

theorem mem_allLayers_covering {l m : Layer} {ms : List Layer} :
    m ∈ allLayers (l.covering ms).hidden ↔ m ∈ allLayers l.hidden ∨ m ∈ allLayers ms := by
  rw [covering, (allLayers_perm (perm_byStamp _)).mem_iff, allLayers_append, List.mem_append]

@[simp] theorem stamp_hideUnder (stamp : Nat) (hidden : List Layer) (l : Layer) :
    (hideUnder stamp hidden l).stamp = l.stamp := by
  rw [hideUnder]
  split <;> rfl

theorem hideUnder_of_ne {stamp : Nat} {l : Layer} (h : l.stamp ≠ stamp) (hidden : List Layer) :
    hideUnder stamp hidden l = l := if_neg h

theorem hideUnder_self (l : Layer) (hidden : List Layer) :
    hideUnder l.stamp hidden l = l.covering hidden := if_pos rfl

/-- Of ascending layers, covering under one of them changes that one only. -/
theorem Ascending.map_hideUnder_perm {ls : List Layer} (h : Ascending ls) {t : Layer} (ht : t ∈ ls)
    (hidden : List Layer) :
    (ls.map (hideUnder t.stamp hidden)).Perm (t.covering hidden :: others t ls) := by
  obtain ⟨front, back, rfl, hfront, hback⟩ := h.split ht
  have hmap {ms : List Layer} (hms : ∀ l ∈ ms, l.stamp ≠ t.stamp) :
      ms.map (hideUnder t.stamp hidden) = ms ∧ others t ms = ms := by
    refine ⟨(List.map_congr_left fun l hl => hideUnder_of_ne (hms l hl) hidden).trans (by simp), ?_⟩
    exact List.filter_eq_self.2 fun l hl => by simpa using hms l hl
  obtain ⟨hfront', hfront''⟩ := hmap fun l hl => Nat.ne_of_lt (hfront l hl)
  obtain ⟨hback', hback''⟩ := hmap fun l hl => Nat.ne_of_gt (hback l hl)
  have hothers : others t (front ++ t :: back) = front ++ back := by
    rw [others, List.filter_append, List.filter_cons_of_neg (by simp), ← others, ← others, hfront'',
      hback'']
  rw [List.map_append, List.map_cons, hfront', hback', hideUnder_self, hothers]
  exact List.perm_middle

/-- Ascending layers are a member and the others. -/
theorem Ascending.perm_cons_others {ls : List Layer} (h : Ascending ls) {t : Layer} (ht : t ∈ ls) :
    ls.Perm (t :: others t ls) := by
  have hperm := List.filter_append_perm (fun l => l.stamp == t.stamp) ls
  have honly : (ls.filter fun l => l.stamp == t.stamp) = [t] := by
    obtain ⟨front, back, rfl, hfront, hback⟩ := h.split ht
    rw [List.filter_append, List.filter_cons_of_pos (by simp),
      List.filter_eq_nil_iff.2 fun l hl => by simpa using Nat.ne_of_lt (hfront l hl),
      List.filter_eq_nil_iff.2 fun l hl => by simpa using Nat.ne_of_gt (hback l hl)]
    rfl
  rw [honly] at hperm
  exact hperm.symm

/--
The newest layer of a path hides what is below it; the other layers that are not below the path stay as
they were.
-/
theorem mem_hideBelow_of_top? {ls : List Layer} (h : Ascending ls) {path : Path} {t : Layer}
    (ht : top? ls path = some t) {l : Layer} :
    l ∈ hideBelow ls path ↔ (l ∈ ls ∧ ¬ isBelow path l.path ∧ l.stamp ≠ t.stamp) ∨
      l = t.covering (keepOlder t.stamp (under path ls)) := by
  obtain ⟨hmem, hpath, -⟩ := h.top?_eq_some_iff.1 ht
  have htop : t ∈ apart path ls := by
    rw [mem_apart, hpath]
    exact ⟨hmem, not_isBelow_self path⟩
  have hperm := (h.apart path).map_hideUnder_perm htop (keepOlder t.stamp (under path ls))
  rw [hideBelow_of_top? ht, hperm.mem_iff, List.mem_cons, mem_others, mem_apart]
  constructor
  · intro hcase
    rcases hcase with heq | ⟨⟨hl, hb⟩, hne⟩
    · exact .inr heq
    · exact .inl ⟨hl, hb, hne⟩
  · intro hcase
    rcases hcase with ⟨hl, hb, hne⟩ | heq
    · exact .inr ⟨⟨hl, hb⟩, hne⟩
    · exact .inl heq

/-- Nothing that is below a path stays in sight when everything below it is hidden. -/
theorem mem_hideBelow_of_none {ls : List Layer} {path : Path} (ht : top? ls path = none) {l : Layer} :
    l ∈ hideBelow ls path ↔ l ∈ ls ∧ ¬ isBelow path l.path := by
  rw [hideBelow_of_none ht, mem_apart]

/--
When the newest layer of a path is removed, what is new below the path goes with it, and the older layers
that were hidden come back.
-/
theorem mem_release_of_top? {ls : List Layer} (h : Ascending ls) {path : Path} {t : Layer}
    (ht : top? ls path = some t) {l : Layer} :
    l ∈ release ls path ↔ (l ∈ ls ∧ ¬ isBelow path l.path ∧ l.stamp ≠ t.stamp) ∨
      l ∈ keepOlder t.stamp (under path ls) ∨ l ∈ t.hidden := by
  obtain ⟨hmem, hpath, -⟩ := h.top?_eq_some_iff.1 ht
  have hunder : under path (others t ls) = under path ls := by
    rw [under, others, List.filter_filter, under]
    apply List.filter_congr
    intro l hl
    by_cases heq : l.stamp = t.stamp
    · rw [h.eq_of_stamp_eq hl hmem heq, hpath]
      simp [not_isBelow_self]
    · simp [heq]
  rw [release_of_top? ht, mem_byStamp, List.mem_append, List.mem_append, mem_apart, mem_others,
    hunder]
  constructor
  · intro hcase
    rcases hcase with ⟨⟨hl, hne⟩, hb⟩ | hl
    · exact .inl ⟨hl, hb, hne⟩
    · exact .inr hl
  · intro hcase
    rcases hcase with ⟨hl, hb, hne⟩ | hl
    · exact .inl ⟨⟨hl, hne⟩, hb⟩
    · exact .inr hl

end Layer

end SheetFill.Json

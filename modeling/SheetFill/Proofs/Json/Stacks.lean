import Mathlib.Data.List.Perm.Basic
import SheetFill.Json.Stacks
import SheetFill.Proofs.Json.Removals

/-!
# Stacks in one list

The layers of a document lie on the stacks of a map, and some are hidden inside of others, on stacks again.
`StackDocument.document` puts the layers of all stacks into one list, by their stamps, and does the same with
those hidden in them. This module says what becomes of that list when the map changes.

The order in which a map enumerates its stacks does not matter for this, nor does the order of the stacks
that a layer hides: equations hold up to a permutation, and the stamps settle the order of a list.

## Main definitions

* `Stack.placed`, `Stack.allPlaced` — the layers of stacks, without and with those that are hidden.
* `Stack.flat`, `StackDocument.document` — the layers of stacks in one list.
* `Stack.Sound` — a stack as it should be, and all that its layers hide.

## Main results

* `Stack.segments_pathText`, `Stack.isBelow_eq` — paths and their texts.
* `Stack.hidden_induction` — what holds of stacks if it holds of all stacks that their layers hide.
* `Stack.placed_insert_perm`, `Stack.placed_erase_perm`, `Stack.placed_restore_perm` — the layers after a
  change of the map.
* `Stack.flat_keepOlder_perm` — discarding layers of stacks is discarding layers of a list.
-/

namespace SheetFill.Json

open Text

/-! ## Paths and their texts -/

namespace Stack

/-- The segments of a path are not empty and have no slashes. -/
def IsPath (path : Path) : Prop := ∀ segment ∈ path, segment ≠ "" ∧ '/' ∉ segment.toList

theorem isPath_segments (location : String) : IsPath (Document.segments location) := by
  intro segment hsegment
  obtain ⟨piece, hpiece, rfl⟩ := List.mem_map.1 hsegment
  obtain ⟨hpiece, hne⟩ := List.mem_filter.1 hpiece
  refine ⟨fun h => ?_, ?_⟩
  · have hnil : piece = [] := by simpa using congrArg String.toList h
    simp [hnil] at hne
  · rw [String.toList_ofList]
    exact not_mem_of_mem_cut hpiece

theorem IsPath.take {path : Path} (h : IsPath path) (n : Nat) : IsPath (path.take n) :=
  fun segment hsegment => h segment (List.mem_of_mem_take hsegment)

theorem cut_toList_pathText {path : Path} (h : IsPath path) (hne : path ≠ []) :
    cut '/' (pathText path).toList = path.map String.toList := by
  rw [pathText, String.toList_ofList]
  refine cut_joinWith (by simpa using hne) fun piece hpiece => ?_
  obtain ⟨segment, hsegment, rfl⟩ := List.mem_map.1 hpiece
  exact (h segment hsegment).2

/-- The segments of a path can be told from its text. -/
theorem segments_pathText {path : Path} (h : IsPath path) : Document.segments (pathText path) = path := by
  by_cases hne : path = []
  · subst hne
    rfl
  · have hall : ∀ piece ∈ path.map String.toList, (!piece.isEmpty) = true := by
      intro piece hpiece
      obtain ⟨segment, hsegment, rfl⟩ := List.mem_map.1 hpiece
      simpa using (h segment hsegment).1
    rw [Document.segments, cut_toList_pathText h hne, List.filter_eq_self.2 hall, List.map_map]
    simp [Function.comp_def]

@[simp] theorem segments_normal (location : String) :
    Document.segments (normal location) = Document.segments location :=
  segments_pathText (isPath_segments location)

@[simp] theorem normal_normal (location : String) : normal (normal location) = normal location := by
  rw [normal, segments_normal, normal]

theorem isEmpty_pathText {path : Path} (h : IsPath path) : (pathText path).isEmpty ↔ path = [] := by
  rw [String.isEmpty_iff]
  constructor
  · intro hempty
    rw [← segments_pathText h, hempty]
    rfl
  · rintro rfl
    rfl

/-- The text of a longer path goes on with a slash. -/
theorem toList_pathText_append {top : Path} (hne : top ≠ []) (segment : String) (rest : Path) :
    (pathText (top ++ segment :: rest)).toList =
      (pathText top).toList ++ ['/'] ++ (pathText (segment :: rest)).toList := by
  obtain ⟨first, others, rfl⟩ := List.exists_cons_of_ne_nil hne
  simp only [pathText, String.toList_ofList, List.cons_append, List.map_cons, List.map_append,
    joinWith_cons_eq_flatMap, List.flatMap_append, List.flatMap_cons, List.append_assoc]

/-- A path is below another one if and only if its text starts with that of the other one and a slash. -/
theorem isBelow_pathText {top path : Path} (htop : IsPath top) (hpath : IsPath path) :
    isBelow (pathText top) (pathText path) ↔ Layer.isBelow top path := by
  by_cases hnil : top = []
  · subst hnil
    have hempty : (pathText []).isEmpty := rfl
    rw [isBelow, if_pos hempty, Bool.not_eq_true', ← Bool.not_eq_true, isEmpty_pathText hpath,
      Layer.isBelow_iff]
    cases path with
    | nil => simp
    | cons segment rest => simp
  · have hcut := cut_toList_pathText htop hnil
    rw [isBelow, if_neg (by rwa [isEmpty_pathText htop]), List.isPrefixOf_iff_prefix, Layer.isBelow_iff]
    constructor
    · rintro ⟨rest, hrest⟩
      have hne : path ≠ [] := by
        rintro rfl
        have hlength := congrArg List.length hrest
        simp [pathText, joinWith] at hlength
      have hparts := cut_toList_pathText hpath hne
      rw [← hrest, List.append_assoc, List.singleton_append, cut_append_cut, hcut] at hparts
      obtain ⟨front, back, rfl, hfront, hback⟩ := List.map_eq_append_iff.1 hparts.symm
      obtain rfl := List.map_injective_iff.2 (fun _ _ => String.toList_inj.1) hfront
      obtain ⟨segment, others, rfl⟩ :=
        List.exists_cons_of_ne_nil (l := back) fun h => cut_ne_nil '/' rest (by rw [← hback, h]; rfl)
      exact ⟨segment, others, rfl⟩
    · rintro ⟨segment, rest, rfl⟩
      exact ⟨_, (toList_pathText_append hnil segment rest).symm⟩

theorem normal_pathText {path : Path} (h : IsPath path) : normal (pathText path) = pathText path := by
  rw [normal, segments_pathText h]

/-- Of locations without superfluous slashes, one is below the other if and only if its path is. -/
theorem isBelow_eq {top path : String} (htop : normal top = top) (hpath : normal path = path) :
    isBelow top path = Layer.isBelow (Document.segments top) (Document.segments path) := by
  have hbelow := isBelow_pathText (isPath_segments top) (isPath_segments path)
  rw [← normal, ← normal, htop, hpath] at hbelow
  exact Bool.eq_iff_iff.2 hbelow

@[simp] theorem isBelow_self (path : String) : isBelow path path = false := by
  by_cases hempty : path.isEmpty = true
  · simp [isBelow, hempty]
  · rw [isBelow, if_neg hempty, ← Bool.not_eq_true, List.isPrefixOf_iff_prefix]
    intro h
    have hlength := h.length_le
    rw [List.length_append, List.length_singleton] at hlength
    omega

end Stack

/-! ## The layers of stacks -/

/-- A layer and the path on whose stack it lies. -/
structure PlacedLayer where
  path : String
  layer : StackLayer

namespace Stack

/-- The layers that lie on stacks. -/
def placed (ss : List Stack) : List PlacedLayer :=
  ss.flatMap fun s => s.layers.map fun l => ⟨s.path, l⟩

mutual

/-- Layers of a path, and those hidden in them at any depth. -/
def allOn (path : String) : List StackLayer → List PlacedLayer
  | [] => []
  | ⟨node, stamp, hidden⟩ :: layers => ⟨path, node, stamp, hidden⟩ :: allPlaced hidden ++ allOn path layers

/-- The layers that lie on stacks, and those hidden in them at any depth. -/
def allPlaced : List Stack → List PlacedLayer
  | [] => []
  | ⟨path, layers⟩ :: ss => allOn path layers ++ allPlaced ss

end

mutual

/-- Layers of a path, with what they hide in one list. -/
def flatOn (path : Path) : List StackLayer → List Layer
  | [] => []
  | ⟨node, stamp, hidden⟩ :: layers => ⟨path, node, stamp, Layer.byStamp (flat hidden)⟩ :: flatOn path layers

/-- The layers of all stacks in one list. -/
def flat : List Stack → List Layer
  | [] => []
  | ⟨path, layers⟩ :: ss => flatOn (Document.segments path) layers ++ flat ss

end

end Stack

/-- A layer with its path, and with what it hides in one list by their stamps. -/
def PlacedLayer.flat (x : PlacedLayer) : Layer :=
  ⟨Document.segments x.path, x.layer.node, x.layer.stamp, Layer.byStamp (Stack.flat x.layer.hidden)⟩

namespace Stack

variable {ss ts : List Stack} {stamp : Nat}

/-- What holds of stacks if it holds of all stacks that their layers hide, holds of all stacks. -/
theorem hidden_induction {P : List Stack → Prop}
    (step : ∀ ss : List Stack, (∀ s ∈ ss, ∀ l ∈ s.layers, P l.hidden) → P ss) (ss : List Stack) : P ss :=
  step ss fun s _hs l _hl => hidden_induction step l.hidden
termination_by sizeOf ss
decreasing_by
  have hs := List.sizeOf_lt_of_mem _hs
  have hl := List.sizeOf_lt_of_mem _hl
  cases s
  cases l
  simp only [Stack.mk.sizeOf_spec, StackLayer.mk.sizeOf_spec] at *
  omega

theorem placed_cons (s : Stack) (ss : List Stack) :
    placed (s :: ss) = (s.layers.map fun l => ⟨s.path, l⟩) ++ placed ss := List.flatMap_cons

@[simp] theorem placed_append (ss ts : List Stack) : placed (ss ++ ts) = placed ss ++ placed ts :=
  List.flatMap_append

theorem mem_placed {x : PlacedLayer} :
    x ∈ placed ss ↔ ∃ s ∈ ss, s.path = x.path ∧ x.layer ∈ s.layers := by
  obtain ⟨path, l⟩ := x
  simp only [placed, List.mem_flatMap, List.mem_map, PlacedLayer.mk.injEq]
  constructor
  · rintro ⟨s, hs, l, hl, rfl, rfl⟩
    exact ⟨s, hs, rfl, hl⟩
  · rintro ⟨s, hs, rfl, hl⟩
    exact ⟨s, hs, l, hl, rfl, rfl⟩

theorem placed_subset (h : ss ⊆ ts) : placed ss ⊆ placed ts := by
  intro x hx
  obtain ⟨s, hs, hpath, hl⟩ := mem_placed.1 hx
  exact mem_placed.2 ⟨s, h hs, hpath, hl⟩

theorem placed_perm (h : ss.Perm ts) : (placed ss).Perm (placed ts) := h.flatMap_right _

theorem flatOn_eq_map (path : String) (layers : List StackLayer) :
    flatOn (Document.segments path) layers = layers.map fun l => PlacedLayer.flat ⟨path, l⟩ := by
  induction layers with
  | nil => rw [flatOn, List.map_nil]
  | cons l layers ih =>
      obtain ⟨node, stamp, hidden⟩ := l
      rw [flatOn, ih, List.map_cons]
      rfl

theorem flat_eq_map (ss : List Stack) : flat ss = (placed ss).map PlacedLayer.flat := by
  induction ss with
  | nil => rw [flat]; rfl
  | cons s ss ih =>
      obtain ⟨path, layers⟩ := s
      rw [flat, ih, flatOn_eq_map, placed_cons, List.map_append, List.map_map]
      rfl

@[simp] theorem flat_append (ss ts : List Stack) : flat (ss ++ ts) = flat ss ++ flat ts := by
  simp only [flat_eq_map, placed_append, List.map_append]

theorem flat_cons (s : Stack) (ss : List Stack) :
    flat (s :: ss) = (s.layers.map fun l => PlacedLayer.flat ⟨s.path, l⟩) ++ flat ss := by
  rw [flat_eq_map, placed_cons, List.map_append, List.map_map, flat_eq_map]
  rfl

/-- The layers of the stacks that are chosen by their paths. -/
theorem flat_filter {p : String → Bool} {q : Path → Bool}
    (h : ∀ s ∈ ss, p s.path = q (Document.segments s.path)) :
    flat (ss.filter fun s => p s.path) = (flat ss).filter fun l => q l.path := by
  induction ss with
  | nil => simp [flat]
  | cons s ss ih =>
      obtain ⟨hs, hss⟩ := List.forall_mem_cons.1 h
      rw [flat_cons, List.filter_append, ← ih hss, List.filter_cons]
      by_cases hp : p s.path = true
      · rw [if_pos hp, flat_cons]
        congr 1
        refine (List.filter_eq_self.2 fun l hl => ?_).symm
        obtain ⟨_, -, rfl⟩ := List.mem_map.1 hl
        exact hs ▸ hp
      · have hnone : ((s.layers.map fun l => PlacedLayer.flat ⟨s.path, l⟩).filter fun l => q l.path) = [] := by
          refine List.filter_eq_nil_iff.2 fun l hl => ?_
          obtain ⟨_, -, rfl⟩ := List.mem_map.1 hl
          exact hs ▸ hp
        rw [if_neg hp, hnone, List.nil_append]

theorem flat_perm (h : (placed ss).Perm (placed ts)) : (flat ss).Perm (flat ts) := by
  rw [flat_eq_map, flat_eq_map]
  exact h.map _

theorem allOn_eq_flatMap (path : String) (layers : List StackLayer) :
    allOn path layers = layers.flatMap fun l => ⟨path, l⟩ :: allPlaced l.hidden := by
  induction layers with
  | nil => rw [allOn, List.flatMap_nil]
  | cons l layers ih =>
      obtain ⟨node, stamp, hidden⟩ := l
      rw [allOn, ih, List.flatMap_cons]

theorem allPlaced_eq_flatMap (ss : List Stack) :
    allPlaced ss = (placed ss).flatMap fun x => x :: allPlaced x.layer.hidden := by
  induction ss with
  | nil => rw [allPlaced]; rfl
  | cons s ss ih =>
      obtain ⟨path, layers⟩ := s
      rw [allPlaced, ih, allOn_eq_flatMap, placed_cons, List.flatMap_append, List.flatMap_map]

theorem mem_allPlaced {x : PlacedLayer} :
    x ∈ allPlaced ss ↔ ∃ y ∈ placed ss, x = y ∨ x ∈ allPlaced y.layer.hidden := by
  rw [allPlaced_eq_flatMap, List.mem_flatMap]
  simp only [List.mem_cons]

theorem placed_subset_allPlaced : placed ss ⊆ allPlaced ss := fun x hx => mem_allPlaced.2 ⟨x, hx, .inl rfl⟩

/-- What a layer hides is hidden at some depth where the layer is. -/
theorem allPlaced_hidden_subset {x : PlacedLayer} (hx : x ∈ allPlaced ss) :
    allPlaced x.layer.hidden ⊆ allPlaced ss := by
  induction ss using hidden_induction with
  | step ss ih =>
      obtain ⟨y, hy, rfl | hxy⟩ := mem_allPlaced.1 hx
      · exact fun m hm => mem_allPlaced.2 ⟨x, hy, .inr hm⟩
      · obtain ⟨s, hs, -, hl⟩ := mem_placed.1 hy
        exact fun m hm => mem_allPlaced.2 ⟨y, hy, .inr (ih s hs y.layer hl hxy hm)⟩

@[simp] theorem allPlaced_append (ss ts : List Stack) :
    allPlaced (ss ++ ts) = allPlaced ss ++ allPlaced ts := by
  rw [allPlaced_eq_flatMap, placed_append, List.flatMap_append, ← allPlaced_eq_flatMap,
    ← allPlaced_eq_flatMap]

/-- Layers that lie or are hidden somewhere take what they hide there with them. -/
theorem allPlaced_subset_of_placed (h : placed ss ⊆ allPlaced ts) : allPlaced ss ⊆ allPlaced ts := by
  intro x hx
  obtain ⟨y, hy, rfl | hxy⟩ := mem_allPlaced.1 hx
  · exact h hy
  · exact allPlaced_hidden_subset (h hy) hxy

/-- The layers of all stacks are the layers of the list. -/
theorem map_flat_allPlaced_perm (ss : List Stack) :
    ((allPlaced ss).map PlacedLayer.flat).Perm (Layer.allLayers (flat ss)) := by
  induction ss using hidden_induction with
  | step ss ih =>
      rw [allPlaced_eq_flatMap, List.map_flatMap, flat_eq_map, Layer.allLayers_eq_flatMap, List.flatMap_map]
      refine List.Perm.flatMap_left _ fun x hx => ?_
      obtain ⟨s, hs, -, hl⟩ := mem_placed.1 hx
      rw [List.map_cons, Layer.withHidden_eq]
      exact ((ih s hs x.layer hl).trans (Layer.allLayers_perm (Layer.perm_byStamp _)).symm).cons _

/-! ## What is left when new layers are discarded -/

/-- What is left of a layer: itself if it is older than `stamp`, else the older ones it was hiding. -/
def older (stamp : Nat) (x : PlacedLayer) : List PlacedLayer :=
  if x.layer.stamp < stamp then [x] else placed (keepOlder stamp x.layer.hidden)

theorem placed_uncovered_perm (path : String) (layers : List StackLayer) :
    (placed (uncovered stamp layers) ++
        (layers.filter fun l => l.stamp < stamp).map fun l => PlacedLayer.mk path l).Perm
      (layers.flatMap fun l => older stamp ⟨path, l⟩) := by
  induction layers with
  | nil => rw [uncovered]; exact .refl _
  | cons l layers ih =>
      obtain ⟨node, s, hidden⟩ := l
      by_cases h : s < stamp
      · rw [uncovered, if_pos h, List.nil_append, List.filter_cons_of_pos (by simpa using h), List.map_cons,
          List.flatMap_cons, older, if_pos h]
        exact List.perm_middle.trans (ih.cons _)
      · rw [uncovered, if_neg h, placed_append, List.filter_cons_of_neg (by simpa using h),
          List.flatMap_cons, older, if_neg h, List.append_assoc]
        exact ih.append_left _

theorem placed_keepOlder_perm (stamp : Nat) (ss : List Stack) :
    (placed (keepOlder stamp ss)).Perm ((placed ss).flatMap (older stamp)) := by
  induction ss with
  | nil => rw [keepOlder]; exact .refl _
  | cons s ss ih =>
      obtain ⟨path, layers⟩ := s
      have hkept (kept : List StackLayer) :
          placed (if kept.isEmpty then [] else [⟨path, kept⟩]) = kept.map fun l => ⟨path, l⟩ := by
        cases kept with
        | nil => rfl
        | cons l kept => simp [placed]
      rw [keepOlder, placed_append, placed_append, hkept, placed_cons, List.flatMap_append, List.flatMap_map]
      exact (placed_uncovered_perm path layers).append ih

/-- Discarding layers of stacks is discarding layers of a list. -/
theorem flat_keepOlder_perm (stamp : Nat) (ss : List Stack) :
    (flat (keepOlder stamp ss)).Perm (Layer.keepOlder stamp (flat ss)) := by
  induction ss using hidden_induction with
  | step ss ih =>
      rw [flat_eq_map]
      refine ((placed_keepOlder_perm stamp ss).map _).trans ?_
      rw [List.map_flatMap, flat_eq_map, Layer.keepOlder_eq_flatMap, List.flatMap_map]
      refine List.Perm.flatMap_left _ fun x hx => ?_
      obtain ⟨s, hs, -, hl⟩ := mem_placed.1 hx
      by_cases h : x.layer.stamp < stamp
      · rw [older, if_pos h, Layer.older_of_lt (show x.flat.stamp < stamp from h)]
        exact .refl _
      · rw [older, if_neg h, Layer.older_of_le (show stamp ≤ x.flat.stamp from Nat.le_of_not_lt h),
          ← flat_eq_map]
        exact (ih s hs x.layer hl).trans (Layer.keepOlder_perm (Layer.perm_byStamp _).symm)

/-- Discarding layers adds none. -/
theorem allPlaced_keepOlder_subset (stamp : Nat) (ss : List Stack) :
    allPlaced (keepOlder stamp ss) ⊆ allPlaced ss := by
  induction ss using hidden_induction with
  | step ss ih =>
      intro m hm
      obtain ⟨x, hx, hmx⟩ := mem_allPlaced.1 hm
      obtain ⟨y, hy, hxy⟩ := List.mem_flatMap.1 ((placed_keepOlder_perm stamp ss).mem_iff.1 hx)
      obtain ⟨s, hs, -, hl⟩ := mem_placed.1 hy
      rw [older] at hxy
      split at hxy
      · obtain rfl := List.mem_singleton.1 hxy
        exact mem_allPlaced.2 ⟨x, hy, hmx⟩
      · exact mem_allPlaced.2 ⟨y, hy, .inr (ih s hs y.layer hl (mem_allPlaced.2 ⟨x, hxy, hmx⟩))⟩

/-! ## Sound stacks -/

/--
A stack as it should be: its path has no superfluous slashes, there is a layer on it, and the stamps of its
layers ascend. All stacks that its layers hide are so too.
-/
inductive Sound : Stack → Prop where
  | intro {path : String} {layers : List StackLayer} (normal : normal path = path) (nonempty : layers ≠ [])
      (ascending : layers.Pairwise fun a b => a.stamp < b.stamp)
      (hidden : ∀ l ∈ layers, ∀ s ∈ l.hidden, Sound s) : Sound ⟨path, layers⟩

namespace Sound

variable {s : Stack}

theorem normal_path (h : Sound s) : normal s.path = s.path := by
  cases h with
  | intro hnormal => exact hnormal

theorem layers_ne_nil (h : Sound s) : s.layers ≠ [] := by
  cases h with
  | intro _ hne => exact hne

theorem ascending_layers (h : Sound s) : s.layers.Pairwise fun a b => a.stamp < b.stamp := by
  cases h with
  | intro _ _ hascending => exact hascending

theorem sound_hidden (h : Sound s) {l : StackLayer} (hl : l ∈ s.layers) : ∀ t ∈ l.hidden, Sound t := by
  cases h with
  | intro _ _ _ hhidden => exact hhidden l hl

end Sound

theorem mem_uncovered {layers : List StackLayer} {s : Stack} :
    s ∈ uncovered stamp layers ↔ ∃ l ∈ layers, stamp ≤ l.stamp ∧ s ∈ keepOlder stamp l.hidden := by
  induction layers with
  | nil => simp [uncovered]
  | cons l layers ih =>
      obtain ⟨node, s', hidden⟩ := l
      rw [uncovered, List.mem_append, ih, List.exists_mem_cons_iff]
      by_cases h : s' < stamp
      · simp [h, Nat.not_le.2 h]
      · simp [h, Nat.le_of_not_lt h]

/-- What is left of stacks: the older layers of one of them, or of one that a discarded layer was hiding. -/
theorem of_mem_keepOlder {s : Stack} (h : s ∈ keepOlder stamp ss) :
    ∃ t ∈ ss, (∃ l ∈ t.layers, stamp ≤ l.stamp ∧ s ∈ keepOlder stamp l.hidden) ∨
      s = ⟨t.path, t.layers.filter fun l => l.stamp < stamp⟩ ∧ s.layers ≠ [] := by
  induction ss with
  | nil => simp [keepOlder] at h
  | cons t ss ih =>
      obtain ⟨path, layers⟩ := t
      rw [keepOlder, List.mem_append, List.mem_append, mem_uncovered] at h
      rw [List.exists_mem_cons_iff]
      rcases h with (h | h) | h
      · exact .inl (.inl h)
      · split at h
        · cases h
        · next hne =>
            obtain rfl := List.mem_singleton.1 h
            exact .inl (.inr ⟨rfl, fun hnil => hne (List.isEmpty_iff.2 hnil)⟩)
      · exact .inr (ih h)

/-- Of sound stacks, sound ones are left: no empty stack is kept. -/
theorem sound_keepOlder (h : ∀ s ∈ ss, Sound s) : ∀ s ∈ keepOlder stamp ss, Sound s := by
  induction ss using hidden_induction with
  | step ss ih =>
      intro s hs
      obtain ⟨t, ht, ⟨l, hl, -, hs⟩ | ⟨rfl, hne⟩⟩ := of_mem_keepOlder hs
      · exact ih t ht l hl ((h t ht).sound_hidden hl) s hs
      · exact .intro (h t ht).normal_path hne ((h t ht).ascending_layers.filter _)
          fun l hl => (h t ht).sound_hidden (List.mem_of_mem_filter hl)

/-- Stacks that are hidden at some depth of sound stacks are sound. -/
theorem sound_hidden_of_mem_allPlaced (h : ∀ s ∈ ss, Sound s) {x : PlacedLayer} (hx : x ∈ allPlaced ss) :
    ∀ s ∈ x.layer.hidden, Sound s := by
  induction ss using hidden_induction with
  | step ss ih =>
      obtain ⟨y, hy, hxy⟩ := mem_allPlaced.1 hx
      obtain ⟨s, hs, -, hl⟩ := mem_placed.1 hy
      have hhidden := (h s hs).sound_hidden hl
      rcases hxy with rfl | hxy
      · exact hhidden
      · exact ih s hs y.layer hl hhidden hxy

/-! ## The stacks of a map -/

section Map

open StackDocument (stacksOf layersAt dropTop merge restore)

variable {m : Std.TreeMap String (List StackLayer)} {path : String}

theorem mem_stacksOf {s : Stack} : s ∈ stacksOf m ↔ m[s.path]? = some s.layers := by
  obtain ⟨path, layers⟩ := s
  rw [← Std.TreeMap.mem_toList_iff_getElem?_eq_some, stacksOf, List.mem_map]
  constructor
  · rintro ⟨entry, hentry, heq⟩
    obtain ⟨rfl, rfl⟩ := Stack.mk.injEq .. ▸ heq
    exact hentry
  · exact fun h => ⟨(path, layers), h, rfl⟩

theorem nodup_paths_stacksOf (m : Std.TreeMap String (List StackLayer)) :
    ((stacksOf m).map Stack.path).Nodup := by
  rw [stacksOf, List.map_map]
  exact m.map_fst_toList_eq_keys ▸ m.nodup_keys

theorem nodup_stacksOf (m : Std.TreeMap String (List StackLayer)) : (stacksOf m).Nodup :=
  (nodup_paths_stacksOf m).of_map _

/-- The stacks of a map, in any order. -/
theorem stacksOf_perm (hnodup : ss.Nodup) (h : ∀ s, s ∈ ss ↔ m[s.path]? = some s.layers) :
    (stacksOf m).Perm ss :=
  (List.perm_ext_iff_of_nodup (nodup_stacksOf m) hnodup).2 fun s => by rw [mem_stacksOf, h]

/-- The stacks of a map but that of one path. -/
def others (path : String) (m : Std.TreeMap String (List StackLayer)) : List Stack :=
  (stacksOf m).filter fun s => s.path ≠ path

theorem mem_others {s : Stack} : s ∈ others path m ↔ m[s.path]? = some s.layers ∧ s.path ≠ path := by
  rw [others, List.mem_filter, mem_stacksOf, decide_eq_true_eq]

theorem nodup_others (path : String) (m : Std.TreeMap String (List StackLayer)) : (others path m).Nodup :=
  (nodup_stacksOf m).filter _

/-- A map has a stack for one path, and its stacks of other paths. -/
theorem stacksOf_perm_cons {m' : Std.TreeMap String (List StackLayer)} {layers : List StackLayer}
    (hpath : m'[path]? = some layers) (hothers : ∀ other, other ≠ path → m'[other]? = m[other]?) :
    (stacksOf m').Perm (⟨path, layers⟩ :: others path m) := by
  refine stacksOf_perm ?_ fun s => ?_
  · exact List.nodup_cons.2 ⟨fun hmem => (mem_others.1 hmem).2 rfl, nodup_others path m⟩
  · rw [List.mem_cons, mem_others]
    by_cases heq : s.path = path
    · obtain ⟨_, layers'⟩ := s
      obtain rfl : _ = path := heq
      simp [hpath, eq_comm]
    · have hne : s ≠ ⟨path, layers⟩ := fun h => heq (by rw [h])
      simp [heq, hne, hothers s.path heq]

/-- A map without a stack for one path has its stacks of other paths. -/
theorem stacksOf_perm_others {m' : Std.TreeMap String (List StackLayer)} (hpath : m'[path]? = none)
    (hothers : ∀ other, other ≠ path → m'[other]? = m[other]?) :
    (stacksOf m').Perm (others path m) := by
  refine stacksOf_perm (nodup_others path m) fun s => ?_
  rw [mem_others]
  by_cases heq : s.path = path
  · simp [heq, hpath]
  · simp [heq, hothers s.path heq]

/-- The layers of a map are those of one path and those of the others. -/
theorem placed_split_perm (m : Std.TreeMap String (List StackLayer)) (path : String) :
    (placed (stacksOf m)).Perm
      (((layersAt m path).map fun l => PlacedLayer.mk path l) ++ placed (others path m)) := by
  rw [layersAt, Std.TreeMap.getD_eq_getD_getElem?]
  cases h : m[path]? with
  | none => exact placed_perm (stacksOf_perm_others h fun _ _ => rfl)
  | some layers => exact placed_perm (stacksOf_perm_cons h fun _ _ => rfl)

theorem stacksOf_insert_perm (m : Std.TreeMap String (List StackLayer)) (path : String)
    (layers : List StackLayer) :
    (stacksOf (m.insert path layers)).Perm (⟨path, layers⟩ :: others path m) :=
  stacksOf_perm_cons Std.TreeMap.getElem?_insert_self fun other hother => by
    simp [Std.TreeMap.getElem?_insert, hother.symm]

theorem stacksOf_erase_perm (m : Std.TreeMap String (List StackLayer)) (path : String) :
    (stacksOf (m.erase path)).Perm (others path m) :=
  stacksOf_perm_others Std.TreeMap.getElem?_erase_self fun other hother => by
    simp [Std.TreeMap.getElem?_erase, hother.symm]

theorem placed_insert_perm (m : Std.TreeMap String (List StackLayer)) (path : String)
    (layers : List StackLayer) :
    (placed (stacksOf (m.insert path layers))).Perm
      ((layers.map fun l => PlacedLayer.mk path l) ++ placed (others path m)) :=
  placed_perm (stacksOf_insert_perm m path layers)

/-- With a layer on top of others in the stack of a path, there is that layer, and there are the others. -/
theorem placed_push_perm (m : Std.TreeMap String (List StackLayer)) (path : String)
    (front : List StackLayer) (top : StackLayer) :
    (placed (stacksOf (m.insert path (front ++ [top])))).Perm
      (⟨path, top⟩ :: ((front.map fun l => PlacedLayer.mk path l) ++ placed (others path m))) := by
  have hperm := placed_insert_perm m path (front ++ [top])
  rw [List.map_append, List.append_assoc] at hperm
  exact hperm.trans List.perm_middle

theorem others_subset (path : String) (m : Std.TreeMap String (List StackLayer)) :
    others path m ⊆ stacksOf m := List.filter_subset_self _

/-- A layer lies on a stack of a map if and only if it is among the layers of its path. -/
theorem mem_placed_stacksOf {x : PlacedLayer} : x ∈ placed (stacksOf m) ↔ x.layer ∈ layersAt m x.path := by
  rw [mem_placed, layersAt, Std.TreeMap.getD_eq_getD_getElem?]
  constructor
  · rintro ⟨s, hs, hpath, hx⟩
    rw [← hpath, mem_stacksOf.1 hs]
    exact hx
  · intro hx
    cases h : m[x.path]? with
    | none => simp [h] at hx
    | some layers => exact ⟨⟨x.path, layers⟩, mem_stacksOf.2 h, rfl, by simpa [h] using hx⟩

theorem stacksOf_filter (m : Std.TreeMap String (List StackLayer)) (p : String → Bool) :
    stacksOf (m.filter fun path _ => p path) = (stacksOf m).filter fun s => p s.path := by
  rw [stacksOf, Std.TreeMap.toList_filter, stacksOf, List.filter_map]
  rfl

/-- The newest layer of a path, and the layers that are left when it is gone. -/
theorem placed_top_perm {top : StackLayer} (htop : (layersAt m path).getLast? = some top) :
    (placed (stacksOf m)).Perm
      (⟨path, top⟩ :: (((layersAt m path).dropLast.map fun l => PlacedLayer.mk path l) ++
        placed (others path m))) := by
  have hsplit := placed_split_perm m path
  rw [← List.dropLast_append_getLast? top htop, List.map_append, List.append_assoc] at hsplit
  exact hsplit.trans List.perm_middle

theorem placed_dropTop_perm (m : Std.TreeMap String (List StackLayer)) (path : String) :
    (placed (stacksOf (dropTop m path))).Perm
      (((layersAt m path).dropLast.map fun l => PlacedLayer.mk path l) ++ placed (others path m)) := by
  rw [dropTop]
  split
  · next h =>
      rw [List.isEmpty_iff.1 h]
      exact placed_perm (stacksOf_erase_perm m path)
  · exact placed_insert_perm m path _

theorem placed_dropTop_subset (m : Std.TreeMap String (List StackLayer)) (path : String) :
    placed (stacksOf (dropTop m path)) ⊆ placed (stacksOf m) := by
  intro x hx
  rw [(placed_dropTop_perm m path).mem_iff, List.mem_append] at hx
  rw [(placed_split_perm m path).mem_iff, List.mem_append]
  refine hx.imp_left fun hx => ?_
  obtain ⟨l, hl, rfl⟩ := List.mem_map.1 hx
  exact List.mem_map_of_mem (List.dropLast_subset _ hl)

/-- Layers that are put back join those that are there. -/
theorem placed_merge_perm (m : Std.TreeMap String (List StackLayer)) (s : Stack) :
    (placed (stacksOf (merge m s))).Perm
      (placed (stacksOf m) ++ s.layers.map fun l => PlacedLayer.mk s.path l) := by
  refine (placed_insert_perm _ _ _).trans ?_
  refine (((Order.perm_inOrder _ _).map _).append_right _).trans ?_
  rw [List.map_append, List.append_assoc]
  refine (List.Perm.append_left _ List.perm_append_comm).trans ?_
  rw [← List.append_assoc]
  exact (placed_split_perm m s.path).symm.append_right _

theorem placed_restore_perm (m : Std.TreeMap String (List StackLayer)) (back : List Stack) :
    (placed (stacksOf (restore m back))).Perm (placed (stacksOf m) ++ placed back) := by
  induction back generalizing m with
  | nil => exact List.append_nil _ ▸ .refl _
  | cons s back ih =>
      rw [placed_cons, ← List.append_assoc]
      exact (ih (merge m s)).trans ((placed_merge_perm m s).append_right _)

end Map

end Stack

end SheetFill.Json

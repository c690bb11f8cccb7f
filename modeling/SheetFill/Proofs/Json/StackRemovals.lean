import SheetFill.Proofs.Json.StackRefinement

/-!
# What is removed from stacks

Whatever is bound, hidden and released, the stacks of a document lose nothing that is older than the layer
with which it goes. What the list of all layers keeps, the stacks keep: a release moves layers about without
touching them, hiding changes the newest layer of one path only, and a layer can be told by its stamp. So a
layer of the list stands for one layer of the stacks, with all that it hides and in the same order.

## Main definitions

* `StackDocument.placed`, `StackDocument.allPlaced` — the layers in sight, and all layers.
* `PlacedLayer.Discarded` — the layers that go with the newest one of a path.

## Main results

* `StackDocument.Reachable.eq_of_stamp_eq` — a layer can be told by its stamp.
* `StackDocument.Reachable.keeps_older` — the layers of a document, whatever was bound, hidden and released.
-/

namespace SheetFill.Json

/-- The newest layer of a path, and what is newer than it below the path. -/
def PlacedLayer.Discarded (path : String) (top : StackLayer) (x : PlacedLayer) : Prop :=
  x = ⟨path, top⟩ ∨
    Layer.isBelow (Document.segments path) (Document.segments x.path) ∧ top.stamp < x.layer.stamp

namespace StackDocument

open Stack (flat normal)

variable {d : StackDocument}

/-- The layers in sight. -/
def placed (d : StackDocument) : List PlacedLayer := Stack.placed (stacksOf d.table)

/-- The layers in sight, and those hidden in them at any depth. -/
def allPlaced (d : StackDocument) : List PlacedLayer := Stack.allPlaced (stacksOf d.table)

/-! ## Layers of the stacks and of the list -/

theorem mem_allLayers_document {l : Layer} :
    l ∈ Layer.allLayers d.document.layers ↔ ∃ x ∈ d.allPlaced, x.flat = l := by
  rw [← List.mem_map, allPlaced, (Stack.map_flat_allPlaced_perm _).mem_iff]
  exact (Layer.allLayers_perm (Layer.perm_byStamp _)).mem_iff

theorem flat_mem_allLayers {x : PlacedLayer} (hx : x ∈ d.allPlaced) :
    x.flat ∈ Layer.allLayers d.document.layers := mem_allLayers_document.2 ⟨x, hx, rfl⟩

theorem stamps_document_perm (d : StackDocument) :
    (Layer.stamps d.document.layers).Perm (d.allPlaced.map fun x => x.layer.stamp) := by
  have hperm := (Layer.allLayers_perm (Layer.perm_byStamp (flat (stacksOf d.table)))).trans
    (Stack.map_flat_allPlaced_perm (stacksOf d.table)).symm
  rw [allPlaced]
  have hstamps := hperm.map Layer.stamp
  rwa [List.map_map] at hstamps

theorem Reachable.nodup_stamps (h : d.Reachable) : (d.allPlaced.map fun x => x.layer.stamp).Nodup :=
  (stamps_document_perm d).nodup_iff.1 h.document.wellFormed.distinct

/-- A layer of a document can be told by its stamp. -/
theorem Reachable.eq_of_stamp_eq (h : d.Reachable) {x y : PlacedLayer} (hx : x ∈ d.allPlaced)
    (hy : y ∈ d.allPlaced) (heq : x.layer.stamp = y.layer.stamp) : x = y :=
  List.inj_on_of_nodup_map h.nodup_stamps hx hy heq

/-- What a layer of the list hides, the layer of the stacks hides. -/
theorem mem_hidden_flat {x : PlacedLayer} {l : Layer} :
    l ∈ x.flat.hidden ↔ ∃ y ∈ Stack.placed x.layer.hidden, y.flat = l := by
  rw [PlacedLayer.flat, Layer.mem_byStamp, Stack.flat_eq_map, List.mem_map]

theorem mem_allLayers_hidden_flat {x : PlacedLayer} {l : Layer} :
    l ∈ Layer.allLayers x.flat.hidden ↔ ∃ y ∈ Stack.allPlaced x.layer.hidden, y.flat = l := by
  rw [PlacedLayer.flat, (Layer.allLayers_perm (Layer.perm_byStamp _)).mem_iff,
    ← (Stack.map_flat_allPlaced_perm _).mem_iff, List.mem_map]

theorem mem_withHidden_flat {x : PlacedLayer} {l : Layer} :
    l ∈ x.flat.withHidden ↔ ∃ y, (y = x ∨ y ∈ Stack.allPlaced x.layer.hidden) ∧ y.flat = l := by
  rw [Layer.withHidden_eq, List.mem_cons, mem_allLayers_hidden_flat]
  constructor
  · rintro (rfl | ⟨y, hy, rfl⟩)
    · exact ⟨x, .inl rfl, rfl⟩
    · exact ⟨y, .inr hy, rfl⟩
  · rintro ⟨y, rfl | hy, rfl⟩
    · exact .inl rfl
    · exact .inr ⟨y, hy, rfl⟩

/-- A layer goes with the newest one of a path if and only if it does so in the list. -/
theorem Reachable.discarded_flat_iff (h : d.Reachable) {path : String} {top : StackLayer}
    (htop : ⟨path, top⟩ ∈ d.allPlaced) {x : PlacedLayer} (hx : x ∈ d.allPlaced) :
    Layer.Discarded (Document.segments path) (PlacedLayer.flat ⟨path, top⟩) x.flat ↔
      PlacedLayer.Discarded path top x := by
  refine or_congr_left ⟨fun heq => ?_, fun heq => by rw [heq]⟩
  exact h.eq_of_stamp_eq hx htop (congrArg Layer.stamp heq)

/-! ## Layers after a change -/

theorem mem_placed_of_top? {location : String} {top : StackLayer}
    (htop : d.top? (normal location) = some top) : ⟨normal location, top⟩ ∈ d.placed :=
  Stack.mem_placed_stacksOf.2 (List.mem_of_getLast? htop)

/-- What is left of stacks that were in the map, and what a layer in sight was hiding, was there before. -/
theorem allPlaced_hidden_or_below_subset {path : String} {top : StackLayer} (htop : ⟨path, top⟩ ∈ d.placed)
    {below : List Stack} (hbelow : Stack.placed below ⊆ d.placed) :
    Stack.allPlaced top.hidden ⊆ d.allPlaced ∧
      Stack.allPlaced (Stack.keepOlder top.stamp below) ⊆ d.allPlaced := by
  have hsub : d.placed ⊆ d.allPlaced := Stack.placed_subset_allPlaced
  refine ⟨Stack.allPlaced_hidden_subset (hsub htop), fun x hx => ?_⟩
  exact Stack.allPlaced_subset_of_placed (fun y hy => hsub (hbelow hy))
    (Stack.allPlaced_keepOlder_subset _ _ hx)

/-- A release moves layers, and changes none of them. -/
theorem allPlaced_release_subset (d : StackDocument) (location : String) :
    (d.release location).allPlaced ⊆ d.allPlaced := by
  cases htop : d.top? (normal location) with
  | none =>
      rw [release_of_none htop]
      exact List.Subset.refl _
  | some top =>
      obtain ⟨hbelow, hrest⟩ := placed_takeBelow_subset (dropTop d.table (normal location)) (normal location)
      have hdropped := Stack.placed_dropTop_subset d.table (normal location)
      obtain ⟨hhidden, hkept⟩ := allPlaced_hidden_or_below_subset (mem_placed_of_top? htop)
        (fun x hx => hdropped (hbelow hx))
      rw [release_of_top? htop]
      refine Stack.allPlaced_subset_of_placed fun x hx => ?_
      rw [(Stack.placed_restore_perm _ _).mem_iff, List.mem_append, Stack.placed_append, List.mem_append] at hx
      rcases hx with hx | hx | hx
      · exact Stack.placed_subset_allPlaced (hdropped (hrest hx))
      · exact hkept (Stack.placed_subset_allPlaced hx)
      · exact hhidden (Stack.placed_subset_allPlaced hx)

/-- A layer of the list after a release stands for the layer that stood for it before. -/
theorem Reachable.mem_allPlaced_release_iff_flat (h : d.Reachable) {location : String} {x : PlacedLayer}
    (hx : x ∈ d.allPlaced) :
    x ∈ (Scope.release d location).allPlaced ↔
      x.flat ∈ Layer.allLayers (Scope.release d.document location).layers := by
  rw [← document_release h.sound h.document.wellFormed]
  constructor
  · exact flat_mem_allLayers
  · intro hflat
    obtain ⟨y, hy, heq⟩ := mem_allLayers_document.1 hflat
    have hyd : y ∈ d.allPlaced := allPlaced_release_subset d location hy
    rwa [← h.eq_of_stamp_eq hyd hx (congrArg Layer.stamp heq)]

/-- Hiding changes the newest layer of the path only. -/
theorem mem_allPlaced_hideBelow {location : String} {top : StackLayer}
    (htop : d.top? (normal location) = some top) {x : PlacedLayer}
    (hx : x ∈ (d.hideBelow location).allPlaced) : x ∈ d.allPlaced ∨ x.layer.stamp = top.stamp := by
  obtain ⟨hbelow, hrest⟩ := placed_takeBelow_subset d.table (normal location)
  obtain ⟨hhidden, hkept⟩ := allPlaced_hidden_or_below_subset (mem_placed_of_top? htop) hbelow
  rw [hideBelow_of_top? htop] at hx
  generalize normal location = path at *
  obtain ⟨y, hy, hxy⟩ := Stack.mem_allPlaced.1 hx
  rw [(Stack.placed_push_perm _ _ _ _).mem_iff, List.mem_cons, List.mem_append] at hy
  rcases hy with rfl | hy | hy
  · rcases hxy with rfl | hxy
    · exact .inr rfl
    · rw [covering, Stack.allPlaced_append, List.mem_append] at hxy
      exact .inl (hxy.elim (fun hxy => hhidden hxy) fun hxy => hkept hxy)
  · obtain ⟨l, hl, rfl⟩ := List.mem_map.1 hy
    exact .inl (Stack.mem_allPlaced.2
      ⟨_, Stack.mem_placed_stacksOf.2 (List.dropLast_subset _ hl), hxy⟩)
  · exact .inl (Stack.mem_allPlaced.2
      ⟨y, hrest (Stack.placed_subset (Stack.others_subset _ _) hy), hxy⟩)

/-! ## What a removal takes along -/

section Removal

variable (h : d.Reachable) {location : String} {top : StackLayer} (htop : d.top? (normal location) = some top)

include h htop

theorem Reachable.top?_list :
    Layer.top? d.document.layers (Document.segments location) =
      some (PlacedLayer.flat ⟨normal location, top⟩) := by
  have hlist := top?_document h.sound h.document.wellFormed (Stack.normal_normal location)
  rwa [htop, Option.map_some, Stack.segments_normal] at hlist

theorem Reachable.discarded_iff {x : PlacedLayer} (hx : x ∈ d.allPlaced) :
    Layer.Discarded (Document.segments location) (PlacedLayer.flat ⟨normal location, top⟩) x.flat ↔
      x.Discarded (normal location) top := by
  have hmem := Stack.placed_subset_allPlaced (mem_placed_of_top? htop)
  rw [← h.discarded_flat_iff hmem hx, Stack.segments_normal]

/-- A release takes the newest layer of the path along, what is newer below the path, and nothing else. -/
theorem Reachable.mem_allPlaced_release_iff {x : PlacedLayer} :
    x ∈ (Scope.release d location).allPlaced ↔ x ∈ d.allPlaced ∧ ¬ x.Discarded (normal location) top := by
  have hlist := Layer.mem_allLayers_release_iff h.document.hidesAll h.document.wellFormed (h.top?_list htop)
    (m := x.flat)
  constructor
  · intro hx
    have hxd : x ∈ d.allPlaced := allPlaced_release_subset d location hx
    rw [h.mem_allPlaced_release_iff_flat hxd] at hx
    exact ⟨hxd, fun hdiscarded => (hlist.1 hx).2 ((h.discarded_iff htop hxd).2 hdiscarded)⟩
  · rintro ⟨hxd, hkept⟩
    rw [h.mem_allPlaced_release_iff_flat hxd]
    exact hlist.2 ⟨flat_mem_allLayers hxd, fun hdiscarded => hkept ((h.discarded_iff htop hxd).1 hdiscarded)⟩

/-- Hiding what is below a path keeps all that is older than the newest layer there. -/
theorem Reachable.mem_allPlaced_hideBelow_of_lt {x : PlacedLayer} (hx : x ∈ d.allPlaced)
    (hlt : x.layer.stamp < top.stamp) : x ∈ (Scope.hideBelow d location).allPlaced := by
  have hflat : x.flat ∈ Layer.allLayers (Scope.hideBelow d.document location).layers :=
    Layer.mem_allLayers_hideBelow_of_lt h.document.wellFormed (h.top?_list htop) (flat_mem_allLayers hx) hlt
  rw [← document_hideBelow h.sound h.document.wellFormed] at hflat
  obtain ⟨y, hy, heq⟩ := mem_allLayers_document.1 hflat
  have hstamp : y.layer.stamp = x.layer.stamp := congrArg Layer.stamp heq
  rcases mem_allPlaced_hideBelow htop hy with hyd | hnew
  · rwa [← h.eq_of_stamp_eq hyd hx hstamp]
  · omega

/-- What a release takes along was in sight, or hidden in something that was in sight below the path. -/
theorem Reachable.mem_below_of_discarded {x : PlacedLayer} (hx : x ∈ d.allPlaced)
    (hdiscarded : x.Discarded (normal location) top) :
    x = ⟨normal location, top⟩ ∨ x ∈ Stack.allPlaced ((stacksOf d.table).filter fun s =>
      Layer.isBelow (Document.segments location) (Document.segments s.path)) := by
  rcases Layer.mem_under_of_discarded h.document.hidesAll h.document.wellFormed (h.top?_list htop)
    (flat_mem_allLayers hx) ((h.discarded_iff htop hx).2 hdiscarded) with heq | hunder
  · have hmem := Stack.placed_subset_allPlaced (mem_placed_of_top? htop)
    exact .inl (h.eq_of_stamp_eq hx hmem (congrArg Layer.stamp heq))
  · obtain ⟨l, hl, hxl⟩ := Layer.mem_allLayers.1 hunder
    obtain ⟨hl, hbelow⟩ := Layer.mem_under.1 hl
    obtain ⟨y, hy, rfl⟩ := mem_layers_document.1 hl
    obtain ⟨s, hs, hpath, hys⟩ := Stack.mem_placed.1 hy
    have hchosen : s ∈ (stacksOf d.table).filter fun s =>
        Layer.isBelow (Document.segments location) (Document.segments s.path) :=
      List.mem_filter.2 ⟨hs, by rw [hpath]; exact hbelow⟩
    have hplaced := Stack.mem_placed.2 ⟨s, hchosen, hpath, hys⟩
    obtain ⟨z, hz, heq⟩ := mem_withHidden_flat.1 hxl
    have hzd : z ∈ d.allPlaced := Stack.mem_allPlaced.2 ⟨y, hy, hz⟩
    rw [← h.eq_of_stamp_eq hzd hx (congrArg Layer.stamp heq)]
    exact .inr (Stack.mem_allPlaced.2 ⟨y, hplaced, hz⟩)

/-- In sight after a release is what was in sight before, or what one of the layers removed was hiding. -/
theorem Reachable.mem_placed_release_iff {x : PlacedLayer} :
    x ∈ (Scope.release d location).placed ↔ ¬ x.Discarded (normal location) top ∧
      (x ∈ d.placed ∨
        ∃ y ∈ d.allPlaced, y.Discarded (normal location) top ∧ x ∈ Stack.placed y.layer.hidden) := by
  have hlist := Layer.mem_release_iff_hider h.document.hidesAll h.document.wellFormed (h.top?_list htop)
    (m := x.flat)
  have hdocument := document_release h.sound h.document.wellFormed location
  have hmem {y : PlacedLayer} (hyd : y ∈ d.allPlaced) (hxd : x ∈ d.allPlaced) (heq : y.flat = x.flat) :
      y = x := h.eq_of_stamp_eq hyd hxd (congrArg Layer.stamp heq)
  constructor
  · intro hx
    have hxd : x ∈ d.allPlaced := allPlaced_release_subset d location (Stack.placed_subset_allPlaced hx)
    have hflat : x.flat ∈ (Scope.release d.document location).layers := by
      rw [← hdocument]
      exact mem_layers_document.2 ⟨x, hx, rfl⟩
    obtain ⟨hkept, horigin⟩ := hlist.1 hflat
    refine ⟨fun hdiscarded => hkept ((h.discarded_iff htop hxd).2 hdiscarded), ?_⟩
    rcases horigin with hsight | ⟨l, hl, hdiscarded, hhidden⟩
    · obtain ⟨y, hy, heq⟩ := mem_layers_document.1 hsight
      rw [← hmem (Stack.placed_subset_allPlaced hy) hxd heq]
      exact .inl hy
    · obtain ⟨y, hy, rfl⟩ := mem_allLayers_document.1 hl
      obtain ⟨z, hz, heq⟩ := mem_hidden_flat.1 hhidden
      have hzd : z ∈ d.allPlaced := Stack.allPlaced_hidden_subset hy (Stack.placed_subset_allPlaced hz)
      rw [← hmem hzd hxd heq]
      exact .inr ⟨y, hy, (h.discarded_iff htop hy).1 hdiscarded, hz⟩
  · rintro ⟨hkept, horigin⟩
    have hxd : x ∈ d.allPlaced := by
      rcases horigin with hx | ⟨y, hy, -, hx⟩
      · exact Stack.placed_subset_allPlaced hx
      · exact Stack.allPlaced_hidden_subset hy (Stack.placed_subset_allPlaced hx)
    have hflat : x.flat ∈ (Scope.release d.document location).layers := by
      refine hlist.2 ⟨fun hdiscarded => hkept ((h.discarded_iff htop hxd).1 hdiscarded), ?_⟩
      rcases horigin with hx | ⟨y, hy, hdiscarded, hx⟩
      · exact .inl (mem_layers_document.2 ⟨x, hx, rfl⟩)
      · exact .inr ⟨y.flat, flat_mem_allLayers hy, (h.discarded_iff htop hy).2 hdiscarded,
          mem_hidden_flat.2 ⟨x, hx, rfl⟩⟩
    rw [← hdocument] at hflat
    obtain ⟨y, hy, heq⟩ := mem_layers_document.1 hflat
    have hyd : y ∈ d.allPlaced := allPlaced_release_subset d location (Stack.placed_subset_allPlaced hy)
    rw [← hmem hyd hxd heq]
    exact hy

end Removal

/-- The stacks that a layer of a document hides are sound. -/
theorem Reachable.sound_hidden (h : d.Reachable) {x : PlacedLayer} (hx : x ∈ d.allPlaced) :
    ∀ s ∈ x.layer.hidden, s.Sound := Stack.sound_hidden_of_mem_allPlaced h.sound hx

/--
Whatever is bound, hidden and released, in any order and balanced or not, the stacks of a document are in
order: none is empty and their stamps ascend, in the map and where they are hidden; no layer occurs twice;
and hidden layers are older than the one that hides them, and below its path.

Nothing old is lost when a path with a node is released, or what is below it is hidden. The release removes
the newest layer of the path and what is newer below the path, whether in sight or hidden there, and nothing
else; and it brings back into sight what these were hiding, unless that goes too.
-/
theorem Reachable.keeps_older (h : d.Reachable) :
    (∀ s ∈ stacksOf d.table, s.layers ≠ [] ∧ s.layers.Pairwise fun a b => a.stamp < b.stamp) ∧
    (∀ x ∈ d.allPlaced, ∀ s ∈ x.layer.hidden,
      s.layers ≠ [] ∧ s.layers.Pairwise fun a b => a.stamp < b.stamp) ∧
    (d.allPlaced.map fun x => x.layer.stamp).Nodup ∧
    (∀ x ∈ d.allPlaced, ∀ y ∈ Stack.allPlaced x.layer.hidden, y.layer.stamp < x.layer.stamp ∧
      Layer.isBelow (Document.segments x.path) (Document.segments y.path)) ∧
    ∀ location top, d.top? (normal location) = some top →
      (∀ x ∈ d.allPlaced, x.layer.stamp < top.stamp →
        x ∈ (Scope.release d location).allPlaced ∧ x ∈ (Scope.hideBelow d location).allPlaced) ∧
      (∀ x, x ∈ (Scope.release d location).allPlaced ↔
        x ∈ d.allPlaced ∧ ¬ x.Discarded (normal location) top) ∧
      (∀ x ∈ d.allPlaced, x.Discarded (normal location) top → x = ⟨normal location, top⟩ ∨
        x ∈ Stack.allPlaced ((stacksOf d.table).filter fun s =>
          Layer.isBelow (Document.segments location) (Document.segments s.path))) ∧
      ∀ x, x ∈ (Scope.release d location).placed ↔ ¬ x.Discarded (normal location) top ∧
        (x ∈ d.placed ∨
          ∃ y ∈ d.allPlaced, y.Discarded (normal location) top ∧ x ∈ Stack.placed y.layer.hidden) := by
  refine ⟨fun s hs => ⟨(h.sound s hs).layers_ne_nil, (h.sound s hs).ascending_layers⟩,
    fun x hx s hs => ?_, h.nodup_stamps, fun x hx y hy => ?_, fun location top htop => ?_⟩
  · have hsound := h.sound_hidden hx s hs
    exact ⟨hsound.layers_ne_nil, hsound.ascending_layers⟩
  · exact h.document.wellFormed.nested_all (flat_mem_allLayers hx)
      (mem_allLayers_hidden_flat.2 ⟨y, hy, rfl⟩)
  · refine ⟨fun x hx hlt => ?_, fun x => h.mem_allPlaced_release_iff htop,
      fun x hx => h.mem_below_of_discarded htop hx, fun x => h.mem_placed_release_iff htop⟩
    have hmem := Stack.placed_subset_allPlaced (mem_placed_of_top? htop)
    refine ⟨(h.mem_allPlaced_release_iff htop).2 ⟨hx, fun hdiscarded => ?_⟩,
      h.mem_allPlaced_hideBelow_of_lt htop hx hlt⟩
    exact Layer.not_discarded_of_lt (t := PlacedLayer.flat ⟨normal location, top⟩) hlt
      ((h.discarded_iff htop hx).2 hdiscarded)

/-- A node is bound to `a/x/u`, and then hidden under a node of `a/x` that was bound after one of `a`. -/
def nested : StackDocument :=
  Scope.hideBelow (Scope.bind (Scope.bind (Scope.bind (ofValue .null) "a/x/u" Pointer.root) "a"
    Pointer.root) "/a//x" Pointer.root) "a/x"

/-- What a layer was hiding comes back into sight when the layer goes with an older one above it. -/
theorem keeps_older_nested :
    let covered : PlacedLayer := ⟨"a/x/u", ⟨.root, 1, []⟩⟩
    let covering : PlacedLayer := ⟨"a/x", ⟨.root, 3, [⟨"a/x/u", [⟨.root, 1, []⟩]⟩]⟩⟩
    nested.Reachable ∧ nested.top? (normal "a") = some ⟨.root, 2, []⟩ ∧
      nested.placed = [⟨"a", ⟨.root, 2, []⟩⟩, covering] ∧
      covering ∉ (Scope.release nested "a").allPlaced ∧ covered ∈ (Scope.release nested "a").placed := by
  intro covered covering
  have hreachable : nested.Reachable :=
    .hideBelow (.bind (.bind (.bind (.ofValue .null) "a/x/u" _) "a" _) "/a//x" _) "a/x"
  have htop : nested.top? (normal "a") = some ⟨.root, 2, []⟩ := by with_unfolding_all rfl
  have hplaced : nested.placed = [⟨"a", ⟨.root, 2, []⟩⟩, covering] := by with_unfolding_all rfl
  obtain ⟨-, -, -, -, hrelease⟩ := hreachable.keeps_older
  obtain ⟨-, hall, -, hsight⟩ := hrelease "a" _ htop
  have hdiscarded : covering.Discarded (normal "a") ⟨.root, 2, []⟩ := .inr ⟨by decide, by decide⟩
  have hmem : covering ∈ nested.placed := by
    rw [hplaced]
    exact List.mem_cons_of_mem _ (List.mem_singleton_self _)
  refine ⟨hreachable, htop, hplaced, fun h => ((hall covering).1 h).2 hdiscarded,
    (hsight covered).2 ⟨?_, .inr ⟨covering, Stack.placed_subset_allPlaced hmem, hdiscarded, ?_⟩⟩⟩
  · rintro (heq | ⟨-, hlt⟩)
    · exact absurd (congrArg (fun x => x.layer.stamp) heq) (by decide)
    · exact absurd hlt (by decide)
  · exact List.mem_singleton_self _

end StackDocument

end SheetFill.Json

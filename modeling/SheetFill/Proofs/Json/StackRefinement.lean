import SheetFill.Proofs.Json.Stacks

/-!
# Stacks behave like one list of layers

A document with a stack for every path and a document with all layers in one list cannot be told apart: what
is looked up is the same in both, and after binding, hiding and releasing they correspond again. That the
newest layer of a path is the last one of its stack, and that the stack is there exactly as long as the path
has a layer, needs stacks that are not empty and whose stamps ascend, so both are shown together.

## Main definitions

* `StackDocument.document` — a document with the layers of all stacks in one list.
* `StackDocument.Reachable` — what comes of binding, hiding and releasing in any order.

## Main results

* `StackDocument.document_bind`, `StackDocument.document_hideBelow`, `StackDocument.document_release` — the
  changes of stacks are those of the list.
* `StackDocument.Reachable.sound` — no stack is ever empty or out of order, on the map or hidden.
* `StackDocument.Reachable.refines` — look-ups see the same in both.
-/

namespace SheetFill.Json.StackDocument

open Stack (placed flat pathText normal IsPath)

/-- A document with the layers of all stacks in one list, by their stamps. -/
def document (d : StackDocument) : Document :=
  ⟨d.root, Layer.byStamp (flat (stacksOf d.table)), d.clock⟩

variable {d : StackDocument}

theorem layers_document_perm (d : StackDocument) :
    d.document.layers.Perm ((placed (stacksOf d.table)).map PlacedLayer.flat) := by
  rw [← Stack.flat_eq_map]
  exact Layer.perm_byStamp _

theorem mem_layers_document {l : Layer} :
    l ∈ d.document.layers ↔ ∃ x ∈ placed (stacksOf d.table), x.flat = l := by
  rw [(layers_document_perm d).mem_iff, List.mem_map]

/-! ## The stack of a path -/

section Tops

variable (hsound : ∀ s ∈ stacksOf d.table, s.Sound)

include hsound

theorem sound_layersAt {path : String} (hne : layersAt d.table path ≠ []) :
    Stack.Sound ⟨path, layersAt d.table path⟩ := by
  rw [layersAt, Std.TreeMap.getD_eq_getD_getElem?] at hne ⊢
  cases h : d.table[path]? with
  | none => simp [h] at hne
  | some layers => exact hsound ⟨path, layers⟩ (Stack.mem_stacksOf.2 h)

theorem ascending_layersAt (path : String) :
    (layersAt d.table path).Pairwise fun a b => a.stamp < b.stamp := by
  by_cases hne : layersAt d.table path = []
  · rw [hne]
    exact .nil
  · exact (sound_layersAt hsound hne).ascending_layers

theorem normal_of_mem_placed {x : PlacedLayer} (hx : x ∈ placed (stacksOf d.table)) :
    normal x.path = x.path := by
  obtain ⟨s, hs, hpath, -⟩ := Stack.mem_placed.1 hx
  rw [← hpath]
  exact (hsound s hs).normal_path

variable (hwf : d.document.WellFormed)

include hwf

/-- The stack of a path in the list is that of the map. -/
theorem stack_document {path : Path} (hpath : IsPath path) :
    d.document.stack path =
      (layersAt d.table (pathText path)).map fun l => PlacedLayer.flat ⟨pathText path, l⟩ := by
  refine Layer.Ascending.eq_of_mem_iff (hwf.ascending.filter _)
    (List.pairwise_map.2 (ascending_layersAt hsound _)) fun l => ?_
  rw [Document.mem_stack, mem_layers_document, List.mem_map]
  constructor
  · rintro ⟨⟨x, hx, rfl⟩, rfl⟩
    have hnormal : pathText x.flat.path = x.path := normal_of_mem_placed hsound hx
    rw [hnormal]
    exact ⟨x.layer, Stack.mem_placed_stacksOf.1 hx, rfl⟩
  · rintro ⟨l, hl, rfl⟩
    exact ⟨⟨_, Stack.mem_placed_stacksOf.2 hl, rfl⟩, Stack.segments_pathText hpath⟩

/-- The newest layer of a path is the last one of its stack. -/
theorem top?_document {path : String} (hpath : normal path = path) :
    Layer.top? d.document.layers (Document.segments path) =
      (d.top? path).map fun l => PlacedLayer.flat ⟨path, l⟩ := by
  rw [Document.top?_eq_getLast?_stack, stack_document hsound hwf (Stack.isPath_segments path),
    List.getLast?_map, ← normal, hpath, top?]

end Tops

/-! ## Binding -/

theorem table_bind (d : StackDocument) (location : String) (node : Pointer) :
    (d.bind location node).table = d.table.insert (normal location)
      (layersAt d.table (normal location) ++ [⟨node, d.clock + 1, []⟩]) := rfl

theorem placed_bind_perm (d : StackDocument) (location : String) (node : Pointer) :
    (placed (stacksOf (d.bind location node).table)).Perm
      (placed (stacksOf d.table) ++ [⟨normal location, node, d.clock + 1, []⟩]) := by
  rw [table_bind]
  refine (Stack.placed_push_perm _ _ _ _).trans (List.Perm.trans ?_ (List.perm_append_singleton _ _).symm)
  exact (Stack.placed_split_perm d.table _).symm.cons _

/-- Binding a node to a path with a stack is binding it in the list. -/
theorem document_bind (hwf : d.document.WellFormed) (location : String) (node : Pointer) :
    (Scope.bind d location node).document = Scope.bind d.document location node := by
  have hnew : PlacedLayer.flat ⟨normal location, node, d.clock + 1, []⟩ =
      ⟨Document.segments location, node, d.clock + 1, []⟩ := by
    simp only [PlacedLayer.flat, Stack.segments_normal, Stack.flat]
    rfl
  have hperm : (flat (stacksOf (d.bind location node).table)).Perm
      (Layer.bind d.document.layers (Document.segments location) node (d.clock + 1)) := by
    rw [Stack.flat_eq_map]
    refine ((placed_bind_perm d location node).map _).trans ?_
    rw [List.map_append, List.map_singleton, hnew]
    exact (layers_document_perm d).symm.append_right _
  exact congrArg (fun layers => Document.mk d.root layers (d.clock + 1))
    (Layer.byStamp_eq_of_perm hperm (hwf.bind location node).ascending)

theorem sound_bind (hsound : ∀ s ∈ stacksOf d.table, s.Sound) (hwf : d.document.WellFormed)
    (location : String) (node : Pointer) : ∀ s ∈ stacksOf (d.bind location node).table, s.Sound := by
  intro s hs
  rw [table_bind] at hs
  rcases List.mem_cons.1 ((Stack.stacksOf_insert_perm _ _ _).mem_iff.1 hs) with rfl | hs
  · refine .intro (Stack.normal_normal location) (by simp) ?_ fun l hl => ?_
    · refine List.pairwise_append.2 ⟨ascending_layersAt hsound _, List.pairwise_singleton _ _, ?_⟩
      intro l hl new hnew
      obtain rfl := List.mem_singleton.1 hnew
      have hplaced : ⟨normal location, l⟩ ∈ placed (stacksOf d.table) := Stack.mem_placed_stacksOf.2 hl
      have hmem : PlacedLayer.flat ⟨normal location, l⟩ ∈ d.document.layers :=
        mem_layers_document.2 ⟨_, hplaced, rfl⟩
      exact Nat.lt_succ_of_le (hwf.bounded _ (Layer.mem_allLayers_of_mem hmem))
    · rcases List.mem_append.1 hl with hl | hl
      · exact (sound_layersAt hsound (List.ne_nil_of_mem hl)).sound_hidden hl
      · obtain rfl := List.mem_singleton.1 hl
        exact fun t ht => by cases ht
  · exact hsound s (Stack.others_subset _ _ hs)

/-! ## Taking stacks out of the map -/

/-- The stacks below a path, and those that are left, in one list. -/
theorem flat_takeBelow {table : Std.TreeMap String (List StackLayer)}
    (hsound : ∀ s ∈ stacksOf table, s.Sound) {path : String} (hpath : normal path = path) :
    flat (takeBelow table path).1 = Layer.under (Document.segments path) (flat (stacksOf table)) ∧
      flat (stacksOf (takeBelow table path).2) =
        Layer.apart (Document.segments path) (flat (stacksOf table)) := by
  have hbelow : ∀ s ∈ stacksOf table, Stack.isBelow path s.path =
      Layer.isBelow (Document.segments path) (Document.segments s.path) :=
    fun s hs => Stack.isBelow_eq hpath (hsound s hs).normal_path
  constructor
  · exact Stack.flat_filter (p := Stack.isBelow path) (q := Layer.isBelow (Document.segments path)) hbelow
  · rw [takeBelow, Stack.stacksOf_filter table fun other => !Stack.isBelow path other]
    exact Stack.flat_filter (p := fun other => !Stack.isBelow path other)
      (q := fun other => !Layer.isBelow (Document.segments path) other) fun s hs => by rw [hbelow s hs]

theorem sound_takeBelow {table : Std.TreeMap String (List StackLayer)}
    (hsound : ∀ s ∈ stacksOf table, s.Sound) (path : String) :
    (∀ s ∈ (takeBelow table path).1, s.Sound) ∧ ∀ s ∈ stacksOf (takeBelow table path).2, s.Sound := by
  rw [takeBelow, Stack.stacksOf_filter table fun other => !Stack.isBelow path other]
  exact ⟨fun s hs => hsound s (List.mem_of_mem_filter hs), fun s hs => hsound s (List.mem_of_mem_filter hs)⟩

theorem placed_takeBelow_subset (table : Std.TreeMap String (List StackLayer)) (path : String) :
    placed (takeBelow table path).1 ⊆ placed (stacksOf table) ∧
      placed (stacksOf (takeBelow table path).2) ⊆ placed (stacksOf table) := by
  rw [takeBelow, Stack.stacksOf_filter table fun other => !Stack.isBelow path other]
  exact ⟨Stack.placed_subset fun s hs => List.mem_of_mem_filter hs,
    Stack.placed_subset fun s hs => List.mem_of_mem_filter hs⟩

theorem layersAt_takeBelow (table : Std.TreeMap String (List StackLayer)) (path : String) :
    layersAt (takeBelow table path).2 path = layersAt table path := by
  have hpath : (takeBelow table path).2[path]? = table[path]? := by
    apply Option.ext
    intro layers
    have hleft := Stack.mem_stacksOf (m := (takeBelow table path).2) (s := ⟨path, layers⟩)
    have hright := Stack.mem_stacksOf (m := table) (s := ⟨path, layers⟩)
    rw [← hleft, ← hright, takeBelow, Stack.stacksOf_filter table fun other => !Stack.isBelow path other,
      List.mem_filter, Stack.isBelow_self]
    exact and_iff_left rfl
  rw [layersAt, layersAt, Std.TreeMap.getD_eq_getD_getElem?, Std.TreeMap.getD_eq_getD_getElem?, hpath]

/-! ## Hiding -/

theorem hideBelow_of_none {location : String} (htop : d.top? (normal location) = none) :
    d.hideBelow location = { d with table := (takeBelow d.table (normal location)).2 } := by
  rw [top?, ← layersAt_takeBelow] at htop
  rw [hideBelow]
  simp only [htop]

/-- A layer that hides further stacks. -/
def covering (top : StackLayer) (below : List Stack) : StackLayer :=
  { top with hidden := top.hidden ++ Stack.keepOlder top.stamp below }

theorem hideBelow_of_top? {location : String} {top : StackLayer}
    (htop : d.top? (normal location) = some top) :
    d.hideBelow location =
      { d with
        table := (takeBelow d.table (normal location)).2.insert (normal location)
          ((layersAt d.table (normal location)).dropLast ++
            [covering top (takeBelow d.table (normal location)).1]) } := by
  rw [top?, ← layersAt_takeBelow] at htop
  rw [hideBelow]
  simp only [htop]
  rw [layersAt_takeBelow]
  rfl

section Hiding

variable (hsound : ∀ s ∈ stacksOf d.table, s.Sound)

include hsound

theorem sound_hideBelow (location : String) : ∀ s ∈ stacksOf (d.hideBelow location).table, s.Sound := by
  obtain ⟨hbelow, hrest⟩ := sound_takeBelow hsound (normal location)
  cases htop : d.top? (normal location) with
  | none =>
      rw [hideBelow_of_none htop]
      exact hrest
  | some top =>
      have hmem : top ∈ layersAt d.table (normal location) := List.mem_of_getLast? htop
      have hstack := sound_layersAt hsound (List.ne_nil_of_mem hmem)
      have hascending := hstack.ascending_layers
      rw [← List.dropLast_append_getLast? top htop] at hascending
      rw [hideBelow_of_top? htop]
      intro s hs
      rcases List.mem_cons.1 ((Stack.stacksOf_insert_perm _ _ _).mem_iff.1 hs) with rfl | hs
      · refine .intro (Stack.normal_normal location) (by simp) ?_ fun l hl => ?_
        · -- the layer that hides more keeps its stamp
          rw [List.pairwise_append] at hascending ⊢
          exact ⟨hascending.1, List.pairwise_singleton _ _, fun l hl new hnew => by
            rw [List.mem_singleton.1 hnew]
            exact hascending.2.2 l hl top (List.mem_singleton_self top)⟩
        · rcases List.mem_append.1 hl with hl | hl
          · exact hstack.sound_hidden (List.dropLast_subset _ hl)
          · obtain rfl := List.mem_singleton.1 hl
            intro t ht
            rcases List.mem_append.1 ht with ht | ht
            · exact hstack.sound_hidden hmem t ht
            · exact Stack.sound_keepOlder hbelow t ht
      · exact hrest s (Stack.others_subset _ _ hs)

variable (hwf : d.document.WellFormed)

include hwf

/-- A layer that hides further stacks is a layer of the list that hides further layers. -/
theorem flat_covering {path : String} (hpath : normal path = path) {top : StackLayer}
    (htop : d.top? path = some top) :
    PlacedLayer.flat ⟨path, covering top (takeBelow d.table path).1⟩ =
      Layer.covering (PlacedLayer.flat ⟨path, top⟩)
        (Layer.keepOlder top.stamp (Layer.under (Document.segments path) d.document.layers)) := by
  have hlist := top?_document hsound hwf hpath
  rw [htop, Option.map_some] at hlist
  -- the stamps of what the layer hides in the list are distinct, as the list is well formed
  have hwf' := Layer.WellFormed.hideBelow hwf (Document.segments path)
  have hmem := (Layer.mem_hideBelow_of_top? hwf.ascending hlist).2 (.inr rfl)
  have hnodup := hwf'.nodup_hidden (Layer.mem_allLayers_of_mem hmem)
  have hnodup' := ((Layer.perm_byStamp _).map Layer.stamp).nodup_iff.1 hnodup
  have hbelow : (flat (Stack.keepOlder top.stamp (takeBelow d.table path).1)).Perm
      (Layer.keepOlder top.stamp (Layer.under (Document.segments path) d.document.layers)) := by
    refine (Stack.flat_keepOlder_perm _ _).trans (Layer.keepOlder_perm ?_)
    rw [(flat_takeBelow hsound hpath).1]
    exact (Layer.perm_byStamp _).symm.filter _
  have hhidden : (flat (covering top (takeBelow d.table path).1).hidden).Perm
      ((PlacedLayer.flat ⟨path, top⟩).hidden ++
        Layer.keepOlder top.stamp (Layer.under (Document.segments path) d.document.layers)) := by
    rw [covering, Stack.flat_append]
    exact (Layer.perm_byStamp _).symm.append hbelow
  exact congrArg (Layer.mk (Document.segments path) top.node top.stamp)
    (Layer.byStamp_congr hhidden hnodup')

/-- Hiding what is on the stacks below a path is hiding it in the list. -/
theorem document_hideBelow (location : String) :
    (Scope.hideBelow d location).document = Scope.hideBelow d.document location := by
  have hpath := Stack.normal_normal location
  rw [Document.hideBelow_eq, ← Stack.segments_normal]
  change (d.hideBelow location).document = _
  have hlist := top?_document hsound hwf hpath
  have hascending := (Layer.WellFormed.hideBelow hwf (Document.segments (normal location))).ascending
  have hrest : (flat (stacksOf (takeBelow d.table (normal location)).2)).Perm
      (Layer.apart (Document.segments (normal location)) d.document.layers) := by
    rw [(flat_takeBelow hsound hpath).2]
    exact (Layer.perm_byStamp _).symm.filter _
  cases htop : d.top? (normal location) with
  | none =>
      rw [htop, Option.map_none] at hlist
      rw [Layer.hideBelow_of_none hlist] at hascending ⊢
      rw [hideBelow_of_none htop]
      exact congrArg (fun layers => Document.mk d.root layers d.clock)
        (Layer.byStamp_eq_of_perm hrest hascending)
  | some top =>
      rw [htop, Option.map_some] at hlist
      obtain ⟨hmem, hlistpath, -⟩ := hwf.ascending.top?_eq_some_iff.1 hlist
      have hmem' : PlacedLayer.flat ⟨normal location, top⟩ ∈
          Layer.apart (Document.segments (normal location)) d.document.layers := by
        rw [Layer.mem_apart, hlistpath]
        exact ⟨hmem, Layer.not_isBelow_self _⟩
      have happart := hwf.ascending.apart (Document.segments (normal location))
      have hcovered := happart.map_hideUnder_perm hmem'
        (Layer.keepOlder top.stamp (Layer.under (Document.segments (normal location)) d.document.layers))
      -- the newest layer and the others are all that is left in the map
      have htop' := htop
      rw [top?, ← layersAt_takeBelow] at htop'
      have hsplit := (Stack.placed_top_perm htop').map PlacedLayer.flat
      rw [List.map_cons, ← Stack.flat_eq_map] at hsplit
      have hothers := (hsplit.symm.trans (hrest.trans (happart.perm_cons_others hmem'))).cons_inv
      rw [Layer.hideBelow_of_top? hlist] at hascending ⊢
      rw [hideBelow_of_top? htop]
      refine congrArg (fun layers => Document.mk d.root layers d.clock)
        (Layer.byStamp_eq_of_perm (List.Perm.trans ?_ hcovered.symm) hascending)
      rw [Stack.flat_eq_map]
      refine ((Stack.placed_push_perm _ _ _ _).map _).trans ?_
      rw [List.map_cons, flat_covering hsound hwf hpath htop]
      rw [layersAt_takeBelow] at hothers
      exact hothers.cons _

end Hiding

/-! ## Releasing -/

theorem release_of_none {location : String} (htop : d.top? (normal location) = none) :
    d.release location = d := by
  rw [release]
  simp only [htop]

theorem release_of_top? {location : String} {top : StackLayer}
    (htop : d.top? (normal location) = some top) :
    d.release location =
      { d with
        table := restore (takeBelow (dropTop d.table (normal location)) (normal location)).2
          (Stack.keepOlder top.stamp (takeBelow (dropTop d.table (normal location)) (normal location)).1 ++
            top.hidden) } := by
  rw [release]
  simp only [htop]

/-- Stacks that are put back are in the order of their stamps, if no stamp occurs twice. -/
theorem sound_restore {table : Std.TreeMap String (List StackLayer)} {back : List Stack}
    (hsound : ∀ s ∈ stacksOf table, s.Sound) (hback : ∀ s ∈ back, s.Sound)
    (hnodup : ((placed (stacksOf table) ++ placed back).map fun x => x.layer.stamp).Nodup) :
    ∀ s ∈ stacksOf (restore table back), s.Sound := by
  induction back generalizing table with
  | nil => exact hsound
  | cons s back ih =>
      obtain ⟨hs, hback⟩ := List.forall_mem_cons.1 hback
      rw [Stack.placed_cons, ← List.append_assoc] at hnodup
      have hnodup' := ((((Stack.placed_merge_perm table s).append_right (placed back)).map
        fun x => x.layer.stamp).nodup_iff).2 hnodup
      refine ih (fun t ht => ?_) hback hnodup'
      rcases List.mem_cons.1 ((Stack.stacksOf_insert_perm _ _ _).mem_iff.1 ht) with rfl | ht
      · have hperm : (Stack.inOrder (layersAt table s.path ++ s.layers)).Perm
            (layersAt table s.path ++ s.layers) := Order.perm_inOrder _ _
        refine .intro hs.normal_path (fun hnil => ?_) (Order.pairwise_lt_inOrder ?_) fun l hl => ?_
        · rw [hnil, List.nil_perm, List.append_eq_nil_iff] at hperm
          exact hs.layers_ne_nil hperm.2
        · rw [List.map_append] at hnodup'
          have hstack := ((Stack.placed_insert_perm table s.path _).map fun x => x.layer.stamp).nodup_iff.1
            hnodup'.of_append_left
          rw [List.map_append, List.map_map] at hstack
          exact List.pairwise_map.1 ((hperm.map _).nodup_iff.1 hstack.of_append_left)
        · rcases List.mem_append.1 (hperm.mem_iff.1 hl) with hl | hl
          · exact (sound_layersAt (d := ⟨.null, table, 0⟩) hsound (List.ne_nil_of_mem hl)).sound_hidden hl
          · exact hs.sound_hidden hl
      · exact hsound t (Stack.others_subset _ _ ht)

section Releasing

variable (hsound : ∀ s ∈ stacksOf d.table, s.Sound)

include hsound

theorem sound_dropTop (path : String) : ∀ s ∈ stacksOf (dropTop d.table path), s.Sound := by
  intro s hs
  rw [dropTop] at hs
  split at hs
  · exact hsound s (Stack.others_subset _ _ ((Stack.stacksOf_erase_perm _ _).mem_iff.1 hs))
  · next hne =>
      rcases List.mem_cons.1 ((Stack.stacksOf_insert_perm _ _ _).mem_iff.1 hs) with rfl | hs
      · have hrest : (layersAt d.table path).dropLast ≠ [] := fun hnil => hne (List.isEmpty_iff.2 hnil)
        have hstack : Stack.Sound ⟨path, layersAt d.table path⟩ :=
          sound_layersAt hsound fun hnil => hrest (by rw [hnil]; rfl)
        exact .intro hstack.normal_path hrest (hstack.ascending_layers.sublist (List.dropLast_sublist _))
          fun l hl => hstack.sound_hidden (List.dropLast_subset _ hl)
      · exact hsound s (Stack.others_subset _ _ hs)

variable (hwf : d.document.WellFormed)

include hwf

/-- Without its newest layer, the stack of a path leaves the other layers of the list. -/
theorem flat_dropTop_perm {path : String} (hpath : normal path = path) {top : StackLayer}
    (htop : d.top? path = some top) :
    (flat (stacksOf (dropTop d.table path))).Perm
      (Layer.others (PlacedLayer.flat ⟨path, top⟩) d.document.layers) := by
  have hlist := top?_document hsound hwf hpath
  rw [htop, Option.map_some] at hlist
  have hmem := (hwf.ascending.top?_eq_some_iff.1 hlist).1
  have hothers := (layers_document_perm d).symm.trans (hwf.ascending.perm_cons_others hmem)
  have htop' := ((Stack.placed_top_perm htop).map PlacedLayer.flat).symm.trans hothers
  rw [Stack.flat_eq_map]
  exact ((Stack.placed_dropTop_perm d.table path).map _).trans htop'.cons_inv

/-- What is in the map after a release, and what is put back into it. -/
theorem flat_release_perm {path : String} (hpath : normal path = path) {top : StackLayer}
    (htop : d.top? path = some top) :
    (flat (stacksOf (takeBelow (dropTop d.table path) path).2) ++
        flat (Stack.keepOlder top.stamp (takeBelow (dropTop d.table path) path).1 ++ top.hidden)).Perm
      (Layer.release d.document.layers (Document.segments path)) := by
  have hlist := top?_document hsound hwf hpath
  rw [htop, Option.map_some] at hlist
  have hdropped := flat_dropTop_perm hsound hwf hpath htop
  obtain ⟨hunder, hapart⟩ := flat_takeBelow (sound_dropTop hsound path) hpath
  have hkept := (Stack.flat_keepOlder_perm top.stamp (takeBelow (dropTop d.table path) path).1)
  rw [hunder] at hkept
  rw [Layer.release_of_top? hlist, Stack.flat_append, hapart]
  refine List.Perm.trans ?_ (Layer.perm_byStamp _).symm
  refine (hdropped.filter _).append ((hkept.trans (Layer.keepOlder_perm (hdropped.filter _))).append ?_)
  exact (Layer.perm_byStamp _).symm

/-- Releasing the newest layer of a stack is releasing it in the list. -/
theorem document_release (location : String) :
    (Scope.release d location).document = Scope.release d.document location := by
  have hpath := Stack.normal_normal location
  rw [Document.release_eq, ← Stack.segments_normal]
  change (d.release location).document = _
  cases htop : d.top? (normal location) with
  | none =>
      have hlist := top?_document hsound hwf hpath
      rw [htop, Option.map_none] at hlist
      rw [Layer.release_of_none hlist, release_of_none htop]
  | some top =>
      have hascending := (Layer.WellFormed.release hwf (Document.segments (normal location))).ascending
      have hperm := flat_release_perm hsound hwf hpath htop
      rw [release_of_top? htop]
      refine congrArg (fun layers => Document.mk d.root layers d.clock)
        (Layer.byStamp_eq_of_perm (List.Perm.trans ?_ hperm) hascending)
      rw [← Stack.flat_append]
      refine Stack.flat_perm ((Stack.placed_restore_perm _ _).trans ?_)
      rw [Stack.placed_append (stacksOf _)]

theorem sound_release (location : String) : ∀ s ∈ stacksOf (d.release location).table, s.Sound := by
  have hpath := Stack.normal_normal location
  cases htop : d.top? (normal location) with
  | none =>
      rw [release_of_none htop]
      exact hsound
  | some top =>
      have hascending := (Layer.WellFormed.release hwf (Document.segments (normal location))).ascending
      have hnodup := ((flat_release_perm hsound hwf hpath htop).map Layer.stamp).nodup_iff.2
        hascending.nodup_stamps
      rw [← Stack.flat_append, Stack.flat_eq_map, List.map_map, Stack.placed_append] at hnodup
      obtain ⟨hbelow, hrest⟩ := sound_takeBelow (sound_dropTop hsound (normal location)) (normal location)
      rw [release_of_top? htop]
      refine sound_restore hrest (fun s hs => ?_) hnodup
      rcases List.mem_append.1 hs with hs | hs
      · exact Stack.sound_keepOlder hbelow s hs
      · have hmem : top ∈ layersAt d.table (normal location) := List.mem_of_getLast? htop
        exact (sound_layersAt hsound (List.ne_nil_of_mem hmem)).sound_hidden hmem s hs

end Releasing

/-! ## Whatever is done -/

/-- Documents that come from a new one by binding, hiding and releasing in any order. -/
inductive Reachable : StackDocument → Prop where
  | ofValue (root : Value) : Reachable (ofValue root)
  | bind {d : StackDocument} (h : Reachable d) (location : String) (node : Pointer) :
      Reachable (Scope.bind d location node)
  | hideBelow {d : StackDocument} (h : Reachable d) (location : String) :
      Reachable (Scope.hideBelow d location)
  | release {d : StackDocument} (h : Reachable d) (location : String) : Reachable (Scope.release d location)

theorem stacksOf_ofValue (root : Value) : stacksOf (ofValue root).table = [] := rfl

theorem document_ofValue (root : Value) : (ofValue root).document = Document.ofValue root := by
  rw [document, stacksOf_ofValue, flat]
  rfl

/-- The stacks of a reachable document are sound, and its layers in one list are a reachable document. -/
theorem Reachable.sound_and_document (h : Reachable d) :
    (∀ s ∈ stacksOf d.table, s.Sound) ∧ d.document.Reachable := by
  induction h with
  | ofValue root =>
      rw [stacksOf_ofValue, document_ofValue]
      exact ⟨fun s hs => absurd hs List.not_mem_nil, .ofValue root⟩
  | bind _ location node ih =>
      obtain ⟨hsound, hdocument⟩ := ih
      refine ⟨sound_bind hsound hdocument.wellFormed location node, ?_⟩
      rw [document_bind hdocument.wellFormed]
      exact hdocument.bind location node
  | hideBelow _ location ih =>
      obtain ⟨hsound, hdocument⟩ := ih
      refine ⟨sound_hideBelow hsound location, ?_⟩
      rw [document_hideBelow hsound hdocument.wellFormed]
      exact hdocument.hideBelow location
  | release _ location ih =>
      obtain ⟨hsound, hdocument⟩ := ih
      refine ⟨sound_release hsound hdocument.wellFormed location, ?_⟩
      rw [document_release hsound hdocument.wellFormed]
      exact hdocument.release location

theorem Reachable.sound (h : Reachable d) : ∀ s ∈ stacksOf d.table, s.Sound := h.sound_and_document.1

theorem Reachable.document (h : Reachable d) : d.document.Reachable := h.sound_and_document.2

/-! ## Look-ups -/

theorem nodup_eraseDups {α : Type} [BEq α] [LawfulBEq α] (as : List α) : as.eraseDups.Nodup := by
  generalize hlength : as.length = n
  induction n using Nat.strongRecOn generalizing as with
  | _ n ih =>
      cases as with
      | nil => exact .nil
      | cons a as =>
          have hshorter : (as.filter fun b => !b == a).length < n :=
            Nat.lt_of_le_of_lt (List.length_filter_le _ as) (by rw [← hlength]; exact Nat.lt_succ_self _)
          rw [List.eraseDups_cons]
          exact List.nodup_cons.2 ⟨by simp, ih _ hshorter _ rfl⟩

section Lookups

variable (h : d.Reachable)

include h

theorem Reachable.start?_eq {path : Path} (hpath : IsPath path) :
    d.start? path = Document.start? d.document.layers path := by
  have htop (n : Nat) : Layer.top? d.document.layers (path.take n) =
      (d.top? (pathText (path.take n))).map fun l => PlacedLayer.flat ⟨pathText (path.take n), l⟩ := by
    have hnormal := Stack.normal_pathText (hpath.take n)
    rw [← top?_document h.sound h.document.wellFormed hnormal, Stack.segments_pathText (hpath.take n)]
  simp only [start?, Document.start?, htop, Option.map_map]
  rfl

theorem Reachable.resolve_eq {path : Path} (hpath : IsPath path) (fromRoot : Bool) :
    d.resolve path fromRoot = d.document.resolve path fromRoot := by
  rw [resolve, h.start?_eq hpath, Document.resolve]
  rfl

theorem Reachable.textAt_eq (location key : String) (search : Bool) :
    d.textAt location key search = d.document.textAt location key search := by
  rw [textAt, h.resolve_eq (Stack.isPath_segments location), Document.textAt]
  rfl

theorem Reachable.bound?_eq (location : String) : d.bound? location = d.document.bound? location := by
  have hnormal := Stack.normal_normal location
  rw [bound?, Document.bound?, ← Stack.segments_normal,
    top?_document h.sound h.document.wellFormed hnormal, Option.bind_map]
  rfl

/-- A path has a stack exactly as long as it has a layer, so stacks are counted as paths are. -/
theorem Reachable.boundCount_eq : d.boundCount = d.document.boundCount := by
  have hpaths : d.document.boundPaths.Perm ((stacksOf d.table).map fun s => Document.segments s.path) := by
    refine (List.perm_ext_iff_of_nodup (nodup_eraseDups _) ?_).2 fun path => ?_
    · have hinj (s : Stack) (hs : s ∈ stacksOf d.table) (t : Stack) (ht : t ∈ stacksOf d.table)
          (heq : Document.segments s.path = Document.segments t.path) : s = t := by
        have hpath : s.path = t.path := by
          rw [← (h.sound s hs).normal_path, ← (h.sound t ht).normal_path, normal, heq, ← normal]
        exact List.inj_on_of_nodup_map (Stack.nodup_paths_stacksOf d.table) hs ht hpath
      exact (Stack.nodup_stacksOf d.table).map_on hinj
    · rw [List.mem_eraseDups, List.mem_map, List.mem_map]
      constructor
      · rintro ⟨l, hl, rfl⟩
        obtain ⟨x, hx, rfl⟩ := mem_layers_document.1 hl
        obtain ⟨s, hs, hpath, -⟩ := Stack.mem_placed.1 hx
        exact ⟨s, hs, congrArg Document.segments hpath⟩
      · rintro ⟨s, hs, rfl⟩
        obtain ⟨l, hl⟩ := List.exists_mem_of_ne_nil _ (h.sound s hs).layers_ne_nil
        exact ⟨_, mem_layers_document.2 ⟨⟨s.path, l⟩, Stack.mem_placed.2 ⟨s, hs, rfl, hl⟩, rfl⟩, rfl⟩
  have hlength := hpaths.length_eq
  rw [List.length_map, stacksOf, List.length_map, Std.TreeMap.length_toList] at hlength
  exact hlength.symm

/--
A document with stacks and the document with the same layers in one list cannot be told apart, and they stay
so whatever is done to both.
-/
theorem Reachable.refines :
    (∀ location, Scope.nodes d location = Scope.nodes d.document location) ∧
      (∀ location key search, Scope.text d location key search = Scope.text d.document location key search) ∧
      (∀ location, d.bound? location = d.document.bound? location) ∧
      d.boundCount = d.document.boundCount ∧
      (∀ location node, (Scope.bind d location node).document = Scope.bind d.document location node) ∧
      (∀ location, (Scope.hideBelow d location).document = Scope.hideBelow d.document location) ∧
      ∀ location, (Scope.release d location).document = Scope.release d.document location :=
  ⟨fun location => h.resolve_eq (Stack.isPath_segments location) true, h.textAt_eq, h.bound?_eq,
    h.boundCount_eq, document_bind h.document.wellFormed, document_hideBelow h.sound h.document.wellFormed,
    document_release h.sound h.document.wellFormed⟩

end Lookups

end SheetFill.Json.StackDocument

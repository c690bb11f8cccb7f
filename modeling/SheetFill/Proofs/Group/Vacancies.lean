import SheetFill.Proofs.Group.Points
import SheetFill.Proofs.Json.Environment

/-!
# Tiers without nodes

A tier without nodes has a placeholder, which shows its cells without their filters. Their values are those in
a document with nothing at or below the location of the tier. Other locations still have their texts, if they
are bound, and these show in a cell that names them as an alternative. So a placeholder is not always what
there would be without any data; it is if the cells ask for nothing but locations at or below that of the
tier, and unbound ones.

## Main definitions

* `NoData`, `Pruned` — no data at all, and a document without a path.
* `prunedCells` — the cells of a tier in a document without the location of the tier.
* `Detached` — a cell asks for nothing that is bound elsewhere.

## Main results

* `Document.sameTexts_hideBelow` — what is left to see below a path without nodes.
* `Block.rows_vacant` — the cells of placeholders.
* `Block.rows_vacant_with_data` — a placeholder that shows data.
-/

namespace SheetFill

/-! ## Data sources with less in them -/

/-- A data source without data. -/
structure NoData where

instance : Lookup NoData Empty where
  nodes _ _ := []
  text _ _ _ _ := ""

namespace Json

open Layer

/-- A document with nothing to be found at or below a path. -/
structure Pruned where
  document : Document
  path : Path

/-- Locations that do not start with the path are as in the document. -/
instance : Lookup Pruned Pointer where
  nodes p location :=
    if p.path <+: Document.segments location then [] else Lookup.nodes p.document location
  text p location key search :=
    if p.path <+: Document.segments location then "" else Lookup.text p.document location key search

/-- A path that leads nowhere from the root leads nowhere when a search is not allowed, either. -/
theorem Environment.resolve_of_fromRoot {e : Environment} {path : Path} (h : e.resolve path true = [])
    (search : Bool) : e.resolve path search = [] := by
  cases search with
  | true => exact h
  | false =>
      simp only [Environment.resolve] at h ⊢
      split
      · next node rest hstart => simpa only [hstart] using h
      · rfl

namespace Document

variable {d : Document} {path : String}

/-- At and below a path without nodes nothing is found once everything below it is hidden. -/
theorem resolve_hideBelow_of_prefix (hnodes : Scope.nodes d path = []) {below : Path}
    (hpre : segments path <+: below) (search : Bool) :
    (Scope.hideBelow d path).env.resolve below search = [] := by
  apply Environment.resolve_of_fromRoot
  obtain ⟨rest, rfl⟩ := hpre
  have hhidden : ∀ lower, isBelow (segments path) lower →
      (Scope.hideBelow d path).env.node? lower = none := by
    intro lower hlower
    simp [env_hideBelow hnodes, hlower]
  have hstart : (Scope.hideBelow d path).env.start? (segments path) = d.env.start? (segments path) := by
    apply Environment.start?_congr
    intro front hfront
    have habove : ¬ isBelow (segments path) front := fun hbelow =>
      absurd hfront.length_le (Nat.not_le.2 (isBelow_iff_longer.1 hbelow).2)
    simp [env_hideBelow hnodes, habove]
  have hempty : (Scope.hideBelow d path).env.resolve (segments path) true = [] := by
    rw [nodes_eq] at hnodes
    rw [Environment.resolve, hstart]
    exact hnodes
  rw [Environment.resolve_append hhidden, hempty, Environment.walk_nil]

/-- Elsewhere the same nodes are found as before. -/
theorem resolve_hideBelow_of_not_prefix (hnodes : Scope.nodes d path = []) {other : Path}
    (hpre : ¬ segments path <+: other) (search : Bool) :
    (Scope.hideBelow d path).env.resolve other search = d.env.resolve other search := by
  have hstart : (Scope.hideBelow d path).env.start? other = d.env.start? other := by
    apply Environment.start?_congr
    intro front hfront
    have hbelow : ¬ isBelow (segments path) front :=
      fun hbelow => hpre ((isBelow_iff_longer.1 hbelow).1.trans hfront)
    simp [env_hideBelow hnodes, hbelow]
  rw [Environment.resolve, hstart]
  rfl

/-- Hiding what is bound below a path without nodes leaves nothing to be found at or below it. -/
theorem sameTexts_hideBelow (hnodes : Scope.nodes d path = []) :
    SameTexts (Scope.hideBelow d path) (Pruned.mk d (segments path)) := by
  intro location key search
  change (Scope.hideBelow d path).textAt location key search =
    if segments path <+: segments location then "" else d.textAt location key search
  split
  · next hpre => rw [textAt, resolve_eq, resolve_hideBelow_of_prefix hnodes hpre]
  · next hpre =>
      rw [textAt, resolve_eq, resolve_hideBelow_of_not_prefix hnodes hpre, textAt, resolve_eq]
      rfl

end Document

end Json

namespace Group

/-! ## Vacant tiers of documents -/

open Json Json.Document

/-- The cells of a tier in a document with nothing at or below the location of the tier. -/
def prunedCells (d : Document) (tier : Tier) : List RowCell :=
  tier.evaluateBare (Pruned.mk d (segments tier.location))

/-- An expansion of a document evaluates a vacant tier as if nothing were at its location. -/
theorem vacantCells_eq {d : Document} {tier : Tier} (hnodes : Scope.nodes d tier.location = []) :
    vacantCells d tier = prunedCells d tier :=
  Tier.evaluateBare_congr ((sameTexts_hideBelow hnodes).on tier.locations)

/-- A cell refers to no data but at or below a path, and at locations that no bound path leads to. -/
def Detached (d : Document) (path : Path) (body : Cell.Body) : Prop :=
  ∀ location ∈ body.locations,
    path <+: segments location ∨ d.env.start? (segments location) = none

/-- A location that no bound path leads to has no text, unless a search is allowed. -/
theorem textAt_of_start?_eq_none {d : Document} {location : String}
    (h : d.env.start? (segments location) = none) (key : String) :
    d.textAt location key false = "" := by
  rw [textAt, resolve_eq, Environment.resolve, h]
  rfl

/-- Without what is at or below a path, such a cell has the value that it has without any data. -/
theorem Detached.value_eq {d : Document} {path : Path} {body : Cell.Body} (h : Detached d path body) :
    body.value (Pruned.mk d path) false = body.value NoData.mk false := by
  simp only [Cell.Body.value, Bool.false_and]
  congr 1
  refine List.map_congr_left fun r hr => ?_
  refine Cell.Reference.firstText_congr fun a ha hself => ?_
  have hmem : a.location ∈ body.locations :=
    List.mem_flatMap.2 ⟨r, hr, r.mem_locations ha hself⟩
  change (if path <+: segments a.location then "" else d.textAt a.location a.key false) = ""
  rcases h a.location hmem with hpre | hstart
  · rw [if_pos hpre]
  · rw [textAt_of_start?_eq_none hstart, ite_self]

/--
An expansion makes one row at each of its points. Where a tier has no node, its cells have no filters, and
the values that they have with nothing at or below the location of the tier. Those are the values without
any data for each cell that refers to nothing that is bound elsewhere.
-/
theorem Block.rows_vacant (b : Block) (d : Document) :
    List.Forall₂ (Row.MadeAt prunedCells b.nesting.tiers) (b.points d) (b.rows d).1 ∧
      ∀ (e : Document) (path : Path) (body : Cell.Body), Detached e path body →
        body.value (Pruned.mk e path) false = body.value NoData.mk false := by
  refine ⟨?_, fun e path body hdetached => hdetached.value_eq⟩
  rw [Block.rows, Walk.drain_ofTiers]
  exact (forall₂_points b.nesting.tiers d).imp fun _ _ hrow =>
    hrow.mono fun _ _ hnodes => vacantCells_eq hnodes

/-- A customer without orders has one row, which shows a dash for the missing order. -/
theorem Block.rows_vacant_customers :
    let name : Cell.Reference := ⟨.group, "customers.name", ⟨"customers", "name"⟩, []⟩
    let order : Cell.Reference :=
      ⟨.group, "customers.orders.id | -", ⟨"customers/orders", "id"⟩, [⟨"-", "."⟩]⟩
    let first : Cell.PlacedFormula := ⟨⟨0, 0⟩, ⟨⟨"#customers.name#", [.slot name]⟩, []⟩⟩
    let second : Cell.PlacedFormula :=
      ⟨⟨0, 1⟩, ⟨⟨"#customers.orders.id | -#", [.slot order]⟩, []⟩⟩
    let b : Block :=
      ⟨0, 1, 0, .fixed, none, ⟨[⟨"customers", [first]⟩, ⟨"customers/orders", [second]⟩]⟩⟩
    let d := ofValue (.object [("customers", .array
      [.object [("name", .string "Globex"), ("orders", .array [])]])])
    let orders := segments "customers/orders"
    (b.rows d).1 = [⟨[⟨0, "Globex", []⟩, ⟨1, "-", []⟩], true⟩] ∧
      Detached d orders second.formula.body ∧
      second.formula.body.value (Pruned.mk d orders) false = "-" := by
  intro name order first second b d orders
  have hdetached : Detached d orders second.formula.body := by
    have hlocations : second.formula.body.locations = ["customers/orders"] := rfl
    intro location hlocation
    rw [hlocations, List.mem_singleton] at hlocation
    exact .inl (hlocation ▸ List.prefix_refl _)
  refine ⟨?_, hdetached, ?_⟩
  · rw [Block.rows, Walk.drain_ofTiers]
    decide +kernel
  · rw [(Block.rows_vacant b d).2 d orders second.formula.body hdetached]
    decide +kernel

/--
The placeholder of a customer without orders shows the name of the customer, which is still bound, where
the cell of the orders names it as an alternative. Without any data the cell would be empty.
-/
theorem Block.rows_vacant_with_data :
    let name : Cell.Reference := ⟨.group, "customers.name", ⟨"customers", "name"⟩, []⟩
    let order : Cell.Reference := ⟨.group, "customers.orders.id | customers.name",
      ⟨"customers/orders", "id"⟩, [⟨"customers", "name"⟩]⟩
    let first : Cell.PlacedFormula := ⟨⟨0, 0⟩, ⟨⟨"#customers.name#", [.slot name]⟩, []⟩⟩
    let second : Cell.PlacedFormula :=
      ⟨⟨0, 1⟩, ⟨⟨"#customers.orders.id | customers.name#", [.slot order]⟩, []⟩⟩
    let b : Block :=
      ⟨0, 1, 0, .fixed, none, ⟨[⟨"customers", [first]⟩, ⟨"customers/orders", [second]⟩]⟩⟩
    let d := ofValue (.object [("customers", .array
      [.object [("name", .string "Globex"), ("orders", .array [])]])])
    (b.rows d).1 = [⟨[⟨0, "Globex", []⟩, ⟨1, "Globex", []⟩], true⟩] ∧
      ¬ List.Forall₂ (Row.MadeAt (fun _ tier => tier.evaluateBare NoData.mk) b.nesting.tiers)
        (b.points d) (b.rows d).1 := by
  intro name order first second b d
  have hrows : (b.rows d).1 = [⟨[⟨0, "Globex", []⟩, ⟨1, "Globex", []⟩], true⟩] := by
    rw [Block.rows, Walk.drain_ofTiers]
    decide +kernel
  have hcells : ∀ tier ∈ b.nesting.tiers,
      ¬ tier.evaluateBare NoData.mk <:+ [⟨0, "Globex", []⟩, ⟨1, "Globex", []⟩] := by decide +kernel
  refine ⟨hrows, fun h => ?_⟩
  rw [hrows] at h
  generalize b.points d = ps at h
  cases h with
  | cons hrow _ =>
      obtain ⟨tier, htier, hsuffix⟩ := hrow.exists_suffix rfl
      exact hcells tier htier hsuffix

end Group

end SheetFill

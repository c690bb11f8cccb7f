import SheetFill.Json.Document
import SheetFill.Proofs.Cell.Alternatives
import SheetFill.Proofs.Group.Expansion
import SheetFill.Proofs.Group.Nesting

/-!
# A literal at the end of a group reference

A text of one element may close the alternatives of a reference. It stands for itself where no other
alternative has a text, and no data is asked for it. In a group reference, though, it counts among the
locations: the group iterates over the deepest one, by its number of slashes, and a literal with more of them
than any location takes their place. A literal with no more slashes leaves the location as it is, and with it
the tier of the cell.

## Main results

* `Alternative.location_ne_empty` — no alternative has an empty location.
* `Reference.firstText_append_self` — a literal is the text where there is no other.
* `Reference.maxLocation_append_literal` — the location of a group reference with a literal at its end.
* `Reference.maxLocation_append_slash` — a literal that drives the iteration.
-/

namespace SheetFill

namespace Cell

open Text

/-! ## Alternatives -/

/-- What is read as an alternative has a character in its location. -/
theorem Alternative.exists_mem_location {segment : List Char} {a : Alternative}
    (h : Alternative.parse segment = .ok a) : ∃ c, c ∈ a.location.toList := by
  obtain ⟨hblank, rfl⟩ := Alternative.parse_eq_ok_iff.1 h
  have hne := (isElements_elements segment).nonempty
  have hfilled {e : List Char} (he : e ∈ elements segment) : ∃ c, c ∈ e ∧ isBlank c = false :=
    exists_mem_of_not_allBlank (by rw [hblank e he]; exact Bool.false_ne_true)
  generalize elements segment = es at hne hfilled
  obtain ⟨front, key, rfl⟩ := (List.eq_nil_or_concat es).resolve_left hne
  rw [List.concat_eq_append] at hfilled ⊢
  cases front with
  | nil =>
      obtain ⟨c, hc, -⟩ := hfilled List.mem_cons_self
      exact ⟨c, by rwa [List.nil_append, ofElements, String.toList_ofList]⟩
  | cons element front =>
      obtain ⟨c, hc, hcblank⟩ := hfilled List.mem_cons_self
      rw [ofElements_concat (List.cons_ne_nil _ _), String.toList_ofList]
      exact ⟨c, mem_joinWith (List.mem_map_of_mem List.mem_cons_self) (mem_trim hc hcblank)⟩

theorem Alternative.location_ne_empty {segment : List Char} {a : Alternative}
    (h : Alternative.parse segment = .ok a) : a.location ≠ "" := by
  obtain ⟨c, hc⟩ := Alternative.exists_mem_location h
  intro hempty
  rw [hempty] at hc
  cases hc

namespace Reference

section Value

variable {σ ν : Type} [Lookup σ ν]

/-- A literal at the end is the text of alternatives that have none. -/
theorem firstText_append_self {as : List Alternative} (h : ∀ a ∈ as, a.location ≠ "") {literal : Alternative}
    (hself : literal.isSelf = true) (s : σ) (search : Bool) :
    firstText s search (as ++ [literal]) =
      if firstText s search as = "" then literal.location else firstText s search as := by
  induction as with
  | nil => simp [firstText, hself]
  | cons a as ih =>
      rw [List.cons_append, firstText, firstText]
      by_cases ha : a.isSelf = true
      · rw [if_pos ha, if_pos ha, if_neg (h a List.mem_cons_self)]
      · rw [if_neg ha, if_neg ha]
        by_cases htext : (Lookup.text s a.location a.key search).isEmpty = true
        · simp only [htext, if_true]
          exact ih fun b hb => h b (List.mem_cons_of_mem _ hb)
        · have hne : Lookup.text s a.location a.key search ≠ "" := fun heq =>
            htext (String.isEmpty_iff.2 heq)
          simp only [htext, Bool.false_eq_true, if_false, if_neg hne]

end Value

/-! ## One more alternative -/

theorem maxLocation_concat (r : Reference) (a : Alternative) :
    maxLocation { r with rest := r.rest ++ [a] } =
      if r.maxLocation.toList.count '/' < a.depth then a.location else r.maxLocation := by
  rw [maxLocation, List.foldl_append, List.foldl_cons, List.foldl_nil, maxLocation, Alternative.depth]
  split <;> rfl

theorem parse_group_eq_ok_iff {body : List Char} {r : Reference} : parse .group body = .ok r ↔
    ∃ first rest, ((cut '|' body).mapM fun segment => Alternative.parse (trim segment)) =
      .ok (first :: rest) ∧ r = { mode := .group, source := String.ofList (trim body), first, rest } :=
  parse_eq_ok_iff fun h => nomatch h.1

/-- A text after a bar is one more alternative, whatever is before the bar. -/
theorem parse_append {body literal : List Char} {r : Reference} (hr : parse .group body = .ok r)
    (hbar : '|' ∉ literal) {a : Alternative} (ha : Alternative.parse (trim literal) = .ok a) :
    parse .group (body ++ '|' :: literal) = .ok
      { r with source := String.ofList (trim (body ++ '|' :: literal)), rest := r.rest ++ [a] } := by
  obtain ⟨first, rest, hparsed, rfl⟩ := parse_group_eq_ok_iff.1 hr
  refine parse_group_eq_ok_iff.2 ⟨first, rest ++ [a], ?_, rfl⟩
  rw [cut_append_cut, cut_of_not_mem hbar, List.mapM_append, hparsed, List.mapM_cons, ha]
  rfl

theorem location_ne_empty_of_parse {body : List Char} {r : Reference} (hr : parse .group body = .ok r) :
    ∀ a ∈ r.alternatives, a.location ≠ "" := by
  intro a hmem
  obtain ⟨first, rest, hparsed, rfl⟩ := parse_group_eq_ok_iff.1 hr
  obtain ⟨segment, -, hsegment⟩ := exists_of_mem_mapM hparsed hmem
  exact Alternative.location_ne_empty hsegment

end Reference

end Cell

namespace Group

open Cell

/-! ## The tier of a cell -/

theorem Tier.mem_insertCell_self (cell : PlacedFormula) (cells : List PlacedFormula) :
    cell ∈ Tier.insertCell cell cells :=
  (Tier.perm_insertCell cell cells).mem_iff.2 List.mem_cons_self

namespace Nesting

theorem exists_tier_addCell (cell : PlacedFormula) (tiers : List Tier) :
    ∃ t ∈ addCell cell tiers, cell ∈ t.cells ∧ t.location = cell.formula.body.maxLocation := by
  induction tiers with
  | nil => exact ⟨_, List.mem_cons_self, List.mem_cons_self, rfl⟩
  | cons t tiers ih =>
      rw [addCell]
      split
      · next ht => exact ⟨_, List.mem_cons_self, Tier.mem_insertCell_self cell t.cells, ht⟩
      · obtain ⟨t', hmem, ht'⟩ := ih
        exact ⟨t', List.mem_cons_of_mem _ hmem, ht'⟩

/-- A cell that is put into a nesting is in a tier of its own location. -/
theorem exists_tier_insert (n : Nesting) (cell : PlacedFormula) :
    ∃ t ∈ (n.insert cell).tiers, cell ∈ t.cells ∧ t.location = cell.formula.body.maxLocation := by
  obtain ⟨t, hmem, ht⟩ := exists_tier_addCell cell n.tiers
  exact ⟨t, (n.perm_tiers_insert cell).mem_iff.2 hmem, ht⟩

end Nesting

end Group

namespace Cell

open Text

theorem Body.maxLocation_of_firstGroup? {b : Body} {r : Reference} (h : b.firstGroup? = some r) :
    b.maxLocation = r.maxLocation := by
  simp [Body.maxLocation, h]

/--
A literal after the last bar of a group reference stands for itself where the reference has no text, in every
scope. Yet it takes the place of the location, and decides the tier of a cell, if it has more slashes.
-/
theorem Reference.maxLocation_append_literal {body literal : List Char} {r : Reference}
    (hr : Reference.parse .group body = .ok r) (hbar : '|' ∉ literal)
    (hliteral : Alternative.parse (trim literal) = .ok ⟨String.ofList (trim literal), selfKey⟩) :
    ∃ r', Reference.parse .group (body ++ '|' :: literal) = .ok r' ∧
      r'.alternatives = r.alternatives ++ [⟨String.ofList (trim literal), selfKey⟩] ∧
      (∀ {σ ν : Type} [Lookup σ ν] (s : σ) (search : Bool), r'.value s search =
        if r.value s search = "" then String.ofList (trim literal) else r.value s search) ∧
      r'.maxLocation = (if r.maxLocation.toList.count '/' < (trim literal).count '/'
        then String.ofList (trim literal) else r.maxLocation) ∧
      ∀ (n : Group.Nesting) (c : PlacedFormula), c.formula.body.firstGroup? = some r' →
        ∃ t ∈ (n.insert c).tiers, c ∈ t.cells ∧ t.location = r'.maxLocation := by
  refine ⟨_, Reference.parse_append hr hbar hliteral, rfl, ?_, ?_, ?_⟩
  · intro σ ν _ s search
    exact firstText_append_self (location_ne_empty_of_parse hr) rfl s search
  · have hdepth : Alternative.depth ⟨String.ofList (trim literal), selfKey⟩ = (trim literal).count '/' := by
      rw [Alternative.depth, String.toList_ofList]
    rw [← hdepth]
    exact maxLocation_concat r _
  · intro n c hc
    obtain ⟨t, hmem, hcell, hlocation⟩ := n.exists_tier_insert c
    exact ⟨t, hmem, hcell, hlocation.trans (Body.maxLocation_of_firstGroup? hc)⟩

/-- A literal with one slash leaves a location with one slash in its place. -/
theorem Reference.maxLocation_append_orders :
    let body := "customers.orders.id".toList
    let literal := " n/a".toList
    let r : Reference := ⟨.group, "customers.orders.id", ⟨"customers/orders", "id"⟩, []⟩
    let d := Json.Document.ofValue (.object [("customers", .array [])])
    Reference.parse .group body = .ok r ∧ '|' ∉ literal ∧
      Alternative.parse (trim literal) = .ok ⟨String.ofList (trim literal), selfKey⟩ ∧
      ∃ r', Reference.parse .group (body ++ '|' :: literal) = .ok r' ∧ r'.value d false = "n/a" ∧
        r'.maxLocation = "customers/orders" := by
  intro body literal r d
  have hr : Reference.parse .group body = .ok r := by decide +kernel
  have hbar : '|' ∉ literal := by decide
  have hliteral : Alternative.parse (trim literal) = .ok ⟨String.ofList (trim literal), selfKey⟩ := by
    decide +kernel
  obtain ⟨r', hparse, -, hvalue, hlocation, -⟩ :=
    Reference.maxLocation_append_literal hr hbar hliteral
  refine ⟨hr, hbar, hliteral, r', hparse, ?_, ?_⟩
  · rw [hvalue d false]
    decide +kernel
  · rw [hlocation]
    decide +kernel

/--
A literal with one slash takes the place of a location without any. The rows of the items are lost for one
placeholder.
-/
theorem Reference.maxLocation_append_slash :
    let body := "items.name".toList
    let literal := " N/A".toList
    let r : Reference := ⟨.group, "items.name", ⟨"items", "name"⟩, []⟩
    let r' : Reference := ⟨.group, "items.name| N/A", ⟨"items", "name"⟩, [⟨"N/A", "."⟩]⟩
    let block (text : String) (r : Reference) :=
      Group.Block.ofCells 0 1 0 .fixed [⟨⟨0, 0⟩, ⟨⟨text, [.slot r]⟩, []⟩⟩]
    let d := Json.Document.ofValue (.object [("items",
      .array [.object [("name", .string "pen")], .object [("name", .string "ink")]])])
    Reference.parse .group body = .ok r ∧
      Alternative.parse (trim literal) = .ok ⟨String.ofList (trim literal), selfKey⟩ ∧
      Reference.parse .group (body ++ '|' :: literal) = .ok r' ∧ r'.maxLocation ≠ r.maxLocation ∧
      ((block "#items.name#" r).rows d).1 = [⟨[⟨0, "pen", []⟩], false⟩, ⟨[⟨0, "ink", []⟩], false⟩] ∧
      ((block "#items.name| N/A#" r').rows d).1 = [⟨[⟨0, "N/A", []⟩], true⟩] := by
  intro body literal r r' block d
  refine ⟨by decide +kernel, by decide +kernel, by decide +kernel, by decide +kernel, ?_, ?_⟩
  · rw [Group.Block.rows, Group.Walk.drain_ofTiers]
    decide +kernel
  · rw [Group.Block.rows, Group.Walk.drain_ofTiers]
    decide +kernel

end Cell

end SheetFill

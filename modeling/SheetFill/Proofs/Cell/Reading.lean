import SheetFill.Group.Row

/-!
# Cells see texts alone

What a cell shows is made of literal texts and of the texts that a data source has under the keys of its
references. So two data sources that answer these requests alike give the cell the same value and the same
filters, whatever else may tell them apart: the type of their nodes, what is bound in them, what they
remember of their past, or what they have at locations that the cell does not ask for.

## Main definitions

* `Formula.alternatives` — the alternatives in a cell, which are its requests.
* `Formula.locations`, `Tier.locations` — the locations that cells ask for texts.
* `SameAnswers` — alike in the requests of some alternatives.
* `SameTextsOn`, `SameTexts` — alike at some locations, and at all.

## Main results

* `Formula.resolve_of_sameAnswers`, `Formula.resolve_congr` — value and filters of a cell.
* `Tier.evaluate_congr`, `Tier.evaluateBare_congr` — the cells of a tier.
-/

namespace SheetFill

/-! ## Alternatives and locations -/

namespace Cell

/-- The alternatives in a cell body. -/
def Body.alternatives (b : Body) : List Alternative := b.references.flatMap Reference.alternatives

/-- The alternatives in the arguments of a filter. -/
def FilterCall.alternatives (f : FilterCall) : List Alternative := f.args.flatMap Body.alternatives

/-- The alternatives in a cell, those in its filters included. -/
def Formula.alternatives (f : Formula) : List Alternative :=
  f.body.alternatives ++ f.filters.flatMap FilterCall.alternatives

/-- The locations of the alternatives that refer to data. -/
def Reference.locations (r : Reference) : List String :=
  (r.alternatives.filter fun a => !a.isSelf).map Alternative.location

/-- The locations in a cell body. -/
def Body.locations (b : Body) : List String := b.references.flatMap Reference.locations

/-- The locations in the arguments of a filter. -/
def FilterCall.locations (f : FilterCall) : List String := f.args.flatMap Body.locations

/-- The locations in a cell, those in its filters included. -/
def Formula.locations (f : Formula) : List String :=
  f.body.locations ++ f.filters.flatMap FilterCall.locations

end Cell

/-- The location of a tier and those in its cells. -/
def Group.Tier.locations (t : Group.Tier) : List String :=
  t.location :: t.cells.flatMap fun c => c.formula.locations

/-! ## Sources that have the same texts -/

section Sources

variable {σ ν τ μ : Type} [Lookup σ ν] [Lookup τ μ]

/-- Requests for texts at some locations are answered alike in both states. -/
def SameTextsOn (locations : List String) (s : σ) (t : τ) : Prop :=
  ∀ location ∈ locations, ∀ (key : String) (search : Bool),
    Lookup.text s location key search = Lookup.text t location key search

/-- Every request for a text is answered alike in both states. -/
def SameTexts (s : σ) (t : τ) : Prop :=
  ∀ (location key : String) (search : Bool),
    Lookup.text s location key search = Lookup.text t location key search

variable {s : σ} {t : τ}

theorem SameTexts.on (h : SameTexts s t) (locations : List String) : SameTextsOn locations s t :=
  fun location _ => h location

theorem SameTextsOn.mono {few many : List String} (h : SameTextsOn many s t) (hsub : few ⊆ many) :
    SameTextsOn few s t :=
  fun location hlocation => h location (hsub hlocation)

/-- Where sources are alike at the locations of a list of things, they are alike at those of each. -/
theorem SameTextsOn.of_mem {α : Type} {f : α → List String} {things : List α} {a : α}
    (h : SameTextsOn (things.flatMap f) s t) (ha : a ∈ things) : SameTextsOn (f a) s t :=
  h.mono fun _ hlocation => List.mem_flatMap.2 ⟨a, ha, hlocation⟩

namespace Cell

/-- Requests of some alternatives for texts are answered alike in both states. -/
def SameAnswers (alternatives : List Alternative) (s : σ) (t : τ) : Prop :=
  ∀ a ∈ alternatives, a.isSelf = false → ∀ search : Bool,
    Lookup.text s a.location a.key search = Lookup.text t a.location a.key search

theorem SameAnswers.mono {few many : List Alternative} (h : SameAnswers many s t) (hsub : few ⊆ many) :
    SameAnswers few s t :=
  fun a ha => h a (hsub ha)

/-- Where the requests of a list of things are answered alike, so are those of each. -/
theorem SameAnswers.of_mem {α : Type} {f : α → List Alternative} {things : List α} {x : α}
    (h : SameAnswers (things.flatMap f) s t) (hx : x ∈ things) : SameAnswers (f x) s t :=
  h.mono fun _ ha => List.mem_flatMap.2 ⟨x, hx, ha⟩

/-! ### Values -/

theorem Reference.firstText_congr {search : Bool} {chain : List Alternative}
    (h : ∀ a ∈ chain, a.isSelf = false →
      Lookup.text s a.location a.key search = Lookup.text t a.location a.key search) :
    Reference.firstText s search chain = Reference.firstText t search chain := by
  induction chain with
  | nil => rfl
  | cons a rest ih =>
      have hrest := ih fun b hb => h b (List.mem_cons_of_mem _ hb)
      cases hself : a.isSelf with
      | true => simp only [Reference.firstText, hself, if_true]
      | false =>
          have hfirst := h a List.mem_cons_self hself
          simp only [Reference.firstText, hself, hfirst, hrest]

theorem Reference.value_of_sameAnswers {r : Reference} (h : SameAnswers r.alternatives s t)
    (search : Bool) : r.value s search = r.value t search :=
  Reference.firstText_congr fun a ha hself => h a ha hself search

theorem Body.value_of_sameAnswers {b : Body} (h : SameAnswers b.alternatives s t) (search : Bool) :
    b.value s search = b.value t search := by
  have hvalues : (b.references.map fun r => r.value s (search && !b.isGroup)) =
      b.references.map fun r => r.value t (search && !b.isGroup) := by
    refine List.map_congr_left fun r hr => ?_
    exact Reference.value_of_sameAnswers (h.of_mem hr) _
  rw [Body.value, hvalues, Body.value]

theorem FilterCall.invoke_of_sameAnswers {f : FilterCall} (h : SameAnswers f.alternatives s t) :
    f.invoke s = f.invoke t := by
  have hvalues : (f.args.map fun arg => arg.value s true) = f.args.map fun arg => arg.value t true := by
    refine List.map_congr_left fun arg harg => ?_
    exact Body.value_of_sameAnswers (h.of_mem harg) true
  rw [FilterCall.invoke, hvalues, FilterCall.invoke]

/-- A cell has the same value and the same filters in both states, if its requests are answered alike. -/
theorem Formula.resolve_of_sameAnswers {f : Formula} (h : SameAnswers f.alternatives s t)
    (search : Bool) : f.resolve s search = f.resolve t search := by
  have hbody := Body.value_of_sameAnswers (h.mono (List.subset_append_left _ _)) search
  have hfilters : SameAnswers (f.filters.flatMap FilterCall.alternatives) s t :=
    h.mono (List.subset_append_right _ _)
  have hinvocations : (f.filters.map fun filter => filter.invoke s) =
      f.filters.map fun filter => filter.invoke t := by
    refine List.map_congr_left fun filter hfilter => ?_
    exact FilterCall.invoke_of_sameAnswers (hfilters.of_mem hfilter)
  rw [Formula.resolve, hbody, hinvocations, Formula.resolve]

/-! ### Requests at some locations -/

/-- The locations of a reference are those of its alternatives that refer to data. -/
theorem Reference.mem_locations {r : Reference} {a : Alternative} (ha : a ∈ r.alternatives)
    (hself : a.isSelf = false) : a.location ∈ r.locations :=
  List.mem_map.2 ⟨a, List.mem_filter.2 ⟨ha, by simp [hself]⟩, rfl⟩

theorem Body.mem_locations {b : Body} {a : Alternative} (ha : a ∈ b.alternatives)
    (hself : a.isSelf = false) : a.location ∈ b.locations := by
  obtain ⟨r, hr, ha⟩ := List.mem_flatMap.1 ha
  exact List.mem_flatMap.2 ⟨r, hr, r.mem_locations ha hself⟩

theorem FilterCall.mem_locations {f : FilterCall} {a : Alternative} (ha : a ∈ f.alternatives)
    (hself : a.isSelf = false) : a.location ∈ f.locations := by
  obtain ⟨arg, harg, ha⟩ := List.mem_flatMap.1 ha
  exact List.mem_flatMap.2 ⟨arg, harg, arg.mem_locations ha hself⟩

theorem Formula.mem_locations {f : Formula} {a : Alternative} (ha : a ∈ f.alternatives)
    (hself : a.isSelf = false) : a.location ∈ f.locations := by
  rcases List.mem_append.1 ha with ha | ha
  · exact List.mem_append_left _ (f.body.mem_locations ha hself)
  · obtain ⟨filter, hfilter, ha⟩ := List.mem_flatMap.1 ha
    exact List.mem_append_right _ (List.mem_flatMap.2 ⟨filter, hfilter, filter.mem_locations ha hself⟩)

theorem Body.value_congr {b : Body} (h : SameTextsOn b.locations s t) (search : Bool) :
    b.value s search = b.value t search :=
  Body.value_of_sameAnswers (fun a ha hself => h a.location (b.mem_locations ha hself) a.key) search

/-- A cell has the same value and the same filters in both states. -/
theorem Formula.resolve_congr {f : Formula} (h : SameTextsOn f.locations s t) (search : Bool) :
    f.resolve s search = f.resolve t search :=
  Formula.resolve_of_sameAnswers (fun a ha hself => h a.location (f.mem_locations ha hself) a.key) search

end Cell

namespace Group

variable {tier : Tier}

/-- Where sources are alike at the locations of a tier, they are alike at those of each of its cells. -/
theorem SameTextsOn.of_mem_cells (h : SameTextsOn tier.locations s t) {c : Cell.PlacedFormula}
    (hc : c ∈ tier.cells) : SameTextsOn c.formula.locations s t :=
  (h.mono (List.subset_cons_self _ _)).of_mem hc

theorem Tier.evaluate_congr (h : SameTextsOn tier.locations s t) :
    tier.evaluate s = tier.evaluate t := by
  refine List.map_congr_left fun c hc => ?_
  rw [Cell.Formula.resolve_congr (SameTextsOn.of_mem_cells h hc) false]

theorem Tier.evaluateBare_congr (h : SameTextsOn tier.locations s t) :
    tier.evaluateBare s = tier.evaluateBare t := by
  refine List.map_congr_left fun c hc => ?_
  have hbody : SameTextsOn c.formula.body.locations s t :=
    (SameTextsOn.of_mem_cells h hc).mono (List.subset_append_left _ _)
  rw [Cell.Body.value_congr hbody false]

end Group

end Sources

end SheetFill

import SheetFill.Proofs.Json.Places
import SheetFill.Proofs.Template.Isolation

/-!
# Sheets of sibling nodes

A sheet plan whose name starts at a location is filled once for every node there. If all locations of the plan
are that location or lie below it, then each of its output sheets shows the data of its own node: every
look-up starts at a bound path at or below the location, and all nodes bound there lie under the node of the
sheet. What the document has at the other nodes is not seen, although groups bind, hide and release nodes
all along, and although the search for a text may go back to the root when nothing is bound.

## Main definitions

* `Environment.AgreeBelow` — environments that are alike at and below a path.
* `SheetPlan.locations` — the locations of a plan.
* `nameless` — an output sheet but for its name.

## Main results

* `Environment.AgreeBelow.resolve_eq`, `Environment.AgreeBelow.enter` — look-ups below the path are
  answered alike, and go on to be when a node found there is entered.
* `lexicalRows_agree` — one group.
* `SheetPlan.within_agree` — one output sheet.
* `Plan.fill_siblings` — the output sheet of a node in a workbook, whatever becomes of the other nodes.
-/

namespace SheetFill

namespace Json.Environment

open Layer Pointer Document

/--
Environments that are alike at and below a path: the same nodes are bound, one of them to the path, and those
bound at or below it lie under one place, which has the same value in both.
-/
structure AgreeBelow (path : Path) (place : Pointer) (e e' : Environment) : Prop where
  node?_eq : e'.node? = e.node?
  bound : ∃ node, e.node? path = some node
  under : ∀ lower, path <+: lower → ∀ node, e.node? lower = some node → Under place node
  value_eq : place.resolve e'.root = place.resolve e.root

namespace AgreeBelow

variable {path : Path} {place : Pointer} {e e' : Environment}

/-- A look-up below the path starts at a node under the place. -/
theorem start?_eq (h : AgreeBelow path place e e') {query : Path} (hquery : path <+: query) :
    ∃ node rest, e.start? query = some (node, rest) ∧ e'.start? query = some (node, rest) ∧
      Under place node := by
  have hsame : e'.start? query = e.start? query := start?_congr fun front _ => by rw [h.node?_eq]
  obtain ⟨bound, hbound⟩ := h.bound
  cases hstart : e.start? query with
  | none =>
      have hnone := start?_eq_none_iff.1 hstart path hquery
      rw [hbound] at hnone
      cases hnone
  | some found =>
      obtain ⟨node, rest⟩ := found
      obtain ⟨front, hfront, hnode, hmax⟩ := start?_eq_some_iff.1 hstart
      have hpre : front <+: query := by
        rw [hfront]
        exact List.prefix_append front rest
      have hbelow : path <+: front := by
        rcases List.prefix_or_prefix_of_prefix hquery hpre with hbelow | habove
        · exact hbelow
        · -- nothing above the path is the longest start
          by_cases hlength : front.length < path.length
          · have hnone := hmax path (isBelow_iff_longer.2 ⟨habove, hlength⟩) hquery
            rw [hbound] at hnone
            cases hnone
          · have hsamePath : front = path := habove.eq_of_length_le (Nat.le_of_not_lt hlength)
            subst hsamePath
            exact List.prefix_refl front
      exact ⟨node, rest, rfl, hsame.trans hstart, h.under front hbelow node hnode⟩

/-- Look-ups below the path are answered alike, by nodes under the place. -/
theorem resolve_eq (h : AgreeBelow path place e e') {query : Path} (hquery : path <+: query)
    (fromRoot : Bool) :
    e'.resolve query fromRoot = e.resolve query fromRoot ∧
      ∀ node ∈ e.resolve query fromRoot, Under place node := by
  obtain ⟨node, rest, hstart, hstart', hunder⟩ := h.start?_eq hquery
  have hwalk := walk_under h.value_eq (List.forall_mem_singleton.2 hunder) rest
  simp only [resolve, hstart, hstart']
  exact hwalk

theorem sameTextsOn (h : AgreeBelow path place e e') {locations : List String}
    (hlocations : ∀ location ∈ locations, path <+: segments location) :
    SameTextsOn locations e' e := by
  intro location hlocation key search
  obtain ⟨hresolve, hunder⟩ := h.resolve_eq (hlocations location hlocation) search
  show e'.textAt location key search = e.textAt location key search
  rw [textAt, hresolve, textAt]
  cases hnodes : e.resolve (segments location) search with
  | nil => rfl
  | cons node nodes =>
      have hvalue := (hunder node (by rw [hnodes]; exact List.mem_cons_self)).resolve_eq h.value_eq
      simp only [hvalue]

/-- Environments stay alike when a node under the place is entered below the path. -/
theorem enter (h : AgreeBelow path place e e') {lower : Path} (hlower : path <+: lower)
    {node : Pointer} (hnode : Under place node) :
    AgreeBelow path place (e.enter lower node) (e'.enter lower node) where
  node?_eq := by
    rw [Environment.enter, h.node?_eq, Environment.enter]
  bound := by
    by_cases hpath : path = lower
    · exact ⟨node, by simp [Environment.enter, hpath]⟩
    · have hbelow : ¬ isBelow lower path := by
        intro hbelow
        have := (isBelow_iff_longer.1 hbelow).2
        have := hlower.length_le
        omega
      obtain ⟨bound, hbound⟩ := h.bound
      exact ⟨bound, by simp [Environment.enter, hpath, hbelow, hbound]⟩
  under other hother found hfound := by
    simp only [Environment.enter] at hfound
    split at hfound
    · rw [← Option.some.inj hfound]
      exact hnode
    · split at hfound
      · cases hfound
      · exact h.under other hother found hfound
  value_eq := h.value_eq

end AgreeBelow

/-- With one node bound, environments are alike below its path if the node has the same value in both. -/
theorem agreeBelow_enter {root root' : Value} (path : Path) {place : Pointer}
    (h : place.resolve root' = place.resolve root) :
    AgreeBelow path place ((ofValue root).enter path place) ((ofValue root').enter path place) where
  node?_eq := rfl
  bound := ⟨place, by simp [enter]⟩
  under other _ found hfound := by
    simp only [enter] at hfound
    split at hfound
    · rw [← Option.some.inj hfound]
      exact under_refl place
    · split at hfound
      · cases hfound
      · cases hfound
  value_eq := h

end Json.Environment

open Json Json.Document

/-! ## One group -/

/-- A group has the same rows in environments that are alike below a path, if its locations lie there. -/
theorem Group.lexicalRows_agree {path : Path} {place : Pointer} {e e' : Environment}
    (h : e.AgreeBelow path place e') {tiers : List Tier}
    (hlocations : ∀ location ∈ tiers.flatMap Tier.locations, path <+: segments location) :
    lexicalRows tiers e' = lexicalRows tiers e := by
  induction tiers generalizing e e' with
  | nil => rfl
  | cons tier inner ih =>
      rw [List.flatMap_cons] at hlocations
      obtain ⟨hown, hinner⟩ := List.forall_mem_append.1 hlocations
      have hlocation : path <+: segments tier.location := hown tier.location List.mem_cons_self
      obtain ⟨hresolve, hunder⟩ := h.resolve_eq hlocation true
      have hnodes : Lookup.nodes e' tier.location = Lookup.nodes e tier.location := hresolve
      simp only [lexicalRows, hnodes]
      cases hfound : Lookup.nodes e tier.location with
      | nil => simp only [Tier.evaluateBare_congr (h.sameTextsOn hown)]
      | cons node nodes =>
          refine List.flatMap_congr fun n hn => ?_
          have hplace : Pointer.Under place n := by
            refine hunder n ?_
            show n ∈ Lookup.nodes e tier.location
            rw [hfound]
            exact hn
          have hentered := h.enter hlocation hplace
          simp only [Tier.evaluate_congr (hentered.sameTextsOn hown), ih hentered hinner]

namespace Template

open Cell SheetFill.Group Output

/-! ## One output sheet -/

/-- The locations of a plan: those of its name, of its cells and of its tiers. -/
def SheetPlan.locations (t : SheetPlan) : List String :=
  t.name.locations ++ t.flat.flatMap (fun c => c.formula.locations) ++
    t.groups.flatMap fun b => b.nesting.tiers.flatMap Tier.locations

/-- The document in which a node of a location is bound. -/
theorem entered_ofValue {root : Value} {top : String} (hnodes : Scope.nodes (ofValue root) top ≠ [])
    (node : Pointer) :
    let d := Scope.enter (ofValue root) top node
    d.WellFormed ∧ d.env.Backed ∧ d.env = (Environment.ofValue root).enter (segments top) node := by
  intro d
  have hnew := wellFormed_ofValue root
  have henv : d.env = (Environment.ofValue root).enter (segments top) node := hnew.env_enter top node
  rw [nodes_eq] at hnodes
  refine ⟨hnew.enter top node, ?_, henv⟩
  rw [henv]
  exact (Environment.backed_ofValue root).enter hnodes node

/-- The output sheet of a node depends on the value of the node, if all locations lie below its own. -/
theorem SheetPlan.within_agree {plan : SheetPlan} {top : String}
    (hbelow : ∀ location ∈ plan.locations, segments top <+: segments location) {root root' : Value}
    {node : Pointer} (hnodes : Scope.nodes (ofValue root) top ≠ [])
    (hnodes' : Scope.nodes (ofValue root') top ≠ [])
    (hvalue : node.resolve root' = node.resolve root) :
    (Scope.within (ofValue root') top node (plan.fill true)).1 =
      (Scope.within (ofValue root) top node (plan.fill true)).1 := by
  obtain ⟨hd, hbacked, henv⟩ := entered_ofValue hnodes node
  obtain ⟨hd', hbacked', henv'⟩ := entered_ofValue hnodes' node
  have hagree := Environment.agreeBelow_enter (segments top) hvalue
  rw [← henv, ← henv'] at hagree
  obtain ⟨hcells, hgroups⟩ := List.forall_mem_append.1 hbelow
  obtain ⟨hname, hflat⟩ := List.forall_mem_append.1 hcells
  refine plan.fill_of_rows_eq true hd hd' hbacked hbacked' (fun b hb => ?_)
    (hagree.sameTextsOn hname) (hagree.sameTextsOn hflat)
  refine lexicalRows_agree hagree fun location hlocation => hgroups location ?_
  exact List.mem_flatMap.2 ⟨b, hb, hlocation⟩

/-! ## Workbooks -/

/-- An output sheet but for its name. -/
def nameless (item : Except FillError Sheet) : Except FillError Sheet :=
  item.map fun sheet => { sheet with name := "" }

theorem map_nameless_nameItems (names : SheetNames) (items : List (Except FillError Sheet)) :
    (nameItems names items).map nameless = items.map nameless := by
  induction items generalizing names with
  | nil => rfl
  | cons item items ih =>
      cases item with
      | error e => rw [nameItems, List.map_cons, List.map_cons, ih]
      | ok sheet =>
          rw [nameItems, List.map_cons, List.map_cons, ih]
          rfl

/-- Names are given to output sheets, and nothing else is done to them. -/
theorem map_nameless_namedApart (p : Plan) (root : Value) :
    (p.namedApart root).map nameless = (p.itemsApart root).map nameless := by
  rw [Plan.namedApart]
  split
  · exact map_nameless_nameItems _ _
  · rfl

/-- A filled workbook has the output sheets filled apart, but for their names. -/
theorem Plan.map_nameless_fill (p : Plan) (root : Value) :
    (p.fill (ofValue root)).1.map nameless = (p.itemsApart root).map nameless := by
  rw [p.fill_eq_namedApart, map_nameless_namedApart]

/-- The output sheets of a plan come after those of the plans before it. -/
theorem Plan.getElem?_itemsApart (before after : List SheetPlan) (plan : SheetPlan) (root : Value)
    {i : Nat} (hi : i < (plan.itemsApart root).length) (normalizeNames : Bool) :
    (Plan.itemsApart ⟨before ++ plan :: after, normalizeNames⟩ root)[
        (Plan.fill ⟨before, normalizeNames⟩ (ofValue root)).1.length + i]? =
      (plan.itemsApart root)[i]? := by
  have hlength : (Plan.fill ⟨before, normalizeNames⟩ (ofValue root)).1.length =
      (before.flatMap fun plan => plan.itemsApart root).length := by
    have hmap := congrArg List.length (Plan.map_nameless_fill ⟨before, normalizeNames⟩ root)
    rwa [List.length_map, List.length_map] at hmap
  rw [hlength, Plan.itemsApart, List.flatMap_append, List.flatMap_cons,
    List.getElem?_append_right (Nat.le_add_right _ _), Nat.add_sub_cancel_left,
    List.getElem?_append_left hi]

/--
The output sheet of a node in a workbook, if all locations of its plan lie at or below that of the node. It
shows nothing of the other nodes: with other values in their places, the sheet is the same, and if names are
made unique afterwards, it is the same but for its name.
-/
theorem Plan.fill_siblings {plan : SheetPlan} {top : String} (hname : plan.nameLocation? = some top)
    (hbelow : ∀ location ∈ plan.locations, segments top <+: segments location) {root root' : Value}
    (hnodes : Scope.nodes (ofValue root') top = Scope.nodes (ofValue root) top) {i : Nat}
    (hi : i < (Scope.nodes (ofValue root) top).length)
    (hdiffer : DifferInside ((Scope.nodes (ofValue root) top).eraseIdx i) root root')
    (before after : List SheetPlan) :
    let sheetAt (normalizeNames : Bool) (document : Value) : Option (Except FillError Sheet) :=
      (Plan.fill ⟨before ++ plan :: after, normalizeNames⟩ (ofValue document)).1[
        (Plan.fill ⟨before, normalizeNames⟩ (ofValue document)).1.length + i]?
    ∃ item, ∀ document, document = root ∨ document = root' →
      sheetAt false document = some item ∧
        (sheetAt true document).map nameless = some (nameless item) := by
  intro sheetAt
  let node := (Scope.nodes (ofValue root) top)[i]
  let item := (Scope.within (ofValue root) top node (plan.fill true)).1
  have hne : Scope.nodes (ofValue root) top ≠ [] := List.ne_nil_of_length_pos (by omega)
  have hvalue : node.resolve root' = node.resolve root := hdiffer.resolve_node_eq hi
  have hsame : (Scope.within (ofValue root') top node (plan.fill true)).1 = item :=
    SheetPlan.within_agree hbelow hne (by rwa [hnodes]) hvalue
  refine ⟨item, fun document hdocument => ?_⟩
  have hitems : plan.itemsApart document = (Scope.nodes (ofValue root) top).map fun node =>
      (Scope.within (ofValue document) top node (plan.fill true)).1 := by
    simp only [SheetPlan.itemsApart, hname]
    rcases hdocument with rfl | rfl
    · rfl
    · rw [hnodes]
  have hlength : i < (plan.itemsApart document).length := by
    rwa [hitems, List.length_map]
  have hitem : (plan.itemsApart document)[i]? = some item := by
    rw [hitems, List.getElem?_map, List.getElem?_eq_getElem hi]
    rcases hdocument with rfl | rfl
    · rfl
    · exact congrArg some hsame
  have hplace (normalizeNames : Bool) :=
    (Plan.getElem?_itemsApart before after plan document hlength normalizeNames).trans hitem
  constructor
  · have hfill : (Plan.fill ⟨before ++ plan :: after, false⟩ (ofValue document)).1 =
        Plan.itemsApart ⟨before ++ plan :: after, false⟩ document :=
      Filling.drain_eq (Plan.between_ofPlan _ document)
    simp only [sheetAt, hfill]
    exact hplace false
  · simp only [sheetAt]
    rw [← List.getElem?_map, Plan.map_nameless_fill, List.getElem?_map, hplace true]
    rfl

/-- The sheet of the second customer is the same whoever the first one is. -/
theorem Plan.fill_siblings_customers :
    let reference (mode : Mode) (source location key : String) : Part :=
      .slot ⟨mode, source, ⟨location, key⟩, []⟩
    let city : Body := ⟨"$customers.city$", [reference .plain "customers.city" "customers" "city"]⟩
    let order : Body :=
      ⟨"#customers.orders.id#", [reference .group "customers.orders.id" "customers/orders" "id"]⟩
    let plan : SheetPlan :=
      { index := 0
        name := ⟨"$customers.name$", [reference .plain "customers.name" "customers" "name"]⟩
        flat := [⟨⟨0, 0⟩, ⟨city, []⟩⟩]
        groups := [⟨1, 2, 0, .grow, none, ⟨[⟨"customers/orders", [⟨⟨1, 0⟩, ⟨order, []⟩⟩]⟩]⟩⟩] }
    let customer (name city : String) (orders : List String) : Value :=
      .object [("name", .string name), ("city", .string city),
        ("orders", .array (orders.map fun id => .object [("id", .string id)]))]
    let root : Value := .object [("customers", .array [customer "Ada" "Rome" ["1"],
      customer "Ben" "Oslo" ["2", "3"]])]
    let first := (Pointer.root.key "customers").index 0
    let root' := first.replace (customer "Eve" "Bern" ["8", "9"]) root
    plan.nameLocation? = some "customers" ∧
      (∀ location ∈ plan.locations, segments "customers" <+: segments location) ∧
      Scope.nodes (ofValue root') "customers" = Scope.nodes (ofValue root) "customers" ∧
      1 < (Scope.nodes (ofValue root) "customers").length ∧
      DifferInside ((Scope.nodes (ofValue root) "customers").eraseIdx 1) root root' ∧
      (Plan.fill ⟨[plan], false⟩ (ofValue root')).1[1]? =
        (Plan.fill ⟨[plan], false⟩ (ofValue root)).1[1]? := by
  intro reference city order plan customer root first root'
  have hname : plan.nameLocation? = some "customers" := rfl
  have hbelow : ∀ location ∈ plan.locations, segments "customers" <+: segments location := by
    decide +kernel
  have hnodes : Scope.nodes (ofValue root') "customers" = Scope.nodes (ofValue root) "customers" := by
    decide +kernel
  have hi : 1 < (Scope.nodes (ofValue root) "customers").length := by decide +kernel
  have hfirst : first ∈ (Scope.nodes (ofValue root) "customers").eraseIdx 1 := by decide +kernel
  have hdiffer : DifferInside ((Scope.nodes (ofValue root) "customers").eraseIdx 1) root root' :=
    .replace .same hfirst _
  have hempty (document : Value) : (Plan.fill ⟨[], false⟩ (ofValue document)).1.length = 0 := by
    rw [← List.length_map (f := nameless), Plan.map_nameless_fill]
    rfl
  obtain ⟨item, hitem⟩ := Plan.fill_siblings hname hbelow hnodes hi hdiffer [] []
  simp only [hempty, Nat.zero_add, List.nil_append] at hitem
  refine ⟨hname, hbelow, hnodes, hi, hdiffer, ?_⟩
  exact (hitem root' (.inr rfl)).1.trans (hitem root (.inl rfl)).1.symm

end Template

end SheetFill

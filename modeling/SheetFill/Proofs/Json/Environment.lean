import SheetFill.Proofs.Cell.Reading
import SheetFill.Proofs.Json.Bracket

/-!
# Environments

What can be looked up in a document depends on its root and on the newest layer of every path. Such an
*environment* is a function, and it has no past: no stamps, and nothing that could come back into sight.
Entering a node makes a new environment, in which the path stands for the node and the paths below it
stand for nothing.

An environment is *backed* if paths that lead to no node have nothing bound below them. This is so while
nodes are only bound to paths that lead somewhere, and it is why a document loses nothing when layers are
hidden below a path without nodes.

## Main definitions

* `Environment` — the root, and the nodes that paths stand for.
* `Environment.start?` — the longest path with a node that a path starts with.
* `Environment.Backed` — nothing is bound below paths without nodes.
* `Document.env` — the environment of a document.

## Main results

* `Environment.start?_eq_some_iff` — the start of a look-up is the longest one.
* `Environment.Backed.enter` — binding to a path that leads somewhere keeps an environment backed.
* `Document.sameTexts_env`, `Document.nodes_eq` — a document is looked into as its environment is.
* `Document.WellFormed.env_enter` — binding and hiding make the environment of the entered node.
* `Document.WellFormed.hideBelow_eq_self` — hiding below a path without nodes changes nothing.
-/

namespace SheetFill.Json

open Layer

/-- The root of a document, and the nodes that paths stand for. -/
structure Environment where
  root : Value
  node? : Path → Option Pointer

namespace Environment

variable {e : Environment}

/-- No path stands for a node. -/
def ofValue (root : Value) : Environment := ⟨root, fun _ => none⟩

/-- A path stands for a node from now on, and the paths below it for nothing. -/
def enter (e : Environment) (path : Path) (node : Pointer) : Environment :=
  { e with node? := fun other =>
      if other = path then some node else if isBelow path other then none else e.node? other }

/-! ## Look-ups -/

/-- The longest path with a node that a path starts with: its node and the segments left. -/
def start? (e : Environment) (path : Path) : Option (Pointer × Path) :=
  (List.range (path.length + 1)).reverse.findSome? fun n =>
    (e.node? (path.take n)).map fun node => (node, path.drop n)

/-- The nodes of a path. Where no start is found the search starts at the root, if that is allowed. -/
def resolve (e : Environment) (path : Path) (fromRoot : Bool) : List Pointer :=
  match e.start? path with
  | some (node, rest) => Document.walk e.root [node] rest
  | none => if fromRoot then Document.walk e.root (Document.spread e.root .root) path else []

/-- The text of a key at the first node of a location. -/
def textAt (e : Environment) (location key : String) (search : Bool) : String :=
  match e.resolve (Document.segments location) search with
  | [] => ""
  | p :: _ => match (p.resolve e.root).bind (Document.keyValue? key) with
    | some v => v.scalarText
    | none => ""

instance : Lookup Environment Pointer where
  nodes e location := e.resolve (Document.segments location) true
  text e location key search := e.textAt location key search

/-! ## Where a look-up starts -/

/-- The search from above finds the largest number. -/
theorem findSome?_reverse_range_eq_some_iff {β : Type} {f : Nat → Option β} {k : Nat} {b : β} :
    (List.range k).reverse.findSome? f = some b ↔
      ∃ n < k, f n = some b ∧ ∀ m < k, n < m → f m = none := by
  induction k with
  | zero => simp
  | succ k ih =>
      rw [List.range_succ, List.reverse_append, List.reverse_singleton, List.singleton_append,
        List.findSome?_cons]
      cases hk : f k with
      | none =>
          simp only [ih]
          constructor
          · intro h
            rcases h with ⟨n, hn, hf, hmax⟩
            refine ⟨n, Nat.lt_succ_of_lt hn, hf, fun m hm hnm => ?_⟩
            rcases Nat.lt_succ_iff_lt_or_eq.1 hm with hm | rfl
            · exact hmax m hm hnm
            · exact hk
          · intro h
            rcases h with ⟨n, hn, hf, hmax⟩
            rcases Nat.lt_succ_iff_lt_or_eq.1 hn with hn | rfl
            · exact ⟨n, hn, hf, fun m hm => hmax m (Nat.lt_succ_of_lt hm)⟩
            · simp [hk] at hf
      | some c =>
          simp only
          constructor
          · intro hb
            exact ⟨k, Nat.lt_succ_self k, hk.trans hb, fun m hm hkm => by omega⟩
          · intro h
            rcases h with ⟨n, hn, hf, hmax⟩
            rcases Nat.lt_succ_iff_lt_or_eq.1 hn with hn | rfl
            · simp [hmax k (Nat.lt_succ_self k) hn] at hk
            · rw [← hk, hf]

/-- A look-up starts at the longest path with a node. -/
theorem start?_eq_some_iff {path rest : Path} {node : Pointer} :
    e.start? path = some (node, rest) ↔
      ∃ front, path = front ++ rest ∧ e.node? front = some node ∧
        ∀ lower, isBelow front lower → lower <+: path → e.node? lower = none := by
  rw [start?, findSome?_reverse_range_eq_some_iff]
  simp only [Option.map_eq_some_iff, Option.map_eq_none_iff, Prod.mk.injEq]
  constructor
  · intro h
    rcases h with ⟨n, hn, ⟨_, hnode, rfl, rfl⟩, hmax⟩
    refine ⟨path.take n, (List.take_append_drop n path).symm, hnode, fun lower hlower hpre => ?_⟩
    have hlen := (isBelow_iff_longer.1 hlower).2
    rw [List.length_take] at hlen
    rw [List.prefix_iff_eq_take.1 hpre]
    exact hmax _ (Nat.lt_succ_of_le hpre.length_le) (by have := hpre.length_le; omega)
  · intro h
    rcases h with ⟨front, rfl, hnode, hmax⟩
    have hlen : front.length < (front ++ rest).length + 1 := by
      rw [List.length_append]
      omega
    refine ⟨front.length, hlen, ⟨node, by simpa using hnode, rfl, by simp⟩, ?_⟩
    refine fun m hm hlt => hmax _ (isBelow_iff_longer.2 ⟨?_, ?_⟩) (List.take_prefix _ _)
    · rw [List.take_append, List.take_of_length_le (Nat.le_of_lt hlt)]
      exact List.prefix_append _ _
    · rw [List.length_take]
      omega

theorem start?_eq_none_iff {path : Path} :
    e.start? path = none ↔ ∀ front, front <+: path → e.node? front = none := by
  simp only [start?, List.findSome?_eq_none_iff, Option.map_eq_none_iff]
  constructor
  · intro h front hpre
    rw [List.prefix_iff_eq_take.1 hpre]
    exact h front.length (by simpa using Nat.lt_succ_of_le hpre.length_le)
  · exact fun h n _ => h _ (List.take_prefix _ _)

/-- Only what a path starts with matters for its look-up. -/
theorem start?_congr {e' : Environment} {path : Path}
    (h : ∀ front, front <+: path → e'.node? front = e.node? front) : e'.start? path = e.start? path := by
  have hstart : (fun n => (e'.node? (path.take n)).map fun node => (node, path.drop n)) =
      fun n => (e.node? (path.take n)).map fun node => (node, path.drop n) := by
    funext n
    rw [h _ (List.take_prefix _ _)]
  rw [start?, hstart, start?]

/-- A path with a node stands for that node. -/
theorem resolve_of_node? {path : Path} {node : Pointer} (h : e.node? path = some node)
    (fromRoot : Bool) : e.resolve path fromRoot = [node] := by
  have hstart : e.start? path = some (node, []) := by
    refine start?_eq_some_iff.2 ⟨path, by simp, h, fun lower hlower hpre => ?_⟩
    have hlen := (isBelow_iff_longer.1 hlower).2
    exact absurd hpre.length_le (Nat.not_le.2 hlen)
  rw [resolve, hstart]
  rfl

/-- Where nothing is bound strictly below a path, look-ups below it go through its nodes. -/
theorem resolve_append {path : Path} (h : ∀ lower, isBelow path lower → e.node? lower = none)
    (rest : Path) :
    e.resolve (path ++ rest) true = Document.walk e.root (e.resolve path true) rest := by
  have hlower {lower : Path} (hpre : lower <+: path ++ rest) :
      lower <+: path ∨ e.node? lower = none := by
    rcases List.prefix_or_prefix_of_prefix hpre (List.prefix_append path rest) with hpath | hpath
    · exact .inl hpath
    · by_cases hlen : path.length < lower.length
      · exact .inr (h lower (isBelow_iff_longer.2 ⟨hpath, hlen⟩))
      · exact .inl (hpath.eq_of_length_le (Nat.le_of_not_lt hlen) ▸ List.prefix_refl _)
  cases hstart : e.start? path with
  | none =>
      have hstart' : e.start? (path ++ rest) = none := by
        apply start?_eq_none_iff.2
        intro front hpre
        rcases hlower hpre with hpath | hnone
        · exact start?_eq_none_iff.1 hstart front hpath
        · exact hnone
      simp [resolve, hstart, hstart', Document.walk]
  | some found =>
      obtain ⟨node, left⟩ := found
      obtain ⟨front, hpath, hnode, hmax⟩ := start?_eq_some_iff.1 hstart
      have hstart' : e.start? (path ++ rest) = some (node, left ++ rest) := by
        refine start?_eq_some_iff.2 ⟨front, by simp [hpath], hnode, fun lower hbelow hpre => ?_⟩
        rcases hlower hpre with hpath | hnone
        · exact hmax lower hbelow hpath
        · exact hnone
      simp [resolve, hstart, hstart', Document.walk]

/-! ## Backed environments -/

/-- Nothing is bound strictly below a path that leads to no node. -/
def Backed (e : Environment) : Prop :=
  ∀ path, e.resolve path true = [] → ∀ lower, isBelow path lower → e.node? lower = none

theorem backed_ofValue (root : Value) : (ofValue root).Backed := fun _ _ _ _ => rfl

theorem walk_nil (root : Value) (path : Path) : Document.walk root [] path = [] := by
  induction path with
  | nil => rfl
  | cons segment path ih => exact ih

/-- An environment stays backed when a node is bound to a path that leads to some node. -/
theorem Backed.enter (h : e.Backed) {path : Path} (hpath : e.resolve path true ≠ [])
    (node : Pointer) : (e.enter path node).Backed := by
  intro query hquery lower hlower
  by_cases hpre : path <+: query
  · have hbelow : isBelow path lower := by
      obtain ⟨hqpre, hqlen⟩ := isBelow_iff_longer.1 hlower
      exact isBelow_iff_longer.2 ⟨hpre.trans hqpre, Nat.lt_of_le_of_lt hpre.length_le hqlen⟩
    have hne : lower ≠ path := by
      rintro rfl
      exact not_isBelow_self lower hbelow
    simp [Environment.enter, hne, hbelow]
  · -- the node is not seen from `query`, so that there is nothing below `query` in `e` either
    have hsame : (e.enter path node).start? query = e.start? query := by
      apply start?_congr
      intro front hfront
      have hne : front ≠ path := by
        rintro rfl
        exact hpre hfront
      have hbelow : ¬ isBelow path front :=
        fun hbelow => hpre ((isBelow_iff_longer.1 hbelow).1.trans hfront)
      simp [Environment.enter, hne, hbelow]
    have hempty : e.resolve query true = [] := by
      rw [← hquery, resolve, resolve, hsame]
      rfl
    have hnone := h query hempty
    have hne : lower ≠ path := by
      rintro rfl
      obtain ⟨segment, rest, rfl⟩ := isBelow_iff.1 hlower
      rw [resolve_append hnone, hempty, walk_nil] at hpath
      exact hpath rfl
    simp [Environment.enter, hne, hnone lower hlower]

end Environment

/-! ## The environment of a document -/

namespace Document

variable {d : Document}

/-- What can be looked up in a document: its root, and the newest node of every path. -/
def env (d : Document) : Environment := ⟨d.root, fun path => (top? d.layers path).map Layer.node⟩

theorem Later.env_eq {e : Document} (h : Later d e) : e.env = d.env := by
  rw [env, h.root, h.layers, env]

theorem start?_eq (d : Document) (path : Path) : start? d.layers path = d.env.start? path := by
  simp only [start?, Environment.start?, env, Option.map_map]
  rfl

theorem resolve_eq (d : Document) (path : Path) (fromRoot : Bool) :
    d.resolve path fromRoot = d.env.resolve path fromRoot := by
  rw [resolve, start?_eq]
  rfl

theorem nodes_eq (d : Document) (location : String) :
    Scope.nodes d location = Lookup.nodes d.env location :=
  resolve_eq d (segments location) true

/-- Cells find the same texts in a document and in its environment. -/
theorem sameTexts_env (d : Document) : SameTexts d d.env := by
  intro location key search
  change d.textAt location key search = d.env.textAt location key search
  rw [textAt, resolve_eq]
  rfl

/-- Binding a node and hiding what is below makes the environment in which the path stands for it. -/
theorem WellFormed.env_enter (h : d.WellFormed) (path : String) (node : Pointer) :
    (Scope.enter d path node).env = d.env.enter (segments path) node := by
  have hnode : (Scope.enter d path node).env.node? = (d.env.enter (segments path) node).node? := by
    funext other
    have hentered := h.enter path node
    by_cases hpath : other = segments path
    · simp [env, Environment.enter, hpath, h.top?_enter, entered]
    · by_cases hbelow : isBelow (segments path) other
      · have htop : top? (Scope.enter d path node).layers other = none := by
          apply top?_eq_none_iff.2
          intro l hl hlpath
          rcases h.mem_enter.1 hl with ⟨-, hnot⟩ | rfl
          · exact hnot (by rw [hlpath]; exact hbelow)
          · exact hpath hlpath.symm
        simp [env, Environment.enter, hpath, hbelow, htop]
      · have htop : top? (Scope.enter d path node).layers other = top? d.layers other := by
          apply hentered.ascending.top?_congr h.ascending
          intro l hlpath
          rw [h.mem_enter]
          constructor
          · intro hcase
            rcases hcase with ⟨hl, -⟩ | rfl
            · exact hl
            · exact absurd hlpath.symm hpath
          · exact fun hl => .inl ⟨hl, by rw [hlpath]; exact hbelow⟩
        simp [env, Environment.enter, hpath, hbelow, htop]
  calc
    (Scope.enter d path node).env = ⟨d.root, (Scope.enter d path node).env.node?⟩ := rfl
    _ = d.env.enter (segments path) node := by rw [hnode]; rfl

/-- Nothing is bound to a path without nodes. -/
theorem top?_of_nodes_eq_nil {path : String} (hnodes : Scope.nodes d path = []) :
    top? d.layers (segments path) = none := by
  rw [nodes_eq] at hnodes
  cases htop : top? d.layers (segments path) with
  | none => rfl
  | some t =>
      have hnode : d.env.node? (segments path) = some t.node := by simp [env, htop]
      have hone := Environment.resolve_of_node? hnode true
      rw [show d.env.resolve (segments path) true = [] from hnodes] at hone
      simp at hone

/-- What is bound below a path without nodes is lost when it is hidden. -/
theorem hideBelow_of_nodes_eq_nil {path : String} (hnodes : Scope.nodes d path = []) :
    Scope.hideBelow d path = { d with layers := apart (segments path) d.layers } := by
  rw [hideBelow_eq, hideBelow_of_none (top?_of_nodes_eq_nil hnodes)]

theorem env_hideBelow {path : String} (hnodes : Scope.nodes d path = []) :
    (Scope.hideBelow d path).env =
      ⟨d.root, fun other => if isBelow (segments path) other then none else d.env.node? other⟩ := by
  simp only [hideBelow_of_nodes_eq_nil hnodes, env, Environment.mk.injEq, true_and]
  funext other
  rw [top?_apart]
  split
  · rfl
  · rfl

/-- Hiding below a path without nodes changes nothing in a backed environment. -/
theorem hideBelow_eq_self (h : d.env.Backed) {path : String}
    (hnodes : Scope.nodes d path = []) : Scope.hideBelow d path = d := by
  have hapart : apart (segments path) d.layers = d.layers := by
    apply List.filter_eq_self.2
    intro l hl
    cases hbelow : isBelow (segments path) l.path with
    | false => rfl
    | true =>
        have hfound : top? d.layers l.path = none := by
          rw [nodes_eq] at hnodes
          simpa [env] using h (segments path) hnodes l.path hbelow
        exact absurd rfl (top?_eq_none_iff.1 hfound l hl)
  rw [hideBelow_of_nodes_eq_nil hnodes, hapart]

end Document

end SheetFill.Json

import Mathlib.Data.List.Basic
import SheetFill.Json.Document

/-!
# Places in a document

The place of a node is a list of steps from the root. What lies at or under a node depends on the value
there and on nothing else of the document. The nodes at a location are *apart*: the steps to any two of them
are the same up to an array of which they go to different items. So whatever is put in the place of one of
them, the others keep their values.

## Main definitions

* `Pointer.Under` — the places at or under a place.
* `Pointer.Apart` — places under different items of one array.
* `Pointer.replace`, `DifferInside` — documents with other values at some places.

## Main results

* `Document.walk_under` — a search from a node depends on the value of the node alone.
* `Document.pairwise_apart_nodes` — the nodes at a location are apart.
* `DifferInside.resolve_eq` — other values at some places are not seen from places apart from them.
-/

namespace SheetFill.Json

open Text

namespace Pointer

/-! ## At or under a place -/

/-- Some steps lead from the first place to the second. -/
def Under (p q : Pointer) : Prop := ∃ tokens : List (List Char), q = tokens.foldl push p

theorem under_refl (p : Pointer) : Under p p := ⟨[], rfl⟩

theorem Under.push {p q : Pointer} (h : Under p q) (token : List Char) : Under p (q.push token) := by
  obtain ⟨tokens, rfl⟩ := h
  exact ⟨tokens ++ [token], by rw [List.foldl_append]; rfl⟩

theorem foldl_push_steps (tokens front : List (List Char)) :
    tokens.foldl push (.steps front) = .steps (front ++ tokens) := by
  induction tokens generalizing front with
  | nil => rw [List.append_nil]; rfl
  | cons token tokens ih =>
      rw [List.foldl_cons, push, ih, List.append_assoc]
      rfl

theorem descend_append (front tokens : List (List Char)) (v : Value) :
    descend v (front ++ tokens) = (descend v front).bind fun w => descend w tokens := by
  induction front generalizing v with
  | nil => rfl
  | cons token front ih =>
      rw [List.cons_append, descend, descend, Option.bind_assoc]
      congr 1
      funext w
      exact ih w

theorem foldl_push_malformed (tokens : List (List Char)) (text : String) :
    ∃ text', tokens.foldl push (.malformed text) = .malformed text' := by
  induction tokens generalizing text with
  | nil => exact ⟨text, rfl⟩
  | cons token tokens ih => exact ih _

/-- What lies under a place depends on the value there. -/
theorem Under.resolve_eq {p q : Pointer} (h : Under p q) {root root' : Value}
    (hsame : p.resolve root' = p.resolve root) : q.resolve root' = q.resolve root := by
  obtain ⟨tokens, rfl⟩ := h
  cases p with
  | malformed text =>
      obtain ⟨text', htext⟩ := foldl_push_malformed tokens text
      rw [htext]
      rfl
  | steps front =>
      rw [foldl_push_steps]
      show descend root' (front ++ tokens) = descend root (front ++ tokens)
      have hfront : descend root' front = descend root front := hsame
      rw [descend_append, descend_append, hfront]

/-! ## Places apart -/

/-- The steps to two places are the same up to an array of which they go to different items. -/
def Apart (p q : Pointer) : Prop :=
  ∃ (front : List (List Char)) (m n : Nat) (tokens tokens' : List (List Char)), m ≠ n ∧
    p = .steps (front ++ decimalDigits m :: tokens) ∧ q = .steps (front ++ decimalDigits n :: tokens')

theorem Apart.symm {p q : Pointer} (h : Apart p q) : Apart q p := by
  obtain ⟨front, m, n, tokens, tokens', hne, hp, hq⟩ := h
  exact ⟨front, n, m, tokens', tokens, hne.symm, hq, hp⟩

/-- Places under places apart are apart. -/
theorem Apart.under {p q p' q' : Pointer} (h : Apart p q) (hp : Under p p') (hq : Under q q') :
    Apart p' q' := by
  obtain ⟨front, m, n, tokens, tokens', hne, rfl, rfl⟩ := h
  obtain ⟨more, rfl⟩ := hp
  obtain ⟨more', rfl⟩ := hq
  refine ⟨front, m, n, tokens ++ more, tokens' ++ more', hne, ?_, ?_⟩
  · rw [foldl_push_steps, List.append_assoc]
    rfl
  · rw [foldl_push_steps, List.append_assoc]
    rfl

end Pointer

namespace Document

open Pointer

/-! ## The nodes at a location -/

theorem under_of_mem_spread {root : Value} {p q : Pointer} (h : q ∈ spread root p) : Under p q := by
  unfold spread at h
  split at h
  · obtain ⟨k, -, rfl⟩ := List.mem_map.1 h
    exact (under_refl p).push _
  · cases h
  · cases h
  · rw [List.mem_singleton.1 h]
    exact under_refl p

theorem spread_eq {root root' : Value} {p : Pointer} (h : p.resolve root' = p.resolve root) :
    spread root' p = spread root p := by
  rw [spread, h, spread]

theorem follow_under {root root' : Value} {p : Pointer} (hsame : p.resolve root' = p.resolve root)
    {nodes : List Pointer} (hnodes : ∀ q ∈ nodes, Under p q) (segment : String) :
    follow root' nodes segment = follow root nodes segment ∧
      ∀ q ∈ follow root nodes segment, Under p q := by
  have hkeys : nodes.filter (hasKey root' segment) = nodes.filter (hasKey root segment) := by
    refine List.filter_congr fun q hq => ?_
    rw [hasKey, (hnodes q hq).resolve_eq hsame, hasKey]
  constructor
  · rw [follow, hkeys, follow]
    refine List.flatMap_congr fun q hq => ?_
    have hkey : Under p (q.key segment) := (hnodes q (List.mem_of_mem_filter hq)).push _
    exact spread_eq (hkey.resolve_eq hsame)
  · intro r hr
    obtain ⟨q, hq, hr⟩ := List.mem_flatMap.1 hr
    obtain ⟨tokens, rfl⟩ := hnodes q (List.mem_of_mem_filter hq)
    obtain ⟨more, rfl⟩ := under_of_mem_spread hr
    exact ⟨tokens ++ (escapeStep segment.toList :: more), by rw [List.foldl_append]; rfl⟩

/-- A search from places under a node stays under it, and depends on the value of the node alone. -/
theorem walk_under {root root' : Value} {p : Pointer} (hsame : p.resolve root' = p.resolve root)
    {nodes : List Pointer} (hnodes : ∀ q ∈ nodes, Under p q) (path : Path) :
    walk root' nodes path = walk root nodes path ∧ ∀ q ∈ walk root nodes path, Under p q := by
  induction path generalizing nodes with
  | nil => exact ⟨rfl, hnodes⟩
  | cons segment path ih =>
      obtain ⟨heq, hunder⟩ := follow_under hsame hnodes segment
      obtain ⟨hwalk, hwalked⟩ := ih hunder
      constructor
      · show walk root' (follow root' nodes segment) path = _
        rw [heq]
        exact hwalk
      · exact hwalked

/-- What a place stands for are the items of one array, or the place alone. -/
theorem pairwise_apart_spread (root : Value) {p : Pointer} (hp : Under .root p) :
    (spread root p).Pairwise Apart := by
  obtain ⟨front, rfl⟩ := hp
  rw [Pointer.root, foldl_push_steps, List.nil_append]
  unfold spread
  split
  · refine List.pairwise_map.2 (List.nodup_range.imp fun {m n} hne => ?_)
    exact ⟨front, m, n, [], [], hne, rfl, rfl⟩
  · exact .nil
  · exact .nil
  · exact List.pairwise_singleton _ _

theorem pairwise_apart_follow (root : Value) {nodes : List Pointer}
    (hroot : ∀ p ∈ nodes, Under .root p) (h : nodes.Pairwise Apart) (segment : String) :
    (follow root nodes segment).Pairwise Apart := by
  have hkey {p q : Pointer} (hq : q ∈ spread root (p.key segment)) : Under p q := by
    obtain ⟨tokens, rfl⟩ := under_of_mem_spread hq
    exact ⟨escapeStep segment.toList :: tokens, rfl⟩
  refine List.pairwise_flatMap.2 ⟨fun p hp => ?_, ?_⟩
  · exact pairwise_apart_spread root ((hroot p (List.mem_of_mem_filter hp)).push _)
  · refine (h.filter _).imp fun {p p'} hapart q hq q' hq' => ?_
    exact hapart.under (hkey hq) (hkey hq')

theorem pairwise_apart_walk (root : Value) {nodes : List Pointer}
    (hroot : ∀ p ∈ nodes, Under .root p) (h : nodes.Pairwise Apart) (path : Path) :
    (walk root nodes path).Pairwise Apart := by
  induction path generalizing nodes with
  | nil => exact h
  | cons segment path ih =>
      exact ih (follow_under rfl hroot segment).2 (pairwise_apart_follow root hroot h segment)

/-- With nothing bound, the nodes at a location are looked for from the root. -/
theorem nodes_ofValue (root : Value) (location : String) :
    Scope.nodes (ofValue root) location = walk root (spread root .root) (segments location) := by
  have hstart : start? [] (segments location) = none := by
    simp [start?, Layer.top?]
  show resolve (ofValue root) (segments location) true = _
  rw [resolve, show (ofValue root).layers = [] from rfl, hstart]
  rfl

/-- The nodes at a location are apart. -/
theorem pairwise_apart_nodes (root : Value) (location : String) :
    (Scope.nodes (ofValue root) location).Pairwise Apart := by
  rw [nodes_ofValue]
  refine pairwise_apart_walk root (fun p hp => under_of_mem_spread hp) ?_ _
  exact pairwise_apart_spread root (under_refl _)

end Document

/-! ## Other values at some places -/

namespace Value

/-- The members of an object with another value under a key. -/
def modifyMember (key : String) (f : Value → Value) : List (String × Value) → List (String × Value)
  | [] => []
  | (k, v) :: members =>
    if k = key then (k, f v) :: members else (k, v) :: modifyMember key f members

/-- A value with another value one step below. -/
def modifyChild (token : List Char) (f : Value → Value) : Value → Value
  | .object members => .object (modifyMember (String.ofList (Pointer.unescapeStep token)) f members)
  | .array items => match Pointer.stepIndex? (Pointer.unescapeStep token) with
    | some k => .array (items.modify k f)
    | none => .array items
  | v => v

/-- A value with another value some steps below. -/
def replaceBelow (x : Value) : List (List Char) → Value → Value
  | [], _ => x
  | token :: tokens, v => modifyChild token (replaceBelow x tokens) v

end Value

/-- A document with another value at a place; where there is no such place, nothing is replaced. -/
def Pointer.replace (p : Pointer) (x document : Value) : Value :=
  match p with
  | .steps tokens => Value.replaceBelow x tokens document
  | .malformed _ => document

/-- The second document is the first one with other values at some of the places. -/
inductive DifferInside (places : List Pointer) (v : Value) : Value → Prop
  | same : DifferInside places v v
  | replace {w : Value} (rest : DifferInside places v w) {p : Pointer} (hp : p ∈ places) (x : Value) :
      DifferInside places v (p.replace x w)

namespace Value

theorem lookup_modifyMember_self (key : String) (f : Value → Value) (members : List (String × Value)) :
    lookup key (modifyMember key f members) = (lookup key members).map f := by
  induction members with
  | nil => rfl
  | cons m members ih =>
      obtain ⟨k, v⟩ := m
      by_cases hk : k = key
      · simp [modifyMember, lookup, hk]
      · simp [modifyMember, lookup, hk, ih]

theorem lookup_modifyMember_of_ne {key other : String} (h : other ≠ key) (f : Value → Value)
    (members : List (String × Value)) :
    lookup other (modifyMember key f members) = lookup other members := by
  induction members with
  | nil => rfl
  | cons m members ih =>
      obtain ⟨k, v⟩ := m
      by_cases hk : k = key
      · have hother : ¬ key = other := fun heq => h heq.symm
        simp [modifyMember, lookup, hk, hother]
      · simp [modifyMember, lookup, hk, ih]

/-- The value one step below is the one that was put there. -/
theorem child?_modifyChild_self (token : List Char) (f : Value → Value) (v : Value) :
    Pointer.child? (modifyChild token f v) token = (Pointer.child? v token).map f := by
  cases v with
  | object members => exact lookup_modifyMember_self _ f members
  | array items =>
      cases hindex : Pointer.stepIndex? (Pointer.unescapeStep token) with
      | none => simp [modifyChild, Pointer.child?, hindex]
      | some k => simp [modifyChild, Pointer.child?, hindex]
  | null => rfl
  | bool b => rfl
  | number n => rfl
  | string t => rfl

/-! ### Items of arrays -/

theorem unescapeWith_of_not_mem (d c : Char) {token : List Char} (h : '~' ∉ token) :
    Pointer.unescapeWith d c token = token := by
  induction token with
  | nil => rfl
  | cons x rest ih =>
      obtain ⟨hx, hrest⟩ := List.ne_and_not_mem_of_not_mem_cons h
      cases rest with
      | nil => rfl
      | cons y rest =>
          have hplain : ¬ (x = '~' ∧ y = d) := fun heq => hx heq.1.symm
          rw [Pointer.unescapeWith, if_neg hplain, ih hrest]

theorem unescapeStep_decimalDigits (n : Nat) : Pointer.unescapeStep (decimalDigits n) = decimalDigits n := by
  have htilde : '~' ∉ decimalDigits n := fun hmem => by
    have hdigit := isDigit_of_mem_decimalDigits hmem
    revert hdigit
    decide
  rw [Pointer.unescapeStep, unescapeWith_of_not_mem '1' '/' htilde, unescapeWith_of_not_mem _ _ htilde]

theorem eq_of_stepIndex? {n k : Nat} (h : Pointer.stepIndex? (decimalDigits n) = some k) : k = n := by
  unfold Pointer.stepIndex? at h
  split at h
  · cases h
  · split at h
    · cases h
    · rw [← Option.some.inj h, digitsValue_decimalDigits]

/-- Another value of one item is not seen at the others. -/
theorem child?_modifyChild_of_ne {m n : Nat} (h : m ≠ n) (f : Value → Value) (v : Value) :
    Pointer.child? (modifyChild (decimalDigits m) f v) (decimalDigits n) =
      Pointer.child? v (decimalDigits n) := by
  cases v with
  | object members =>
      have hne : String.ofList (decimalDigits n) ≠ String.ofList (decimalDigits m) := by
        intro heq
        have hdigits : decimalDigits n = decimalDigits m := String.ofList_injective heq
        rw [← digitsValue_decimalDigits m, ← digitsValue_decimalDigits n, hdigits] at h
        exact h rfl
      simp only [modifyChild, Pointer.child?, unescapeStep_decimalDigits, member?]
      exact lookup_modifyMember_of_ne hne f members
  | array items =>
      simp only [modifyChild, unescapeStep_decimalDigits]
      cases hm : Pointer.stepIndex? (decimalDigits m) with
      | none => rfl
      | some j =>
          simp only [Pointer.child?, unescapeStep_decimalDigits]
          cases hn : Pointer.stepIndex? (decimalDigits n) with
          | none => rfl
          | some k =>
              have hj := eq_of_stepIndex? hm
              have hk := eq_of_stepIndex? hn
              have hne : j ≠ k := by omega
              simp only [Option.bind_some, List.getElem?_modify_ne f items hne]
  | null => rfl
  | bool b => rfl
  | number n => rfl
  | string t => rfl

/-- A value put under one item of an array is not seen under the others. -/
theorem descend_replaceBelow (x : Value) (front : List (List Char)) {m n : Nat} (h : m ≠ n)
    (tokens tokens' : List (List Char)) (v : Value) :
    Pointer.descend (replaceBelow x (front ++ decimalDigits m :: tokens) v)
        (front ++ decimalDigits n :: tokens') =
      Pointer.descend v (front ++ decimalDigits n :: tokens') := by
  induction front generalizing v with
  | nil =>
      simp only [List.nil_append, replaceBelow, Pointer.descend]
      rw [child?_modifyChild_of_ne h]
  | cons token front ih =>
      simp only [List.cons_append, replaceBelow, Pointer.descend, child?_modifyChild_self]
      cases Pointer.child? v token with
      | none => rfl
      | some w => exact ih w

end Value

/-- Other values at some places are not seen from a place apart from them. -/
theorem DifferInside.resolve_eq {places : List Pointer} {v w : Value} (h : DifferInside places v w)
    {q : Pointer} (hapart : ∀ p ∈ places, Pointer.Apart p q) : q.resolve w = q.resolve v := by
  induction h with
  | same => rfl
  | replace _ hp x ih =>
      obtain ⟨front, m, n, tokens, tokens', hne, rfl, rfl⟩ := hapart _ hp
      exact (Value.descend_replaceBelow x front hne tokens tokens' _).trans ih

/-- Among the nodes at a location, a node keeps its value whatever becomes of the others. -/
theorem DifferInside.resolve_node_eq {root root' : Value} {location : String} {i : Nat}
    (h : DifferInside ((Scope.nodes (Document.ofValue root) location).eraseIdx i) root root')
    (hi : i < (Scope.nodes (Document.ofValue root) location).length) :
    (Scope.nodes (Document.ofValue root) location)[i].resolve root' =
      (Scope.nodes (Document.ofValue root) location)[i].resolve root := by
  refine h.resolve_eq fun p hp => ?_
  obtain ⟨j, hj, hji, rfl⟩ := List.mem_eraseIdx_iff_getElem.1 hp
  have hpairwise := List.pairwise_iff_getElem.1 (Document.pairwise_apart_nodes root location)
  rcases Nat.lt_or_gt_of_ne hji with hlt | hgt
  · exact hpairwise j i hj hi hlt
  · exact (hpairwise i j hi hj hgt).symm

end SheetFill.Json

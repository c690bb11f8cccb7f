import Mathlib.Data.List.Nodup
import SheetFill.Proofs.Json.Places

/-!
# What the nodes of a location are

The nodes of a location are found by pointers alone: a pointer is made longer by a key or an index, and what
it points to is looked up from the root each time. Said with values, a location is followed one segment after
the other through a list of values, where arrays stand for their items, null for nothing, and a value without
a member under the segment is dropped. The pointers lead to just these values, in this order.

It comes down to what is written into a pointer being read back: whatever characters a key has, it is escaped
so that the pointer can be cut at its slashes and the key be found again, and an index has no leading zeros.

## Main definitions

* `Value.flat`, `Value.valuesAt` — the values at a location.
* `Value.places` — all places of a document, in its order.

## Main results

* `Pointer.unescapeStep_escapeStep`, `Pointer.ofText_text` — keys and pointers are read back.
* `Document.walk_sublist_places` — a search finds places in the order of the document.
* `Document.nodes_eq_valuesAt` — the texts of the nodes at a location point to its values.
-/

namespace SheetFill.Json

open Text

/-! ## The values at a location -/

namespace Value

/-- The values that a value stands for: the items of an array, nothing for null, else the value alone. -/
def flat : Value → List Value
  | .array items => items
  | .null => []
  | v => [v]

/-- What a value stands for one segment further. -/
def membersAt (segment : String) (v : Value) : List Value :=
  match v.member? segment with
  | some w => w.flat
  | none => []

/-- The values some segments further than others. -/
def valuesFrom (values : List Value) (segments : List String) : List Value :=
  segments.foldl (fun values segment => values.flatMap (membersAt segment)) values

/-- The values at a location, which is cut at its slashes; empty segments count for nothing. -/
def valuesAt (root : Value) (location : String) : List Value :=
  valuesFrom root.flat
    (((location.toList.splitOn '/').filter fun segment => !segment.isEmpty).map String.ofList)

/-! ## All places -/

mutual

/-- The place of a value and all places under it, in the order of the document. -/
def places (v : Value) (p : Pointer) : List Pointer :=
  match v with
  | .array items => p :: itemPlaces items p 0
  | .object members => p :: memberPlaces members p
  | .null | .bool _ | .number _ | .string _ => [p]

/-- The places at and under the items of an array, from the item with the index `i` on. -/
def itemPlaces (items : List Value) (p : Pointer) (i : Nat) : List Pointer :=
  match items with
  | [] => []
  | v :: rest => places v (p.index i) ++ itemPlaces rest p (i + 1)

/-- The places at and under the members of an object. -/
def memberPlaces (members : List (String × Value)) (p : Pointer) : List Pointer :=
  match members with
  | [] => []
  | (k, v) :: rest => places v (p.key k) ++ memberPlaces rest p

end

theorem mem_places_self (v : Value) (p : Pointer) : p ∈ places v p := by
  cases v <;> simp [places]

/-- What a look-up finds among members has its places among theirs. -/
theorem places_sublist_memberPlaces {k : String} {members : List (String × Value)} {w : Value}
    (h : lookup k members = some w) (p : Pointer) :
    (places w (p.key k)).Sublist (memberPlaces members p) := by
  induction members with
  | nil => cases h
  | cons m rest ih =>
      obtain ⟨k', v⟩ := m
      rw [lookup] at h
      rw [memberPlaces]
      split at h
      · next hk =>
          cases h
          rw [hk]
          exact List.sublist_append_left _ _
      · exact (ih h).trans (List.sublist_append_right _ _)

/-- Places found under each item of an array are found in the order of its items. -/
theorem flatMap_sublist_itemPlaces {f : Pointer → List Pointer} {p : Pointer} {items : List Value}
    {start : Nat}
    (h : ∀ i v, items[i]? = some v → (f (p.index (start + i))).Sublist (places v (p.index (start + i)))) :
    (((List.range' start items.length).map p.index).flatMap f).Sublist (itemPlaces items p start) := by
  induction items generalizing start with
  | nil => exact .refl _
  | cons v rest ih =>
      rw [List.length_cons, List.range'_succ, List.map_cons, List.flatMap_cons, itemPlaces]
      refine (h 0 v rfl).append (ih fun i w hw => ?_)
      have hnext := h (i + 1) w (by simpa using hw)
      rwa [show start + (i + 1) = start + 1 + i by omega] at hnext

end Value

/-! ## Pointers are read back -/

namespace Pointer

theorem unescapeWith_cons_of_ne {d c x : Char} (h : x ≠ '~') (rest : List Char) :
    unescapeWith d c (x :: rest) = x :: unescapeWith d c rest := by
  cases rest with
  | nil => rfl
  | cons y rest => rw [unescapeWith, if_neg fun heq => h heq.1]

/-- A key with its tildes escaped, but not its slashes. -/
def escapeTildes (key : List Char) : List Char :=
  key.flatMap fun c => if c = '~' then ['~', '0'] else [c]

/-- Slashes are read back first, and tildes are not taken for them. -/
theorem unescapeWith_escapeStep (key : List Char) :
    unescapeWith '1' '/' (escapeStep key) = escapeTildes key := by
  induction key with
  | nil => rfl
  | cons c cs ih =>
      rw [escapeStep, escapeTildes] at ih ⊢
      rw [List.flatMap_cons, List.flatMap_cons]
      by_cases htilde : c = '~'
      · have hzero : ¬ ('~' = '~' ∧ '0' = '1') := by decide
        rw [if_pos htilde, if_pos htilde, List.cons_append, List.cons_append, unescapeWith, if_neg hzero,
          List.nil_append, unescapeWith_cons_of_ne (by decide), ih]
        rfl
      · by_cases hslash : c = '/'
        · rw [if_neg htilde, if_pos hslash, if_neg htilde, List.cons_append, List.cons_append, unescapeWith,
            if_pos ⟨rfl, rfl⟩, List.nil_append, ih, hslash]
          rfl
        · rw [if_neg htilde, if_neg hslash, if_neg htilde, List.cons_append, List.nil_append,
            unescapeWith_cons_of_ne htilde, ih]
          rfl

theorem unescapeWith_escapeTildes (key : List Char) : unescapeWith '0' '~' (escapeTildes key) = key := by
  induction key with
  | nil => rfl
  | cons c cs ih =>
      rw [escapeTildes] at ih ⊢
      rw [List.flatMap_cons]
      by_cases htilde : c = '~'
      · rw [if_pos htilde, List.cons_append, List.cons_append, unescapeWith, if_pos ⟨rfl, rfl⟩,
          List.nil_append, ih, htilde]
      · rw [if_neg htilde, List.cons_append, List.nil_append, unescapeWith_cons_of_ne htilde, ih]

/-- Whatever characters a key has, it is found again in the step that it is written as. -/
theorem unescapeStep_escapeStep (key : List Char) : unescapeStep (escapeStep key) = key := by
  rw [unescapeStep, unescapeWith_escapeStep, unescapeWith_escapeTildes]

theorem stepIndex?_decimalDigits (n : Nat) : stepIndex? (decimalDigits n) = some n := by
  have hdigits : (decimalDigits n).any (fun c => !c.isDigit) = false := by
    rw [List.any_eq_false]
    intro c hc
    simp [isDigit_of_mem_decimalDigits hc]
  have hzeros : ¬ ((decimalDigits n).head? = some '0' ∧ (decimalDigits n).length ≠ 1) := by
    rintro ⟨hhead, hlength⟩
    rw [eq_zero_of_head?_decimalDigits hhead] at hlength
    exact hlength (by simp [decimalDigits])
  have hempty : (decimalDigits n).isEmpty = false := by
    simpa using decimalDigits_ne_nil n
  rw [stepIndex?, hempty, hdigits, Bool.or_self, if_neg Bool.false_ne_true, if_neg hzeros,
    digitsValue_decimalDigits]

theorem resolve_push (p : Pointer) (token : List Char) (root : Value) :
    (p.push token).resolve root = (p.resolve root).bind fun v => child? v token := by
  cases p with
  | malformed text => rfl
  | steps tokens =>
      show descend root (tokens ++ [token]) = (descend root tokens).bind fun v => child? v token
      rw [descend_append]
      congr 1
      funext v
      show (child? v token).bind some = child? v token
      exact Option.bind_fun_some _

/-- A place longer by a key has the member under the key. -/
theorem resolve_key {p : Pointer} {root v w : Value} {k : String} (h : p.resolve root = some v)
    (hw : v.member? k = some w) : (p.key k).resolve root = some w := by
  cases v with
  | object members =>
      rw [key, resolve_push, h, Option.bind_some, child?, unescapeStep_escapeStep, String.ofList_toList]
      exact hw
  | _ => cases hw

/-- A place longer by an index has the item with the index. -/
theorem resolve_index {p : Pointer} {root : Value} {items : List Value}
    (h : p.resolve root = some (.array items)) (i : Nat) : (p.index i).resolve root = items[i]? := by
  rw [index, resolve_push, h, Option.bind_some, child?, Value.unescapeStep_decimalDigits,
    stepIndex?_decimalDigits, Option.bind_some]

/-! ### Texts of pointers -/

/-- No step of the pointer has a slash in it. -/
def Slashless (p : Pointer) : Prop := ∃ tokens, p = .steps tokens ∧ ∀ token ∈ tokens, '/' ∉ token

theorem Slashless.push {p : Pointer} (h : Slashless p) {token : List Char} (htoken : '/' ∉ token) :
    Slashless (p.push token) := by
  obtain ⟨tokens, rfl, htokens⟩ := h
  refine ⟨tokens ++ [token], rfl, fun t ht => ?_⟩
  rcases List.mem_append.1 ht with ht | ht
  · exact htokens t ht
  · rwa [List.mem_singleton.1 ht]

theorem slash_not_mem_escapeStep (key : List Char) : '/' ∉ escapeStep key := by
  intro hmem
  obtain ⟨c, -, hc⟩ := List.mem_flatMap.1 hmem
  by_cases htilde : c = '~'
  · rw [if_pos htilde] at hc
    revert hc
    decide
  · by_cases hslash : c = '/'
    · rw [if_neg htilde, if_pos hslash] at hc
      revert hc
      decide
    · rw [if_neg htilde, if_neg hslash, List.mem_singleton] at hc
      exact hslash hc.symm

theorem slash_not_mem_decimalDigits (n : Nat) : '/' ∉ decimalDigits n := by
  intro hmem
  have hdigit := isDigit_of_mem_decimalDigits hmem
  revert hdigit
  decide

theorem cut_steps {token : List Char} {tokens : List (List Char)}
    (h : ∀ t ∈ token :: tokens, '/' ∉ t) :
    cut '/' (token ++ tokens.flatMap ('/' :: ·)) = token :: tokens := by
  induction tokens generalizing token with
  | nil =>
      rw [List.flatMap_nil, List.append_nil]
      exact cut_of_not_mem (h token List.mem_cons_self)
  | cons next rest ih =>
      have hrest := ih fun t ht => h t (List.mem_cons_of_mem _ ht)
      rw [List.flatMap_cons, List.cons_append, cut_append (h token List.mem_cons_self), hrest]

/-- A pointer whose steps have no slash in them is read back from its text. -/
theorem ofText_text {p : Pointer} (h : Slashless p) : ofText p.text = p := by
  obtain ⟨tokens, rfl, htokens⟩ := h
  cases tokens with
  | nil => rfl
  | cons token tokens =>
      rw [text, ofText, String.toList_ofList, List.flatMap_cons]
      show (if '/' = '/' then steps (cut '/' (token ++ tokens.flatMap ('/' :: ·))) else _) = _
      rw [if_pos rfl, cut_steps htokens]

theorem Apart.ne {p q : Pointer} (h : Apart p q) : p ≠ q := by
  obtain ⟨front, m, n, tokens, tokens', hne, rfl, rfl⟩ := h
  intro heq
  have hsteps := List.append_cancel_left (steps.inj heq)
  have hdigits : decimalDigits m = decimalDigits n := (List.cons.inj hsteps).1
  rw [← digitsValue_decimalDigits m, hdigits, digitsValue_decimalDigits] at hne
  exact hne rfl

end Pointer

/-! ## Searches -/

namespace Document

open Pointer Value

theorem map_resolve_spread {root v : Value} {p : Pointer} (h : p.resolve root = some v) :
    (spread root p).map (·.resolve root) = v.flat.map some := by
  cases v with
  | array items =>
      have hspread : spread root p = (List.range items.length).map p.index := by rw [spread, h]
      rw [hspread, List.map_map, flat]
      refine List.ext_getElem (by simp) fun i hi _ => ?_
      simp only [List.length_map, List.length_range] at hi
      simp [resolve_index h, hi]
  | _ => simp [spread, h, flat]

theorem hasKey_eq {root v : Value} {p : Pointer} (h : p.resolve root = some v) (segment : String) :
    hasKey root segment p = (v.member? segment).isSome := by
  rw [hasKey, h]
  rfl

theorem follow_singleton (root : Value) (p : Pointer) (segment : String) :
    follow root [p] segment = if hasKey root segment p then spread root (p.key segment) else [] := by
  by_cases hkey : hasKey root segment p = true
  · simp [follow, hkey]
  · simp [follow, hkey]

theorem follow_append (root : Value) (nodes nodes' : List Pointer) (segment : String) :
    follow root (nodes ++ nodes') segment = follow root nodes segment ++ follow root nodes' segment := by
  rw [follow, follow, follow, List.filter_append, List.flatMap_append]

/-- One segment further from a node are the members of its value. -/
theorem map_resolve_follow_singleton {root v : Value} {p : Pointer} (h : p.resolve root = some v)
    (segment : String) :
    (follow root [p] segment).map (·.resolve root) = (v.membersAt segment).map some := by
  rw [follow_singleton, hasKey_eq h, membersAt]
  cases hmember : v.member? segment with
  | none => rfl
  | some w => exact map_resolve_spread (resolve_key h hmember)

theorem map_resolve_follow {root : Value} {nodes : List Pointer} {values : List Value}
    (h : nodes.map (·.resolve root) = values.map some) (segment : String) :
    (follow root nodes segment).map (·.resolve root) =
      (values.flatMap (membersAt segment)).map some := by
  induction nodes generalizing values with
  | nil =>
      cases values with
      | nil => rfl
      | cons v values => cases h
  | cons p nodes ih =>
      cases values with
      | nil => cases h
      | cons v values =>
          obtain ⟨hp, hnodes⟩ := List.cons.inj h
          rw [← List.singleton_append, follow_append, List.map_append, map_resolve_follow_singleton hp, ih hnodes,
            List.flatMap_cons, List.map_append]

/-- Nodes some segments further have the values some segments further. -/
theorem map_resolve_walk {root : Value} {nodes : List Pointer} {values : List Value}
    (h : nodes.map (·.resolve root) = values.map some) (path : Path) :
    (walk root nodes path).map (·.resolve root) = (valuesFrom values path).map some := by
  induction path generalizing nodes values with
  | nil => exact h
  | cons segment path ih => exact ih (map_resolve_follow h segment)

/-! ### In the order of the document -/

theorem walk_append (root : Value) (nodes nodes' : List Pointer) (path : Path) :
    walk root (nodes ++ nodes') path = walk root nodes path ++ walk root nodes' path := by
  induction path generalizing nodes nodes' with
  | nil => rfl
  | cons segment path ih =>
      show walk root (follow root (nodes ++ nodes') segment) path = _
      rw [follow_append, ih]
      rfl

/-- A search from several nodes is one search after the other. -/
theorem walk_eq_flatMap (root : Value) (nodes : List Pointer) (path : Path) :
    walk root nodes path = nodes.flatMap fun p => walk root [p] path := by
  induction nodes with
  | nil =>
      induction path with
      | nil => rfl
      | cons segment path ih => exact ih
  | cons p nodes ih =>
      rw [← List.singleton_append, walk_append, ih, List.singleton_append, List.flatMap_cons]

/-- What a search finds from the nodes that a place stands for comes in the order of its places. -/
theorem walk_spread_sublist {root v : Value} {p : Pointer} (h : p.resolve root = some v) {path : Path}
    (hpath : ∀ q w, q.resolve root = some w → (walk root [q] path).Sublist (places w q)) :
    (walk root (spread root p) path).Sublist (places v p) := by
  cases v with
  | array items =>
      have hspread : spread root p = (List.range items.length).map p.index := by rw [spread, h]
      rw [hspread, List.range_eq_range', walk_eq_flatMap, places]
      refine (flatMap_sublist_itemPlaces fun i w hw => hpath _ w ?_).trans (List.sublist_cons_self _ _)
      rw [Nat.zero_add, resolve_index h, hw]
  | null =>
      have hspread : spread root p = [] := by rw [spread, h]
      rw [hspread, walk_eq_flatMap]
      exact List.nil_sublist _
  | _ =>
      have hspread : spread root p = [p] := by rw [spread, h]
      rw [hspread]
      exact hpath p _ h

/-- A search from a node finds places at or under it, in the order of the document. -/
theorem walk_sublist_places (root : Value) (path : Path) (p : Pointer) (v : Value)
    (h : p.resolve root = some v) : (walk root [p] path).Sublist (places v p) := by
  induction path generalizing p v with
  | nil => exact List.singleton_sublist.2 (mem_places_self v p)
  | cons segment path ih =>
      show (walk root (follow root [p] segment) path).Sublist (places v p)
      rw [follow_singleton, hasKey_eq h]
      cases hmember : v.member? segment with
      | none =>
          rw [Option.isSome_none, if_neg Bool.false_ne_true, walk_eq_flatMap]
          exact List.nil_sublist _
      | some w =>
          rw [Option.isSome_some, if_pos rfl]
          have hunder := walk_spread_sublist (resolve_key h hmember) ih
          cases v with
          | object members =>
              exact (hunder.trans (places_sublist_memberPlaces hmember p)).trans
                (List.sublist_cons_self _ _)
          | _ => cases hmember

/-! ### Slashes -/

theorem slashless_of_mem_spread {root : Value} {p q : Pointer} (hp : Slashless p)
    (hq : q ∈ spread root p) : Slashless q := by
  unfold spread at hq
  split at hq
  · obtain ⟨i, -, rfl⟩ := List.mem_map.1 hq
    exact hp.push (slash_not_mem_decimalDigits i)
  · cases hq
  · cases hq
  · rwa [List.mem_singleton.1 hq]

theorem slashless_of_mem_walk {root : Value} {nodes : List Pointer} (hnodes : ∀ p ∈ nodes, Slashless p)
    {path : Path} {q : Pointer} (hq : q ∈ walk root nodes path) : Slashless q := by
  induction path generalizing nodes with
  | nil => exact hnodes q hq
  | cons segment path ih =>
      have hfollow : ∀ r ∈ follow root nodes segment, Slashless r := by
        intro r hr
        obtain ⟨p, hp, hr⟩ := List.mem_flatMap.1 hr
        have hkey : Slashless (p.key segment) :=
          (hnodes p (List.mem_of_mem_filter hp)).push (slash_not_mem_escapeStep _)
        exact slashless_of_mem_spread hkey hr
      exact ih hfollow hq

theorem slashless_of_mem_nodes {root : Value} {location : String} {p : Pointer}
    (h : p ∈ Scope.nodes (ofValue root) location) : Slashless p := by
  rw [nodes_ofValue] at h
  have hroot : Slashless .root := ⟨[], rfl, nofun⟩
  exact slashless_of_mem_walk (fun q hq => slashless_of_mem_spread hroot hq) h

end Document

/-! ## The nodes at a location -/

/--
The texts of the nodes at a location, read as pointers, lead to the values at the location, in order. No
text comes twice, and they come in the order of the document.
-/
theorem Document.nodes_eq_valuesAt (root : Value) (location : String) :
    ((Scope.nodes (ofValue root) location).map Pointer.text).map
        (fun text => (Pointer.ofText text).resolve root) = (root.valuesAt location).map some ∧
      ((Scope.nodes (ofValue root) location).map Pointer.text).Nodup ∧
      ((Scope.nodes (ofValue root) location).map Pointer.text).Sublist
        ((root.places .root).map Pointer.text) := by
  have hroot : Pointer.root.resolve root = some root := rfl
  have hread : ∀ p ∈ Scope.nodes (ofValue root) location, Pointer.ofText p.text = p :=
    fun p hp => Pointer.ofText_text (slashless_of_mem_nodes hp)
  refine ⟨?_, ?_, ?_⟩
  · have hvalues : (Scope.nodes (ofValue root) location).map (·.resolve root) =
        (root.valuesAt location).map some := by
      rw [nodes_ofValue, Value.valuesAt, ← cut_eq_splitOn]
      exact map_resolve_walk (map_resolve_spread hroot) (segments location)
    rw [← hvalues, List.map_map]
    exact List.map_congr_left fun p hp => congrArg (·.resolve root) (hread p hp)
  · have hnodup : (Scope.nodes (ofValue root) location).Nodup :=
      (pairwise_apart_nodes root location).imp fun hapart => hapart.ne
    refine List.Nodup.map_on (fun p hp q hq htext => ?_) hnodup
    rw [← hread p hp, htext, hread q hq]
  · rw [nodes_ofValue]
    exact (walk_spread_sublist hroot (walk_sublist_places root (segments location))).map _

example : (Scope.nodes (Document.ofValue (.object [("a~1", .array [.object [("0", .array [.null, .bool true])],
    .null, .object [("0", .bool false)]])])) "/a~1//0").map Pointer.text =
      ["/a~01/0/0/0", "/a~01/0/0/1", "/a~01/2/0"] := by decide +kernel

end SheetFill.Json

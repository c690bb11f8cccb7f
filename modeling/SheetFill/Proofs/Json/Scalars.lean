import SheetFill.Proofs.Json.Environment
import SheetFill.Proofs.Json.Queries

/-!
# Documents that differ in scalars

Two documents have an object under the same key at the top, and some members of this object are scalars in both,
though not the same ones. In everything else the documents are equal. Then the same nodes are found in both,
from wherever the search starts: a search goes by keys and by the items of arrays, and scalars have neither.

Texts are not the same. But a scalar is the text of a member, and it is found only by those who ask the object
itself for the member. Whatever nodes are bound, the object is asked only at the location that is its key.

## Main definitions

* `Value.DifferUnder` — documents that differ in some scalars of an object at the top.
* `keyNames` — the members that may answer for a key.
* `Environment.Traced` — nothing is found that is not found from the root.

## Main results

* `Value.DifferUnder.walk_eq` — searches find the same nodes.
* `Environment.traced_ofValue`, `Environment.traced_enter` — with nothing bound, and with one node bound.
* `Value.DifferUnder.textAt_eq` — look-ups that do not ask for the scalars find the same texts.
-/

namespace SheetFill.Json

/-! ## Members -/

namespace Value

/-- Is the value a text, a number or a truth value? -/
def isScalar : Value → Bool
  | .string _ | .number _ | .bool _ => true
  | .null | .array _ | .object _ => false

/-- Members with the same keys in the same order, whose values are equal or related. -/
def MembersAlike (related : String → Value → Value → Prop) (members members' : List (String × Value)) :
    Prop :=
  List.Forall₂ (fun m m' => m.1 = m'.1 ∧ (m.2 = m'.2 ∨ related m.1 m.2 m'.2)) members members'

/-- Objects that are equal but for some members, which are scalars in both. -/
def ScalarsDiffer (free : String → Prop) (v w : Value) : Prop :=
  ∃ members members', v = .object members ∧ w = .object members' ∧
    MembersAlike (fun key x y => free key ∧ x.isScalar = true ∧ y.isScalar = true) members members'

/-- Documents that are equal but for some scalar members of an object under a key at the top. -/
def DifferUnder (top : String) (free : String → Prop) (root root' : Value) : Prop :=
  root = root' ∨ ∃ members members', root = .object members ∧ root' = .object members' ∧
    MembersAlike (fun key v w => key = top ∧ ScalarsDiffer free v w) members members'

variable {related : String → Value → Value → Prop} {members members' : List (String × Value)}

theorem MembersAlike.lookup_cases (h : MembersAlike related members members') (key : String) :
    lookup key members' = lookup key members ∨
      ∃ v w, lookup key members = some v ∧ lookup key members' = some w ∧ related key v w := by
  induction h with
  | nil => exact .inl rfl
  | @cons m m' rest rest' hm _ ih =>
      obtain ⟨k, v⟩ := m
      obtain ⟨k', w⟩ := m'
      obtain ⟨rfl, hvalue⟩ : k = k' ∧ (v = w ∨ related k v w) := hm
      by_cases hk : k = key
      · subst hk
        rcases hvalue with rfl | hrelated
        · exact .inl (by simp [lookup])
        · exact .inr ⟨v, w, by simp [lookup], by simp [lookup], hrelated⟩
      · simpa [lookup, hk] using ih

theorem MembersAlike.isSome_lookup (h : MembersAlike related members members') (key : String) :
    (lookup key members').isSome = (lookup key members).isSome := by
  rcases h.lookup_cases key with heq | ⟨v, w, hv, hw, -⟩
  · rw [heq]
  · rw [hv, hw]
    rfl

end Value

/-- The names of the members that may answer for a key: the key, and what follows the at signs it starts with. -/
def keyNames (key : String) : List String := [key, String.ofList (key.toList.dropWhile (· == '@'))]

/-- The member of a key has the same text, if related values under its names have. -/
theorem Value.MembersAlike.scalarText_keyValue? {related : String → Value → Value → Prop}
    {members members' : List (String × Value)} (h : MembersAlike related members members') {key : String}
    (htext : ∀ name ∈ keyNames key, ∀ v w, related name v w → w.scalarText = v.scalarText) :
    (Document.keyValue? key (.object members')).map scalarText =
      (Document.keyValue? key (.object members)).map scalarText := by
  have hname : ∀ name ∈ keyNames key,
      (lookup name members').map scalarText = (lookup name members).map scalarText := by
    intro name hname
    rcases h.lookup_cases name with heq | ⟨v, w, hv, hw, hrelated⟩
    · rw [heq]
    · rw [hv, hw, Option.map_some, Option.map_some, htext name hname v w hrelated]
  have hsome := h.isSome_lookup key
  simp only [Document.keyValue?, member?]
  cases hlookup : lookup key members with
  | none =>
      have hnone : lookup key members' = none := by
        rwa [hlookup, Option.isSome_none, Option.isSome_eq_false_iff, Option.isNone_iff_eq_none] at hsome
      simp only [hnone]
      exact hname _ (by simp [keyNames])
  | some v =>
      have hfirst := hname key (by simp [keyNames])
      rw [hlookup] at hfirst
      obtain ⟨w, hw, hfirst⟩ := Option.map_eq_some_iff.1 hfirst
      simp only [hw, Option.map_some, hfirst]

/-! ## Places in documents that differ -/

section Differ

open Value Document Pointer

variable {top : String} {free : String → Prop} {root root' : Value}

/-- What two documents have at a place that differ in some scalars of the object under a key at the top. -/
inductive AlikeAt (top : String) (free : String → Prop) (root root' : Value) (p : Pointer) : Prop
  | same (heq : p.resolve root' = p.resolve root)
  /-- The place is the root. -/
  | root {members members' : List (String × Value)} (hp : p.resolve root = some (.object members))
      (hp' : p.resolve root' = some (.object members'))
      (hmembers : MembersAlike (fun _ v w => ScalarsDiffer free v w) members members')
  /-- The place is that of the object. -/
  | top (hroot : spread root .root = [.root]) {token : List Char} (hplace : p = .steps [token])
      (htop : String.ofList (unescapeStep token) = top) {members members' : List (String × Value)}
      (hp : p.resolve root = some (.object members)) (hp' : p.resolve root' = some (.object members'))
      (hmembers : MembersAlike (fun key v w => free key ∧ v.isScalar = true ∧ w.isScalar = true)
        members members')
  /-- The place is that of a scalar in the object. -/
  | scalar {v w : Value} (hp : p.resolve root = some v) (hp' : p.resolve root' = some w)
      (hv : v.isScalar = true) (hw : w.isScalar = true)

/-- Some steps below members that are alike there is the same, or what is below related members. -/
theorem Value.MembersAlike.descend_cases {related : String → Value → Value → Prop}
    {members members' : List (String × Value)} (h : MembersAlike related members members')
    (token : List Char) (tokens : List (List Char)) :
    descend (.object members') (token :: tokens) = descend (.object members) (token :: tokens) ∨
      ∃ v w, related (String.ofList (unescapeStep token)) v w ∧
        descend (.object members) (token :: tokens) = descend v tokens ∧
        descend (.object members') (token :: tokens) = descend w tokens := by
  have hbelow (all : List (String × Value)) : descend (.object all) (token :: tokens) =
      (lookup (String.ofList (unescapeStep token)) all).bind fun v => descend v tokens := rfl
  rw [hbelow, hbelow]
  rcases h.lookup_cases (String.ofList (unescapeStep token)) with heq | ⟨v, w, hv, hw, hrelated⟩
  · exact .inl (by rw [heq])
  · exact .inr ⟨v, w, hrelated, by rw [hv, Option.bind_some], by rw [hw, Option.bind_some]⟩

/-- There is nothing below a scalar. -/
theorem descend_of_isScalar {v : Value} (h : v.isScalar = true) (token : List Char)
    (tokens : List (List Char)) : descend v (token :: tokens) = none := by
  cases v with
  | array items => cases h
  | object members => cases h
  | _ => rfl

theorem Value.DifferUnder.alikeAt (h : DifferUnder top free root root') (p : Pointer) :
    AlikeAt top free root root' p := by
  rcases h with rfl | ⟨members, members', rfl, rfl, hmembers⟩
  · exact .same rfl
  · cases p with
    | malformed text => exact .same rfl
    | steps tokens =>
        -- the first step leads to the object if they differ there, the second to a scalar, and no step further
        cases tokens with
        | nil => exact .root rfl rfl (hmembers.imp fun _ _ hm => ⟨hm.1, hm.2.imp_right (·.2)⟩)
        | cons token tokens =>
            rcases hmembers.descend_cases token tokens with
              heq | ⟨_, _, ⟨htop, inner, inner', rfl, rfl, hinner⟩, hp, hp'⟩
            · exact .same heq
            · cases tokens with
              | nil => exact .top rfl rfl htop hp hp' hinner
              | cons step rest =>
                  rcases hinner.descend_cases step rest with heq | ⟨v, w, ⟨-, hv, hw⟩, hq, hq'⟩
                  · exact .same (hp'.trans (heq.trans hp.symm))
                  · cases rest with
                    | nil => exact .scalar (hp.trans hq) (hp'.trans hq') hv hw
                    | cons more rest =>
                        rw [descend_of_isScalar hv] at hq
                        rw [descend_of_isScalar hw] at hq'
                        exact .same ((hp'.trans hq').trans (hp.trans hq).symm)

/-! ## Searches -/

theorem Value.member?_of_isScalar {v : Value} (h : v.isScalar = true) (key : String) :
    v.member? key = none := by
  cases v with
  | array items => cases h
  | object members => cases h
  | _ => rfl

theorem spread_of_isScalar {document v : Value} {p : Pointer} (hp : p.resolve document = some v)
    (h : v.isScalar = true) : spread document p = [p] := by
  cases v with
  | null => cases h
  | array items => cases h
  | _ => simp [spread, hp]

/-- A place stands for the same nodes. -/
theorem AlikeAt.spread_eq {p : Pointer} (h : AlikeAt top free root root' p) :
    spread root' p = spread root p := by
  cases h with
  | same heq => rw [spread, heq, spread]
  | root hp hp' | top _ _ _ hp hp' => simp [spread, hp, hp']
  | scalar hp hp' hv hw => rw [spread_of_isScalar hp hv, spread_of_isScalar hp' hw]

/-- A place has the same keys. -/
theorem AlikeAt.hasKey_eq {p : Pointer} (h : AlikeAt top free root root' p) (key : String) :
    hasKey root' key p = hasKey root key p := by
  cases h with
  | same heq => rw [hasKey, heq, hasKey]
  | root hp hp' hmembers | top _ _ _ hp hp' hmembers =>
      simp only [hasKey, hp, hp', hasMember, member?, hmembers.isSome_lookup]
  | scalar hp hp' hv hw =>
      simp only [hasKey, hp, hp', hasMember, member?_of_isScalar hv, member?_of_isScalar hw]

theorem Value.DifferUnder.walk_eq (h : DifferUnder top free root root') (nodes : List Pointer)
    (path : Path) : walk root' nodes path = walk root nodes path := by
  have hspread : spread root' = spread root := funext fun p => (h.alikeAt p).spread_eq
  have hkeys (key : String) : hasKey root' key = hasKey root key :=
    funext fun p => (h.alikeAt p).hasKey_eq key
  have hfollow : follow root' = follow root := by
    funext nodes segment
    rw [follow, hspread, hkeys, follow]
  rw [walk, hfollow, walk]

theorem Value.DifferUnder.nodes_eq (h : DifferUnder top free root root') (location : String) :
    Scope.nodes (ofValue root') location = Scope.nodes (ofValue root) location := by
  rw [nodes_ofValue, nodes_ofValue, (h.alikeAt .root).spread_eq, h.walk_eq]

end Differ

/-! ## Traced environments -/

namespace Environment

open Document

/-- What is found at a path is also found when the search starts at the root. -/
def Traced (e : Environment) : Prop :=
  ∀ path fromRoot, e.resolve path fromRoot ⊆ walk e.root (spread e.root .root) path

theorem traced_ofValue (root : Value) : (ofValue root).Traced := by
  intro path fromRoot
  have hstart : (ofValue root).start? path = none := start?_eq_none_iff.2 fun _ _ => rfl
  rw [resolve, hstart]
  cases fromRoot with
  | true => exact List.Subset.refl _
  | false => exact List.nil_subset _

/-- A node of a path may be bound to it. -/
theorem traced_enter {root : Value} {path : Path} {node : Pointer}
    (hnode : node ∈ walk root (spread root .root) path) : ((ofValue root).enter path node).Traced := by
  intro query fromRoot
  rw [resolve]
  cases hstart : ((ofValue root).enter path node).start? query with
  | none =>
      cases fromRoot with
      | true => exact List.Subset.refl _
      | false => exact List.nil_subset _
  | some found =>
      obtain ⟨start, rest⟩ := found
      obtain ⟨front, rfl, hfront, -⟩ := start?_eq_some_iff.1 hstart
      have hbound : front = path ∧ node = start := by
        simpa [enter, ofValue] using hfront
      obtain ⟨rfl, rfl⟩ := hbound
      have happend : walk root (spread root .root) (front ++ rest) =
          walk root (walk root (spread root .root) front) rest := List.foldl_append
      intro q hq
      show q ∈ walk root (spread root .root) (front ++ rest)
      rw [happend, walk_eq_flatMap]
      exact List.mem_flatMap.2 ⟨node, hnode, hq⟩

end Environment

/-! ## Texts -/

section Texts

open Value Document Pointer

/-- The steps to a node lead through the segments on which it was found. -/
theorem Document.sublist_of_mem_walk {root : Value} (done : Path) {path : Path} {nodes : List Pointer}
    (hnodes : ∀ p ∈ nodes, ∃ tokens, p = .steps tokens ∧
      (done.map fun segment => escapeStep segment.toList).Sublist tokens)
    {q : Pointer} (hq : q ∈ walk root nodes path) : ∃ tokens, q = .steps tokens ∧
      ((done ++ path).map fun segment => escapeStep segment.toList).Sublist tokens := by
  induction path generalizing nodes done with
  | nil =>
      rw [List.append_nil]
      exact hnodes q hq
  | cons segment path ih =>
      have hfollow : ∀ p ∈ follow root nodes segment, ∃ tokens, p = .steps tokens ∧
          ((done ++ [segment]).map fun segment => escapeStep segment.toList).Sublist tokens := by
        intro p hp
        obtain ⟨node, hnode, hp⟩ := List.mem_flatMap.1 hp
        obtain ⟨front, rfl, hsub⟩ := hnodes node (List.mem_of_mem_filter hnode)
        obtain ⟨more, rfl⟩ := under_of_mem_spread hp
        refine ⟨front ++ [escapeStep segment.toList] ++ more, foldl_push_steps more _, ?_⟩
        rw [List.map_append]
        exact (hsub.append (.refl _)).trans (List.sublist_append_left _ _)
      have hwalked := ih (done ++ [segment]) hfollow hq
      rwa [List.append_assoc, List.singleton_append] at hwalked

/-- The place of a member at the top is found at the location that is its key. -/
theorem Document.eq_singleton_of_mem_walk {root : Value} {token : List Char} {path : Path}
    (h : .steps [token] ∈ walk root [.root] path) : path = [String.ofList (unescapeStep token)] := by
  cases path with
  | nil => cases List.mem_singleton.1 h
  | cons segment rest =>
      obtain ⟨tokens, htokens, hsub⟩ := sublist_of_mem_walk []
        (List.forall_mem_singleton.2 ⟨[], rfl, List.Sublist.refl _⟩) h
      obtain rfl := Pointer.steps.inj htokens
      have hsteps := hsub.eq_of_length_le (by simp)
      simp only [List.nil_append, List.map_cons, List.cons.injEq, List.map_eq_nil_iff] at hsteps
      obtain ⟨rfl, rfl⟩ := hsteps
      rw [unescapeStep_escapeStep, String.ofList_toList]

theorem scalarText_of_scalarsDiffer {free : String → Prop} {v w : Value} (h : ScalarsDiffer free v w) :
    w.scalarText = v.scalarText := by
  obtain ⟨members, members', rfl, rfl, -⟩ := h
  rfl

theorem keyValue?_of_isScalar {v : Value} (h : v.isScalar = true) (key : String) :
    keyValue? key v = none := by
  simp only [keyValue?, member?_of_isScalar h]

/-- A text is that of the key at the first node. -/
theorem Environment.textAt_of_resolve {e : Environment} {location : String} {search : Bool} {p : Pointer}
    {nodes : List Pointer} (h : e.resolve (segments location) search = p :: nodes) (key : String) :
    e.textAt location key search =
      (((p.resolve e.root).bind (keyValue? key)).map scalarText).getD "" := by
  rw [Environment.textAt, h]
  dsimp only
  cases (p.resolve e.root).bind (keyValue? key) with
  | none => rfl
  | some v => rfl

/-- Look-ups find the same texts, but for those of the object that ask for the scalars. -/
theorem Value.DifferUnder.textAt_eq {top : String} {free : String → Prop} {e e' : Environment}
    (h : DifferUnder top free e.root e'.root) (hnodes : e'.node? = e.node?) (htraced : e.Traced)
    {location key : String}
    (hkey : segments location = [top] → ∀ name ∈ keyNames key, ¬ free name) (search : Bool) :
    e'.textAt location key search = e.textAt location key search := by
  have hresolve : e'.resolve (segments location) search = e.resolve (segments location) search := by
    have hstart : e'.start? (segments location) = e.start? (segments location) :=
      Environment.start?_congr fun front _ => by rw [hnodes]
    simp only [Environment.resolve, hstart, h.walk_eq, (h.alikeAt .root).spread_eq]
  cases hfound : e.resolve (segments location) search with
  | nil => rw [Environment.textAt, hresolve, Environment.textAt, hfound]
  | cons p nodes =>
      have hmem : p ∈ walk e.root (spread e.root .root) (segments location) :=
        htraced (segments location) search (by rw [hfound]; exact List.mem_cons_self)
      rw [Environment.textAt_of_resolve (hresolve.trans hfound), Environment.textAt_of_resolve hfound]
      congr 1
      cases h.alikeAt p with
      | same heq => rw [heq]
      | root hp hp' hmembers =>
          rw [hp, hp', Option.bind_some, Option.bind_some]
          exact hmembers.scalarText_keyValue? fun _ _ _ _ => scalarText_of_scalarsDiffer
      | top hroot hplace htop hp hp' hmembers =>
          -- the object is found at its own key only, and there nobody asks for a free member
          rw [hp, hp', Option.bind_some, Option.bind_some]
          refine hmembers.scalarText_keyValue? fun name hname v w hfree => ?_
          rw [hroot, hplace] at hmem
          exact absurd hfree.1 (hkey (htop ▸ eq_singleton_of_mem_walk hmem) name hname)
      | scalar hp hp' hv hw =>
          rw [hp, hp', Option.bind_some, Option.bind_some, keyValue?_of_isScalar hv,
            keyValue?_of_isScalar hw]

end Texts

end SheetFill.Json
